import Sentential.Sentence.Basic
import Sentential.Evaluation.Run

/- Evaluation by recursion over the sentence. A negation needs exactly one
   argument. A conjunction reads its arguments from left to right up to the
   first false one and a disjunction up to the first true one, so what stands
   behind the deciding argument is never asked for and cannot fail. Over no
   arguments a conjunction is true and a disjunction false. -/
namespace Sentential
namespace Sentence

mutual

/-- The run of a sentence under a valuation. -/
def eval (v : Valuation) : Sentence → Run Bool
  | .atom name => Run.ask v name
  | .compound .neg [arg] => do return !(← eval v arg)
  | .compound .neg args => .fail (.arity args.length)
  | .compound .conj args => evalUntil v false args
  | .compound .disj args => evalUntil v true args

/-- Reads a list from left to right up to the first member whose value is
    `stop`, and yields `stop` if there is one and its opposite if not. -/
def evalUntil (v : Valuation) (stop : Bool) : List Sentence → Run Bool
  | [] => return !stop
  | s :: rest => do
    if (← eval v s) == stop then return stop else evalUntil v stop rest

end

end Sentence

end Sentential
