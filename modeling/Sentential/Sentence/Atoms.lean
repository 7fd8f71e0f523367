import Std.Data.TreeSet.Basic
import Sentential.Sentence.Measure

/- The names that occur in a sentence. `atomsFrom` empties a list of sentences
   still to visit: an atom adds its name to the set, a compound sentence is
   replaced by its arguments. Every visit takes one node off the work, which is
   why it ends. The set keeps each name once and in the order of its
   characters' code points. -/
namespace Sentential
namespace Sentence

/-- `found` together with the names that occur in the sentences still to visit. -/
def atomsFrom : (todo : List Sentence) → (found : Std.TreeSet String) → Std.TreeSet String
  | [], found => found
  | .atom name :: todo, found => atomsFrom todo (found.insert name)
  | .compound _ args :: todo, found => atomsFrom (args ++ todo) found
termination_by todo => sizes todo
decreasing_by
  all_goals simp only [sizes, sizes_append, size]; omega

/-- The names that occur in the sentence. -/
def atomSet (s : Sentence) : Std.TreeSet String := atomsFrom [s] ∅

/-- The names that occur in the sentence, each once and in ascending order. -/
def atoms (s : Sentence) : List String := s.atomSet.toList

end Sentence

end Sentential
