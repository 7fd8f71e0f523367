import Std.Data.HashSet.Basic
import Sentential.Sentence.Equality

/- Which members of a list of sentences are the same: for each the index of the
   first one equal to it, and the set of them all, held by hashes. -/
namespace Sentential
namespace Sentence

/-- For each member the index of the first member equal to it. -/
def firstIndices (ss : List Sentence) : List Nat := ss.map fun s => ss.idxOf s

/-- The members as a set. -/
def distinct (ss : List Sentence) : Std.HashSet Sentence := Std.HashSet.ofList ss

/-- The different kinds at the roots, in order of first appearance. -/
def rootKinds (ss : List Sentence) : List Kind := (ss.map kind).eraseDups

end Sentence

end Sentential
