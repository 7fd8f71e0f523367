import Sentential.Sentence.Basic

/- Deciding whether two sentences are the same tree, and hashing them. Equality
   compares roots and then the argument lists in order, so reordered arguments
   or another connective make another sentence. The decision is its own proof,
   so comparison with `==` is lawful, and equal sentences have equal hashes
   because the hash is a function of the sentence. -/
namespace Sentential
namespace Sentence

mutual

/-- Whether two sentences are the same tree. -/
def decEq : (s t : Sentence) → Decidable (s = t)
  | .atom m, .atom n =>
    if h : m = n then isTrue (congrArg Sentence.atom h) else isFalse (by simp [h])
  | .atom _, .compound _ _ => isFalse (by simp)
  | .compound _ _, .atom _ => isFalse (by simp)
  | .compound c ss, .compound d ts =>
    if h : c = d then
      match decEqList ss ts with
      | isTrue hs => isTrue (by rw [h, hs])
      | isFalse hs => isFalse (by simp [hs])
    else isFalse (by simp [h])

/-- Whether two argument lists are the same, member by member. -/
def decEqList : (ss ts : List Sentence) → Decidable (ss = ts)
  | [], [] => isTrue rfl
  | [], _ :: _ => isFalse (by simp)
  | _ :: _, [] => isFalse (by simp)
  | s :: ss, t :: ts =>
    match decEq s t with
    | isFalse h => isFalse (by simp [h])
    | isTrue h =>
      match decEqList ss ts with
      | isTrue hs => isTrue (by rw [h, hs])
      | isFalse hs => isFalse (by simp [hs])

end

instance : DecidableEq Sentence := decEq

mutual

/-- A hash of the whole tree. -/
def hashCode : Sentence → UInt64
  | .atom name => mixHash 11 (hash name)
  | .compound op args => mixHash (hash op) (hashCodes args)

/-- A hash of a list of trees, in order. -/
def hashCodes : List Sentence → UInt64
  | [] => 7
  | s :: rest => mixHash (hashCode s) (hashCodes rest)

end

instance : Hashable Sentence := ⟨hashCode⟩

end Sentence

end Sentential
