import Sentential.Sentence.Basic

/- Positions in a sentence. A position is the list of argument indices that
   leads from the root to a node, so the empty list is the root. `at?` reads
   the sentence at a position, `replaceAt` puts another sentence there, and
   `positions` lists them all in lexicographic order. -/
namespace Sentential
namespace Sentence

/-- The sentence at a position, if the position exists. -/
def at? : Sentence → List Nat → Option Sentence
  | s, [] => some s
  | s, i :: path => (s.child? i).bind fun c => c.at? path

/-- The same sentence with `t` at the given position; unchanged if there is no
    such position. -/
def replaceAt : Sentence → List Nat → Sentence → Sentence
  | _, [], t => t
  | .atom name, _ :: _, _ => .atom name
  | .compound op args, i :: path, t => .compound op (args.modify i fun c => c.replaceAt path t)

mutual

/-- All positions, a node before its arguments and those from left to right. -/
def positions : Sentence → List (List Nat)
  | .atom _ => [[]]
  | .compound _ args => [] :: positionsFrom 0 args

/-- The positions inside a list of arguments, the first of which has the given
    index. -/
def positionsFrom (index : Nat) : List Sentence → List (List Nat)
  | [] => []
  | s :: rest => (positions s).map (index :: ·) ++ positionsFrom (index + 1) rest

end

/-! ## First facts -/

@[simp] theorem at?_nil (s : Sentence) : s.at? [] = some s := by
  cases s <;> rfl

theorem at?_cons (s : Sentence) (i : Nat) (path : List Nat) :
    s.at? (i :: path) = (s.child? i).bind fun c => c.at? path := by
  cases s <;> rfl

/-- Reading along two paths in turn is reading along their concatenation. -/
theorem at?_append (s : Sentence) (p q : List Nat) :
    s.at? (p ++ q) = (s.at? p).bind fun c => c.at? q := by
  induction p generalizing s with
  | nil => simp
  | cons i p ih => simp only [List.cons_append, at?_cons, Option.bind_assoc, ih]

end Sentence

end Sentential
