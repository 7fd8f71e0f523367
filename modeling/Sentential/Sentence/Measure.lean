import Sentential.Sentence.Basic

/- How large a sentence is: `size` counts its nodes and `depth` its levels, an
   atom being one node and one level. Both are recursions over the tree; the
   companions `sizes` and `depths` are the sum and the maximum over an argument
   list. -/
namespace Sentential
namespace Sentence

mutual

/-- Number of nodes. -/
def size : Sentence → Nat
  | .atom _ => 1
  | .compound _ args => 1 + sizes args

/-- Number of nodes of a list of sentences. -/
def sizes : List Sentence → Nat
  | [] => 0
  | s :: rest => size s + sizes rest

end

mutual

/-- Number of levels; an atom has one. -/
def depth : Sentence → Nat
  | .atom _ => 1
  | .compound _ args => 1 + depths args

/-- Levels of the deepest member of a list; none for the empty list. -/
def depths : List Sentence → Nat
  | [] => 0
  | s :: rest => max (depth s) (depths rest)

end

/-! ## First facts -/

theorem size_pos (s : Sentence) : 0 < s.size := by
  cases s <;> simp only [size] <;> omega

theorem depth_pos (s : Sentence) : 0 < s.depth := by
  cases s <;> simp only [depth] <;> omega

/-- A node counts once, and so do the nodes of its arguments. -/
theorem size_eq (s : Sentence) : s.size = 1 + sizes s.children := by
  cases s <;> simp [size, sizes, children]

/-- A node is one level above its arguments. -/
theorem depth_eq (s : Sentence) : s.depth = 1 + depths s.children := by
  cases s <;> simp [depth, depths, children]

theorem sizes_append (ss ts : List Sentence) : sizes (ss ++ ts) = sizes ss + sizes ts := by
  induction ss with
  | nil => simp [sizes]
  | cons s ss ih => simp only [List.cons_append, sizes, ih]; omega

/-- A member of a list has no more nodes than the list. -/
theorem size_le_sizes {s : Sentence} {ss : List Sentence} (h : s ∈ ss) : s.size ≤ sizes ss := by
  induction h with
  | head rest => simp only [sizes]; omega
  | tail t _ ih => simp only [sizes]; omega

/-- A member of a list has no more levels than the deepest. -/
theorem depth_le_depths {s : Sentence} {ss : List Sentence} (h : s ∈ ss) :
    s.depth ≤ depths ss := by
  induction h with
  | head rest => simp only [depths]; omega
  | tail t _ ih => simp only [depths]; omega

end Sentence

end Sentential
