import Mathlib.Order.Bounds.Basic
import Sentential.Proofs.AtomNames
import Sentential.Proofs.ByteOrder
import Sentential.Proofs.PositionOrder

/- What can be asked about the structure of a sentence, told by its positions. Size
   and depth are recursions over the sentence, and the names are found by a search
   with a work list from whose end the next sentence is taken. Every round of the
   search takes one node off the work and leaves what it will find as it is
   (`sizes_round`, `holds_round`), so it ends after as many rounds as there are
   nodes, and what it has found then are the names that stand at the positions
   (`endsAfter_sizes`), in whatever order it came by them. -/
namespace Sentential

open Sentence

/-! ## The search for names -/

/-- The search between two rounds: the sentences still to visit, of which the last
    is visited next, and the names found so far. -/
structure WorkList where
  todo : List Sentence
  found : Std.TreeSet String

namespace WorkList

/-- One round, if anything is left to visit: an atom is found, and the arguments of
    a compound sentence are put at the end of the list. -/
def round? (w : WorkList) : Option WorkList :=
  match w.todo.getLast? with
  | none => none
  | some (.atom name) => some ⟨w.todo.dropLast, w.found.insert name⟩
  | some (.compound _ args) => some ⟨w.todo.dropLast ++ args, w.found⟩

/-- The search goes on for this many rounds, and has found these names when nothing
    is left to visit. -/
inductive EndsAfter : Nat → WorkList → Std.TreeSet String → Prop
  | now {w : WorkList} : w.round? = none → EndsAfter 0 w w.found
  | round {n : Nat} {w w' : WorkList} {found : Std.TreeSet String} :
      w.round? = some w' → EndsAfter n w' found → EndsAfter (n + 1) w found

/-- The name is found or will be: it occurs in a sentence still to visit. -/
def Holds (w : WorkList) (name : String) : Prop :=
  name ∈ w.found ∨ ∃ s ∈ w.todo, Occurs name s

theorem round?_nil (found : Std.TreeSet String) : round? ⟨[], found⟩ = none := rfl

theorem round?_atom (todo : List Sentence) (name : String) (found : Std.TreeSet String) :
    round? ⟨todo ++ [.atom name], found⟩ = some ⟨todo, found.insert name⟩ := by
  simp only [round?, List.getLast?_concat, List.dropLast_concat]

theorem round?_compound (todo : List Sentence) (op : Connective) (args : List Sentence)
    (found : Std.TreeSet String) :
    round? ⟨todo ++ [.compound op args], found⟩ = some ⟨todo ++ args, found⟩ := by
  simp only [round?, List.getLast?_concat, List.dropLast_concat]

/-- A round visits the last sentence, an atom or a compound one. -/
theorem round?_cases {w w' : WorkList} (h : w.round? = some w') :
    (∃ todo name, w.todo = todo ++ [.atom name] ∧ w' = ⟨todo, w.found.insert name⟩) ∨
    ∃ todo op args, w.todo = todo ++ [.compound op args] ∧ w' = ⟨todo ++ args, w.found⟩ := by
  obtain ⟨todo, found⟩ := w
  rcases List.eq_nil_or_concat todo with rfl | ⟨rest, s, rfl⟩
  · rw [round?_nil] at h
    cases h
  · rw [List.concat_eq_append] at h ⊢
    cases s with
    | atom name =>
      rw [round?_atom] at h
      exact .inl ⟨rest, name, rfl, (Option.some.inj h).symm⟩
    | compound op args =>
      rw [round?_compound] at h
      exact .inr ⟨rest, op, args, rfl, (Option.some.inj h).symm⟩

theorem round?_eq_none {w : WorkList} : w.round? = none ↔ w.todo = [] := by
  obtain ⟨todo, found⟩ := w
  rcases List.eq_nil_or_concat todo with rfl | ⟨rest, s, rfl⟩
  · simp [round?_nil]
  · rw [List.concat_eq_append]
    cases s <;> simp [round?_atom, round?_compound]

/-- A round takes the node that it visits off the work. -/
theorem sizes_round {w w' : WorkList} (h : w.round? = some w') :
    sizes w.todo = sizes w'.todo + 1 := by
  rcases round?_cases h with ⟨todo, name, htodo, rfl⟩ | ⟨todo, op, args, htodo, rfl⟩
  · rw [htodo, sizes_append]
    rfl
  · rw [htodo, sizes_append, sizes_append, sizes, sizes, size]
    omega

/-- A round changes nothing in what is found in the end. -/
theorem holds_round {w w' : WorkList} (h : w.round? = some w') (name : String) :
    w'.Holds name ↔ w.Holds name := by
  rcases round?_cases h with ⟨todo, n, htodo, rfl⟩ | ⟨todo, op, args, htodo, rfl⟩
  · simp only [Holds, htodo, Std.TreeSet.mem_insert, Std.LawfulEqCmp.compare_eq_iff_eq,
      List.mem_append, List.mem_singleton, or_and_right, exists_or, exists_eq_left, occurs_atom]
    rw [or_comm (a := n = name), or_assoc, or_comm (a := n = name)]
  · simp only [Holds, htodo, List.mem_append, List.mem_singleton, or_and_right, exists_or,
      exists_eq_left, occurs_compound]

/-- The search ends after as many rounds as there are nodes, with the names that
    were found or stood in the sentences to visit. -/
theorem endsAfter_sizes (w : WorkList) :
    ∃ found, EndsAfter (sizes w.todo) w found ∧ ∀ name, name ∈ found ↔ w.Holds name := by
  generalize hn : sizes w.todo = n
  induction n generalizing w with
  | zero =>
    have htodo : w.todo = [] := by
      by_contra hne
      obtain ⟨s, hs⟩ := List.exists_mem_of_ne_nil _ hne
      have hle := size_le_sizes hs
      have hpos := s.size_pos
      omega
    exact ⟨w.found, .now (round?_eq_none.mpr htodo), fun name => by simp [Holds, htodo]⟩
  | succ n ih =>
    cases hround : w.round? with
    | none =>
      rw [round?_eq_none.mp hround, sizes] at hn
      cases hn
    | some w' =>
      have hsizes := sizes_round hround
      obtain ⟨found, hends, hfound⟩ := ih w' (by omega)
      exact ⟨found, .round hround hends, fun name => (hfound name).trans (holds_round hround name)⟩

end WorkList

/-- The search from the end of the work list finds the names of the sentence. -/
theorem Sentence.search_ends (s : Sentence) :
    ∃ found, WorkList.EndsAfter s.size ⟨[s], ∅⟩ found ∧ found.toList = s.atoms := by
  obtain ⟨found, hends, hfound⟩ := WorkList.endsAfter_sizes ⟨[s], ∅⟩
  have hsize : sizes [s] = s.size := Nat.add_zero _
  rw [hsize] at hends
  refine ⟨found, hends, ?_⟩
  have hmem (name : String) : name ∈ found ↔ name ∈ s.atomSet := by
    rw [hfound, ← Std.TreeSet.mem_toList (t := s.atomSet), ← atoms, mem_atoms]
    simp [WorkList.Holds]
  exact (Std.TreeSet.Equiv.of_forall_mem_iff hmem).toList_eq

/-- The names of a sentence ascend by their code points. -/
theorem Sentence.atoms_ascend (s : Sentence) :
    s.atoms.Pairwise fun a b => a.toList < b.toList := by
  refine Std.TreeSet.ordered_toList.imp ?_
  intro a b hab
  have hlt : a < b := Batteries.compareOfLessAndEq_eq_lt.mp hab
  exact hlt

/-- The size of a sentence is the number of its positions, and its depth is one more
    than the length of the longest. The search for names ends after a round for each
    node. It finds the names that stand at some position, each once and in the order
    of the bytes of their UTF-8 form, which is the order by code points. -/
theorem queries_agree_with_positions (s : Sentence) :
    (∃ ps, InOrder (fun p => ∃ node, s.at? p = some node) ps ∧ ps.length = s.size) ∧
    IsGreatest {n | ∃ p node, s.at? p = some node ∧ p.length + 1 = n} s.depth ∧
    (∃ found, WorkList.EndsAfter s.size ⟨[s], ∅⟩ found ∧ found.toList = s.atoms) ∧
    (∀ name, name ∈ s.atoms ↔ ∃ p, s.at? p = some (.atom name)) ∧
    (s.atoms.Pairwise fun a b => a.toUTF8.data.toList < b.toUTF8.data.toList) ∧
    ∀ a b : String, a.toUTF8.data.toList < b.toUTF8.data.toList ↔ a.toList < b.toList := by
  refine ⟨⟨_, s.inOrder_positions, s.length_positions⟩, ⟨s.exists_length_eq_depth, ?_⟩,
    s.search_ends, fun name => mem_atoms, ?_, fun a b => Text.bytes_lt_iff⟩
  · rintro n ⟨p, node, hnode, rfl⟩
    exact length_lt_depth hnode
  · exact s.atoms_ascend.imp Text.bytes_lt_iff.mpr

end Sentential
