import Std.Data.TreeSet.Lemmas
import Sentential.Proofs.Positions
import Sentential.Sentence.Atoms

/- The names that the work list collects are those that stand at some position.
   What a work list still to visit adds to the names found (`mem_atomsFrom`) is
   shown by following its recursion: an atom adds its own name, and a compound
   sentence has the names of the arguments that take its place. -/
namespace Sentential
namespace Sentence

/-- The name stands at some position of the sentence. -/
def Occurs (name : String) (s : Sentence) : Prop := ∃ p, s.at? p = some (.atom name)

theorem occurs_atom {name n : String} : Occurs name (.atom n) ↔ n = name := by
  refine ⟨?_, ?_⟩
  · intro ⟨p, hp⟩
    cases p with
    | nil => simpa using hp
    | cons i p =>
      obtain ⟨c, hc, -⟩ := at?_cons_eq_some.mp hp
      simp [child?, children] at hc
  · intro h
    exact ⟨[], by rw [h, at?_nil]⟩

theorem occurs_compound {name : String} {op : Connective} {args : List Sentence} :
    Occurs name (.compound op args) ↔ ∃ a ∈ args, Occurs name a := by
  refine ⟨?_, ?_⟩
  · intro ⟨p, hp⟩
    cases p with
    | nil => simp at hp
    | cons i p =>
      obtain ⟨c, hc, hp'⟩ := at?_cons_eq_some.mp hp
      exact ⟨c, List.mem_of_getElem? hc, p, hp'⟩
  · intro ⟨a, ha, p, hp⟩
    obtain ⟨i, hi⟩ := exists_child?_of_mem op ha
    exact ⟨i :: p, at?_cons_eq_some.mpr ⟨a, hi, hp⟩⟩

theorem mem_atomsFrom {name : String} (todo : List Sentence) (found : Std.TreeSet String) :
    name ∈ atomsFrom todo found ↔ name ∈ found ∨ ∃ s ∈ todo, Occurs name s := by
  induction todo, found using atomsFrom.induct with
  | case1 found => simp [atomsFrom]
  | case2 n todo found ih =>
    rw [atomsFrom, ih, Std.TreeSet.mem_insert, Std.LawfulEqCmp.compare_eq_iff_eq]
    simp only [List.mem_cons, exists_eq_or_imp, occurs_atom]
    rw [or_comm (a := n = name), or_assoc]
  | case3 op args todo found ih =>
    rw [atomsFrom, ih]
    simp only [List.mem_cons, exists_eq_or_imp, occurs_compound]
    simp only [List.mem_append, or_and_right, exists_or]

/-- The names of a sentence are those that occur in it. -/
theorem mem_atoms {name : String} {s : Sentence} : name ∈ s.atoms ↔ Occurs name s := by
  rw [atoms, Std.TreeSet.mem_toList, atomSet, mem_atomsFrom]
  simp

end Sentence

end Sentential
