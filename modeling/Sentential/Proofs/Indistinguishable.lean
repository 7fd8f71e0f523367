import Mathlib.Data.Finset.Card
import Mathlib.Data.Fintype.Basic
import Std.Data.HashSet.Lemmas
import Sentential.Proofs.Positions
import Sentential.Sentence.Census

/- When two sentences are equal, and how many of a list are different. Sentences are
   equal when nothing that can be read at any position tells them apart: kind, number
   of arguments and name (`eq_of_indistinguishable`), by induction over the one and,
   below a compound sentence, position by position through the arguments of both. The
   set of a list of sentences has one member for each index whose sentence stands at
   no earlier one, since every member of the list stands at such an index first
   (`card_firstAt`). -/
namespace Sentential
namespace Sentence

/-! ## Equality by positions -/

/-- Nothing that can be read at the roots tells the sentences apart. -/
def Alike (a b : Sentence) : Prop :=
  a.kind = b.kind ∧ a.children.length = b.children.length ∧ a.name? = b.name?

/-- A position exists in both sentences or in neither, and what stands there is alike. -/
def Indistinguishable (s t : Sentence) : Prop :=
  ∀ p, Option.Rel Alike (s.at? p) (t.at? p)

theorem Indistinguishable.refl (s : Sentence) : Indistinguishable s s := by
  intro p
  cases s.at? p with
  | none => exact .none
  | some node => exact .some ⟨rfl, rfl, rfl⟩

theorem Indistinguishable.root {s t : Sentence} (h : Indistinguishable s t) : Alike s t := by
  have hroot := h []
  rw [at?_nil, at?_nil] at hroot
  cases hroot with
  | some halike => exact halike

theorem Indistinguishable.argument {op op' : Connective} {args args' : List Sentence}
    (h : Indistinguishable (.compound op args) (.compound op' args')) {i : Nat}
    (hi : i < args.length) (hi' : i < args'.length) : Indistinguishable args[i] args'[i] := by
  intro p
  have hchild : (compound op args).child? i = some args[i] := List.getElem?_eq_getElem hi
  have hchild' : (compound op' args').child? i = some args'[i] := List.getElem?_eq_getElem hi'
  have hbelow := h (i :: p)
  rw [at?_cons_of_child? hchild, at?_cons_of_child? hchild'] at hbelow
  exact hbelow

theorem eq_of_indistinguishable {s t : Sentence} (h : Indistinguishable s t) : s = t := by
  induction s generalizing t with
  | atom name =>
    obtain ⟨hkind, -, hname⟩ := h.root
    cases t with
    | atom name' => rw [Option.some.inj hname]
    | compound op' args' => exact absurd hkind.symm op'.kind_ne_atom
  | compound op args ih =>
    obtain ⟨hkind, hlength, -⟩ := h.root
    cases t with
    | atom name' => exact absurd hkind op.kind_ne_atom
    | compound op' args' =>
      obtain rfl : op = op' := Connective.eq_of_kind hkind
      have hargs : args = args' := by
        apply List.ext_getElem hlength
        intro i hi hi'
        exact ih args[i] (List.getElem_mem hi) (h.argument hi hi')
      rw [hargs]

theorem beq_iff_indistinguishable {s t : Sentence} :
    (s == t) = true ↔ Indistinguishable s t := by
  rw [beq_iff_eq]
  refine ⟨?_, eq_of_indistinguishable⟩
  rintro rfl
  exact .refl s

/-! ## Sets of sentences -/

/-- The sentence at this index is equal to none at an earlier one. -/
def FirstAt (ss : List Sentence) (i : Fin ss.length) : Prop := ∀ j < i, (ss[j] == ss[i]) = false

instance (ss : List Sentence) : DecidablePred (FirstAt ss) := fun i =>
  inferInstanceAs (Decidable (∀ j < i, (ss[j] == ss[i]) = false))

theorem FirstAt.index_unique {ss : List Sentence} {i j : Fin ss.length} (hi : FirstAt ss i)
    (hj : FirstAt ss j) (h : ss[i] = ss[j]) : i = j := by
  rcases lt_trichotomy i j with hlt | heq | hgt
  · exact absurd h (beq_eq_false_iff_ne.mp (hj i hlt))
  · exact heq
  · exact absurd h.symm (beq_eq_false_iff_ne.mp (hi j hgt))

theorem exists_firstAt {ss : List Sentence} {s : Sentence} (h : s ∈ ss) :
    ∃ i, FirstAt ss i ∧ ss[i] = s := by
  have hindex : ss.idxOf s < ss.length := List.idxOf_lt_length_iff.mpr h
  have hs : ss[ss.idxOf s] = s := List.getElem_idxOf hindex
  refine ⟨⟨ss.idxOf s, hindex⟩, ?_, hs⟩
  intro j hj
  have hearlier : (ss[j] == s) = false := List.not_of_lt_findIdx hj
  show (ss[j] == ss[ss.idxOf s]) = false
  rw [hs, hearlier]

/-- As many sentences are different as stand at their first index. -/
theorem card_firstAt (ss : List Sentence) :
    (Finset.univ.filter (FirstAt ss)).card = ss.toFinset.card := by
  refine Finset.card_bij (fun i _ => ss[i]) ?_ ?_ ?_
  · intro i _
    exact List.mem_toFinset.mpr (List.getElem_mem i.isLt)
  · intro i hi j hj h
    rw [Finset.mem_filter] at hi hj
    exact hi.2.index_unique hj.2 h
  · intro s hs
    obtain ⟨i, hi, his⟩ := exists_firstAt (List.mem_toFinset.mp hs)
    exact ⟨i, Finset.mem_filter.mpr ⟨Finset.mem_univ i, hi⟩, his⟩

theorem mem_distinct {ss : List Sentence} {s : Sentence} : s ∈ distinct ss ↔ s ∈ ss := by
  rw [distinct, Std.HashSet.mem_ofList, List.contains_iff_mem]

theorem size_distinct (ss : List Sentence) :
    (distinct ss).size = (Finset.univ.filter (FirstAt ss)).card := by
  have hnodup : (distinct ss).toList.Nodup :=
    Std.HashSet.distinct_toList.imp fun h => beq_eq_false_iff_ne.mp h
  have hmembers : (distinct ss).toList.toFinset = ss.toFinset := by
    ext s
    rw [List.mem_toFinset, List.mem_toFinset, Std.HashSet.mem_toList, mem_distinct]
  rw [card_firstAt, ← hmembers, List.toFinset_card_of_nodup hnodup, Std.HashSet.length_toList]

end Sentence

open Sentence in
/-- Two sentences are equal exactly when no position tells them apart, and then they
    have the same hash. The set of a list of sentences has a member for each index
    whose sentence is equal to none before it; every sentence of the list is in it,
    and no sentence that is unequal to all of them. -/
theorem equality_is_indistinguishability :
    (∀ s t : Sentence, (s == t) = true ↔ ∀ p, Option.Rel Alike (s.at? p) (t.at? p)) ∧
    (∀ s t : Sentence, (∀ p, Option.Rel Alike (s.at? p) (t.at? p)) → hash s = hash t) ∧
    ∀ ss : List Sentence,
      (distinct ss).size = (Finset.univ.filter (FirstAt ss)).card ∧
      (∀ s ∈ ss, s ∈ distinct ss) ∧
      ∀ s, (∀ t ∈ ss, (s == t) = false) → s ∉ distinct ss := by
  refine ⟨fun s t => beq_iff_indistinguishable, ?_, ?_⟩
  · intro s t h
    rw [eq_of_indistinguishable h]
  · intro ss
    refine ⟨size_distinct ss, fun s hs => mem_distinct.mpr hs, ?_⟩
    intro s hs hmem
    exact beq_eq_false_iff_ne.mp (hs s (mem_distinct.mp hmem)) rfl

open Sentence in
/-- A negation and a conjunction over the same argument are different, and the atom
    in the list counts once. -/
theorem equality_is_indistinguishability_of_a_list_with_a_copy :
    let ss : List Sentence :=
      [.neg (.atom "a"), .atom "a", .conj [.atom "a"], .neg (.atom "a")]
    (distinct ss).size = 3 ∧ Sentence.neg (.atom "a") ∈ distinct ss ∧
      ((∀ t ∈ ss, (Sentence.disj [] == t) = false) ∧ Sentence.disj [] ∉ distinct ss) ∧
      (∀ p, Option.Rel Alike ((Sentence.neg (.atom "a")).at? p) ((~~~Sentence.atom "a").at? p)) ∧
      hash (Sentence.neg (.atom "a")) = hash (~~~Sentence.atom "a") := by
  intro ss
  obtain ⟨hbeq, hhash, hlist⟩ := equality_is_indistinguishability
  obtain ⟨hsize, hmem, hnot⟩ := hlist ss
  have hcard : (Finset.univ.filter (FirstAt ss)).card = 3 := by decide
  have hnone : ∀ t ∈ ss, (Sentence.disj [] == t) = false := by decide
  have halike := (hbeq (Sentence.neg (.atom "a")) (~~~Sentence.atom "a")).mp (by decide)
  exact ⟨hsize.trans hcard, hmem _ (by decide), ⟨hnone, hnot _ hnone⟩, halike, hhash _ _ halike⟩

end Sentential
