import Sentential.Sentence.Position

/- Induction over sentences, and replacement at a position. A sentence nests
   lists of sentences, so the induction that every proof about it wants asks
   for the claim of all arguments at once (`Sentence.induct`). Replacing at a
   position below the root changes the one argument that the position leads
   into (`replaceAt_child`), and a list with one member changed is the list cut
   at that member (`split_at`, `modify_split`): this is how a change deep in a
   sentence is followed up to the root. Positions that are reached by steps from
   node to argument (`Reached`) grow at the far end, where the condition of a node
   stands; proofs follow the sentence from the root, which `reached_cons`
   allows. -/
namespace Sentential
namespace Sentence

/-- What holds of every atom, and of a compound sentence as soon as it holds of
    the arguments, holds of every sentence. -/
@[elab_as_elim, induction_eliminator]
theorem induct {motive : Sentence → Prop} (atom : ∀ name, motive (.atom name))
    (compound : ∀ op args, (∀ a ∈ args, motive a) → motive (.compound op args)) :
    ∀ s, motive s
  | .atom name => atom name
  | .compound op args => compound op args fun a _ => induct atom compound a

/-! ## Reading along a position -/

theorem child?_compound (op : Connective) (args : List Sentence) (i : Nat) :
    (compound op args).child? i = args[i]? := rfl

theorem at?_cons_eq_some {s t : Sentence} {i : Nat} {p : List Nat} :
    s.at? (i :: p) = some t ↔ ∃ c, s.child? i = some c ∧ c.at? p = some t := by
  rw [at?_cons, Option.bind_eq_some_iff]

theorem at?_cons_of_child? {s c : Sentence} {i : Nat} (h : s.child? i = some c) (p : List Nat) :
    s.at? (i :: p) = c.at? p := by
  rw [at?_cons, h, Option.bind_some]

theorem exists_child?_of_mem (op : Connective) {args : List Sentence} {a : Sentence}
    (h : a ∈ args) : ∃ i, (compound op args).child? i = some a :=
  List.getElem?_of_mem h

theorem forall_at?_atom {P : Sentence → Prop} {name : String} :
    (∀ p t, (atom name).at? p = some t → P t) ↔ P (.atom name) := by
  refine ⟨fun h => h [] _ (at?_nil _), fun h p t ht => ?_⟩
  cases p with
  | nil =>
    obtain rfl : atom name = t := by simpa using ht
    exact h
  | cons i p =>
    obtain ⟨c, hc, -⟩ := at?_cons_eq_some.mp ht
    simp [child?, children] at hc

/-- What holds at every position holds at the root and at every position of every
    argument. -/
theorem forall_at?_compound {P : Sentence → Prop} {op : Connective} {args : List Sentence} :
    (∀ p t, (compound op args).at? p = some t → P t) ↔
      P (.compound op args) ∧ ∀ a ∈ args, ∀ p t, a.at? p = some t → P t := by
  refine ⟨fun h => ⟨h [] _ (at?_nil _), fun a ha p t ht => ?_⟩, fun ⟨hroot, hargs⟩ p t ht => ?_⟩
  · obtain ⟨i, hi⟩ := exists_child?_of_mem op ha
    exact h (i :: p) t (at?_cons_eq_some.mpr ⟨a, hi, ht⟩)
  · cases p with
    | nil =>
      obtain rfl : compound op args = t := by simpa using ht
      exact hroot
    | cons i p =>
      obtain ⟨c, hc, ht'⟩ := at?_cons_eq_some.mp ht
      exact hargs c (List.mem_of_getElem? hc) p t ht'

/-! ## Positions reached step by step -/

/-- The root is reached, and from a node that is reached the arguments to which
    the node allows a step. -/
inductive Reached (step : Sentence → Nat → Prop) (s : Sentence) : List Nat → Prop
  | root : Reached step s []
  | argument {p : List Nat} {node : Sentence} {i : Nat} :
      Reached step s p → s.at? p = some node → step node i → Reached step s (p ++ [i])

section Reached
variable {step : Sentence → Nat → Prop}

/-- A position below the root is reached when there is a step to its first
    argument and the rest is reached there. -/
theorem reached_cons (hstep : ∀ {node i}, step node i → ∃ c, node.child? i = some c)
    {s : Sentence} {i : Nat} {p : List Nat} :
    Reached step s (i :: p) ↔ step s i ∧ ∃ c, s.child? i = some c ∧ Reached step c p := by
  refine ⟨fun h => ?_, fun h => ?_⟩
  · -- `Reached` grows at the far end, so the step from the root is its first
    generalize hq : i :: p = q at h
    induction h generalizing p with
    | root => cases hq
    | @argument q node j hreached hnode hj ih =>
      cases q with
      | nil =>
        obtain ⟨rfl, rfl⟩ : i = j ∧ p = [] := by simpa using hq
        obtain rfl : s = node := by simpa using hnode
        obtain ⟨c, hc⟩ := hstep hj
        exact ⟨hj, c, hc, .root⟩
      | cons k q =>
        obtain ⟨rfl, rfl⟩ : i = k ∧ p = q ++ [j] := by simpa using hq
        obtain ⟨hi, c, hc, hreached'⟩ := ih rfl
        rw [at?_cons_of_child? hc] at hnode
        exact ⟨hi, c, hc, .argument hreached' hnode hj⟩
  · obtain ⟨hi, c, hc, hreached⟩ := h
    induction hreached with
    | root => exact .argument .root (at?_nil s) hi
    | argument _ hnode hj ih =>
      rw [← at?_cons_of_child? hc] at hnode
      exact .argument ih hnode hj

end Reached

/-! ## Replacing at a position -/

@[simp] theorem replaceAt_nil (s t : Sentence) : s.replaceAt [] t = t := by
  cases s <;> rfl

theorem split_at {args : List Sentence} {i : Nat} {c : Sentence} (h : args[i]? = some c) :
    args = args.take i ++ c :: args.drop (i + 1) := by
  obtain ⟨hi, rfl⟩ := List.getElem?_eq_some_iff.mp h
  rw [← List.drop_eq_getElem_cons hi, List.take_append_drop]

theorem modify_split {args : List Sentence} {i : Nat} {c : Sentence} (h : args[i]? = some c)
    (f : Sentence → Sentence) : args.modify i f = args.take i ++ f c :: args.drop (i + 1) := by
  obtain ⟨hi, rfl⟩ := List.getElem?_eq_some_iff.mp h
  rw [List.modify_eq_take_cons_drop hi]

/-- Replacing below the root replaces inside one argument. -/
theorem replaceAt_child {op : Connective} {args : List Sentence} {i : Nat} {c : Sentence}
    (h : args[i]? = some c) (p : List Nat) (t : Sentence) :
    (compound op args).replaceAt (i :: p) t =
      .compound op (args.take i ++ c.replaceAt p t :: args.drop (i + 1)) := by
  rw [replaceAt, modify_split h]

theorem replaceAt_of_child?_eq_none {s : Sentence} {i : Nat} (h : s.child? i = none)
    (p : List Nat) (t : Sentence) : s.replaceAt (i :: p) t = s := by
  cases s with
  | atom name => rfl
  | compound op args =>
    rw [child?_compound, List.getElem?_eq_none_iff] at h
    rw [replaceAt, List.modify_eq_self h]

end Sentence

end Sentential
