import Sentential.Proofs.ClassicalTruth

/- The order of arguments. Other orders make a short-circuit skip other arguments,
   so a reordered sentence may fail where the sentence has a value, or have a value
   where it fails. But two values never differ: each is the classical value
   (`truth_eq_of_eval_ok`), for one and the same reading of what the valuation and
   the malformed negations leave open, and the classical value does not depend on
   the order. That is one case of a general fact (`Reordered.invariant`): what a
   sentence gets from its root and the values of its arguments in whatever order
   stays the same at all depths. Size, depth, the names that occur and the form
   of the negations are further cases. -/
namespace Sentential
namespace Sentence

/-- The second sentence is the first with the arguments of any number of its
    nodes in another order. -/
inductive Reordered : Sentence → Sentence → Prop
  | atom (name : String) : Reordered (.atom name) (.atom name)
  | compound (op : Connective) {args inside args' : List Sentence} :
      List.Forall₂ Reordered args inside → inside.Perm args' →
      Reordered (.compound op args) (.compound op args')

theorem map_eq_of_forall₂ {β : Type} {f : Sentence → β} {args inside : List Sentence}
    (h : List.Forall₂ Reordered args inside)
    (hf : ∀ a ∈ args, ∀ {b}, Reordered a b → f a = f b) : args.map f = inside.map f := by
  induction h with
  | nil => rfl
  | cons hab _ ih =>
    rw [List.map_cons, List.map_cons, hf _ (by simp) hab, ih fun c hc => hf c (by simp [hc])]

/-- What does not depend on the order of the arguments at one node is the same
    after reordering at all nodes. -/
theorem Reordered.invariant {β : Type} {f : Sentence → β}
    (hf : ∀ op args args', (args.map f).Perm (args'.map f) →
      f (.compound op args) = f (.compound op args'))
    {s t : Sentence} (h : Reordered s t) : f s = f t := by
  induction s generalizing t with
  | atom name =>
    cases h
    rfl
  | compound op args ih =>
    cases h with
    | compound _ hinside hperm =>
      have hmap := map_eq_of_forall₂ hinside ih
      apply hf
      rw [hmap]
      exact hperm.map f

/-! ## Size, depth, names and negations -/

theorem sizes_of_perm {args args' : List Sentence}
    (h : (args.map size).Perm (args'.map size)) : sizes args = sizes args' := by
  have hfold (ss : List Sentence) : sizes ss = (ss.map size).foldr (· + ·) 0 := by
    induction ss with
    | nil => rfl
    | cons s ss ih => rw [sizes, ih, List.map_cons, List.foldr_cons]
  rw [hfold, hfold]
  exact h.foldr_eq' (fun x _ y _ z => Nat.add_left_comm y x z) 0

theorem depths_of_perm {args args' : List Sentence}
    (h : (args.map depth).Perm (args'.map depth)) : depths args = depths args' := by
  have hfold (ss : List Sentence) : depths ss = (ss.map depth).foldr max 0 := by
    induction ss with
    | nil => rfl
    | cons s ss ih => rw [depths, ih, List.map_cons, List.foldr_cons]
  rw [hfold, hfold]
  exact h.foldr_eq' (fun x _ y _ z => Nat.max_left_comm y x z) 0

namespace Reordered
variable {s t : Sentence}

theorem size_eq (h : Reordered s t) : s.size = t.size :=
  h.invariant fun op args args' hperm => by rw [size, size, sizes_of_perm hperm]

theorem depth_eq (h : Reordered s t) : s.depth = t.depth :=
  h.invariant fun op args args' hperm => by rw [depth, depth, depths_of_perm hperm]

theorem occurs_iff (h : Reordered s t) (name : String) : Occurs name s ↔ Occurs name t := by
  apply iff_of_eq
  apply h.invariant
  intro op args args' hperm
  have hnames (ss : List Sentence) :
      Occurs name (.compound op ss) ↔ ∃ occurs ∈ ss.map (Occurs name), occurs := by
    rw [occurs_compound]
    refine ⟨?_, ?_⟩
    · intro ⟨a, ha, hoccurs⟩
      exact ⟨_, List.mem_map_of_mem ha, hoccurs⟩
    · intro ⟨occurs, hmem, hoccurs⟩
      obtain ⟨a, ha, rfl⟩ := List.mem_map.mp hmem
      exact ⟨a, ha, hoccurs⟩
  simp only [hnames, hperm.mem_iff]

theorem atoms_eq (h : Reordered s t) : s.atoms = t.atoms := by
  have hmem (name : String) : name ∈ s.atomSet ↔ name ∈ t.atomSet := by
    rw [← Std.TreeSet.mem_toList, ← Std.TreeSet.mem_toList]
    exact (mem_atoms.trans (h.occurs_iff name)).trans mem_atoms.symm
  exact (Std.TreeSet.Equiv.of_forall_mem_iff hmem).toList_eq

theorem negationsUnary_iff (h : Reordered s t) : NegationsUnary s ↔ NegationsUnary t := by
  apply iff_of_eq
  apply h.invariant
  intro op args args' hperm
  have hargs (ss : List Sentence) : NegationsUnary (.compound op ss) ↔
      (op = .neg → (ss.map NegationsUnary).length = 1) ∧
        ∀ unary ∈ ss.map NegationsUnary, unary := by
    rw [negationsUnary_compound, List.length_map, List.forall_mem_map]
  simp only [hargs, hperm.mem_iff, hperm.length_eq]

end Reordered

/-! ## The classical value -/

/-- Where all malformed negations are read alike, indices play no part. -/
theorem truths_of_const (w : String → Bool) (reading : Bool) (index : Nat)
    (args : List Sentence) :
    truths w (fun _ => reading) index args = args.map (truth w fun _ => reading) := by
  induction args generalizing index with
  | nil => rfl
  | cons a args ih => rw [truths, ih, List.map_cons]

theorem truth_neg_of_length (w : String → Bool) (odd : List Nat → Bool) {args : List Sentence}
    (h : args.length ≠ 1) : truth w odd (.compound .neg args) = odd [] := by
  match args, h with
  | [], _ => rfl
  | _ :: _ :: _, _ => rfl

theorem Reordered.truth_eq {s t : Sentence} (h : Reordered s t) (w : String → Bool)
    (reading : Bool) : s.truth w (fun _ => reading) = t.truth w (fun _ => reading) := by
  apply h.invariant
  intro op args args' hperm
  have hlength : args.length = args'.length := by simpa using hperm.length_eq
  cases op with
  | neg =>
    by_cases hl : args.length = 1
    · obtain ⟨a, rfl⟩ := List.length_eq_one_iff.mp hl
      obtain ⟨b, rfl⟩ := List.length_eq_one_iff.mp (hlength ▸ hl)
      have hvalue : a.truth w (fun _ => reading) = b.truth w (fun _ => reading) :=
        List.singleton_inj.mp (List.perm_singleton.mp hperm)
      rw [truth, truth, hvalue]
    · rw [truth_neg_of_length w _ hl, truth_neg_of_length w _ (hlength ▸ hl)]
  | conj =>
    rw [truth, truth, truths_of_const, truths_of_const, Bool.eq_iff_iff, List.all_eq_true,
      List.all_eq_true]
    simp only [hperm.mem_iff]
  | disj =>
    rw [truth, truth, truths_of_const, truths_of_const, Bool.eq_iff_iff, List.any_eq_true,
      List.any_eq_true]
    simp only [hperm.mem_iff]

/-- Of two reorderings with a value, both have the same. -/
theorem Reordered.value_eq {v : Valuation} {s t : Sentence} (h : Reordered s t) {b c : Bool}
    (hs : (s.eval v).outcome = .ok b) (ht : (t.eval v).outcome = .ok c) : b = c := by
  -- names without a value are read as false, and so are negations without one
  let w : String → Bool := fun name => (v name).getD false
  have hw : v.ExtendedBy w := by
    intro name b hb
    show (v name).getD false = b
    rw [hb, Option.getD_some]
  calc b = s.truth w (fun _ => false) := (truth_eq_of_eval_ok hw hs _).symm
    _ = t.truth w (fun _ => false) := h.truth_eq w false
    _ = c := truth_eq_of_eval_ok hw ht _

end Sentence

open Sentence in
/-- By either method, a sentence and any reordering of it never have different
    values. Both have a value if all negations stand over one argument and all
    names are assigned. The names, the size and the depth are the same anyway. -/
theorem reordering_changes_no_value (m : Method) (v : Valuation) {s t : Sentence}
    (h : Reordered s t) :
    (∀ b c, (m.run v s).outcome = .ok b → (m.run v t).outcome = .ok c → b = c) ∧
    (s.NegationsUnary → (∀ name ∈ s.atoms, ∃ b, v name = some b) →
      (∃ b, (m.run v s).outcome = .ok b) ∧ ∃ c, (m.run v t).outcome = .ok c) ∧
    t.atoms = s.atoms ∧ t.size = s.size ∧ t.depth = s.depth := by
  rw [m.run_eq_eval, m.run_eq_eval]
  refine ⟨fun b c hs ht => h.value_eq hs ht, fun hneg hnames => ⟨?_, ?_⟩, h.atoms_eq.symm,
    h.size_eq.symm, h.depth_eq.symm⟩
  · exact eval_ok_of_assigned hneg hnames
  · rw [h.atoms_eq] at hnames
    exact eval_ok_of_assigned (h.negationsUnary_iff.mp hneg) hnames

open Sentence in
/-- Reordered at the root and inside the conjunction, which read by itself is
    false in the one order and fails in the other; and with every name assigned. -/
theorem reordering_changes_no_value_in_a_disjunction :
    let s : Sentence := .disj [.conj [.atom "b", .atom "x"], .atom "a", .negAll []]
    let t : Sentence := .disj [.atom "a", .negAll [], .conj [.atom "x", .atom "b"]]
    let u : Sentence := .conj [.atom "a", .neg (.atom "b")]
    let w : Sentence := .conj [.neg (.atom "b"), .atom "a"]
    (Reordered s t ∧ (Method.byStack.run .aNotB s).outcome = .ok true ∧
      ∀ c, (Method.byStack.run .aNotB t).outcome = .ok c → true = c) ∧
    Reordered u w ∧ u.NegationsUnary ∧ (∀ name ∈ u.atoms, ∃ b, Valuation.aNotB name = some b) ∧
      ∃ c, (Method.byStack.run .aNotB w).outcome = .ok c := by
  intro s t u w
  have hinner : Reordered (.conj [.atom "b", .atom "x"]) (.conj [.atom "x", .atom "b"]) :=
    .compound .conj (.cons (.atom "b") (.cons (.atom "x") .nil)) (.swap _ _ [])
  have hst : Reordered s t :=
    .compound .disj (.cons hinner (.cons (.atom "a") (.cons (.compound .neg .nil .nil) .nil)))
      ((List.Perm.swap _ _ _).trans ((List.Perm.swap _ _ _).cons _))
  have hs : (Method.byStack.run .aNotB s).outcome = .ok true := by
    rw [Method.run_eq_eval]
    decide
  have hnegation : Reordered (.neg (.atom "b")) (.neg (.atom "b")) :=
    .compound .neg (.cons (.atom "b") .nil) (.refl _)
  have huw : Reordered u w :=
    .compound .conj (.cons (.atom "a") (.cons hnegation .nil)) (.swap _ _ [])
  have hneg : u.NegationsUnary := by
    simp [u, Sentence.neg, Sentence.conj, negationsUnary_compound, negationsUnary_atom]
  have hnames : ∀ name ∈ u.atoms, ∃ b, Valuation.aNotB name = some b := by
    intro name h
    rw [mem_atoms] at h
    simp only [u, Sentence.neg, Sentence.conj, occurs_compound, occurs_atom, List.mem_cons,
      List.not_mem_nil, or_false, exists_eq_or_imp, exists_eq_left] at h
    rcases h with rfl | rfl
    · exact ⟨true, rfl⟩
    · exact ⟨false, rfl⟩
  exact ⟨⟨hst, hs, fun c hc => (reordering_changes_no_value .byStack .aNotB hst).1 true c hs hc⟩,
    huw, hneg, hnames, ((reordering_changes_no_value .byStack .aNotB huw).2.1 hneg hnames).2⟩

/-- An order may decide whether there is a value at all. -/
example : (Sentence.eval .aNotB (.conj [.atom "b", .atom "x"])).outcome = .ok false ∧
    (Sentence.eval .aNotB (.conj [.atom "x", .atom "b"])).outcome = .error (.unassigned "x") := by
  decide

end Sentential
