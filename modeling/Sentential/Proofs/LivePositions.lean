import Sentential.Proofs.StackSimulation

/- The positions that evaluation reaches, and the one that stops it. Evaluating
   a node goes on to some of its arguments (`Enters`), and a position is live
   when evaluation goes on along all of it; `live_cons` follows it from the
   root. A fault is what a node fails with by itself (`Fault`): an atom that is
   not assigned, a negation over other than one argument. Evaluation fails
   exactly when a fault stands at a live position (`eval_eq_error_iff_faultyAt`),
   and it never does at two (`FaultyAt.position_unique`): of two arguments of one
   junction that are both entered, the first was left with a value. -/
namespace Sentential
namespace Sentence
variable {v : Valuation}

/-! ## Live positions -/

/-- Evaluating the node goes on to its argument at this index: the one argument
    of a negation, an argument of a conjunction behind true ones only, or of a
    disjunction behind false ones only. -/
def Enters (v : Valuation) : Sentence → Nat → Prop
  | .atom _, _ => False
  | .compound .neg args, i => args.length = 1 ∧ i = 0
  | .compound .conj args, i =>
    i < args.length ∧ ∀ a ∈ args.take i, (a.eval v).outcome = .ok true
  | .compound .disj args, i =>
    i < args.length ∧ ∀ a ∈ args.take i, (a.eval v).outcome = .ok false

/-- Evaluation of `s` goes on along this position. -/
inductive Live (v : Valuation) (s : Sentence) : List Nat → Prop
  | root : Live v s []
  | argument {p : List Nat} {node : Sentence} {i : Nat} :
      Live v s p → s.at? p = some node → Enters v node i → Live v s (p ++ [i])

theorem enters_junction {op : Connective} {stop : Bool} (h : op.stop? = some stop)
    {args : List Sentence} {i : Nat} :
    Enters v (.compound op args) i ↔ i < args.length ∧ ∀ a ∈ args.take i, Passes v stop a := by
  cases op <;> cases h <;> rfl

theorem Enters.lt_length {s : Sentence} {i : Nat} (h : Enters v s i) : i < s.children.length := by
  match s with
  | .atom _ => cases h
  | .compound .neg args =>
    obtain ⟨hl, rfl⟩ := h
    show 0 < args.length
    omega
  | .compound .conj _ | .compound .disj _ => exact h.1

theorem Enters.exists_child {s : Sentence} {i : Nat} (h : Enters v s i) :
    ∃ c, s.child? i = some c :=
  ⟨_, List.getElem?_eq_getElem h.lt_length⟩

theorem live_iff_reached {s : Sentence} {p : List Nat} :
    Live v s p ↔ Reached (Enters v) s p := by
  refine ⟨fun h => ?_, fun h => ?_⟩
  · induction h with
    | root => exact .root
    | argument _ hnode henters ih => exact .argument ih hnode henters
  · induction h with
    | root => exact .root
    | argument _ hnode henters ih => exact .argument ih hnode henters

/-- A position below the root is live when its first argument is entered and
    the rest is live there. -/
theorem live_cons {s : Sentence} {i : Nat} {p : List Nat} :
    Live v s (i :: p) ↔ Enters v s i ∧ ∃ c, s.child? i = some c ∧ Live v c p := by
  simp only [live_iff_reached]
  exact reached_cons fun h => h.exists_child

/-! ## Faults -/

/-- What evaluation of this node fails with before it goes on to an argument. -/
inductive Fault (v : Valuation) : Sentence → EvalError → Prop
  | unassigned {name : String} : v name = none → Fault v (.atom name) (.unassigned name)
  | arity {args : List Sentence} : args.length ≠ 1 →
      Fault v (.compound .neg args) (.arity args.length)

/-- A live position whose node fails with `e` by itself. -/
def FaultyAt (v : Valuation) (s : Sentence) (p : List Nat) (e : EvalError) : Prop :=
  Live v s p ∧ ∃ node, s.at? p = some node ∧ Fault v node e

theorem Fault.not_enters {s : Sentence} {e : EvalError} (h : Fault v s e) (i : Nat) :
    ¬ Enters v s i := by
  cases h with
  | unassigned _ => exact id
  | arity hl => exact fun henters => hl henters.1

theorem faultyAt_nil {s : Sentence} {e : EvalError} : FaultyAt v s [] e ↔ Fault v s e := by
  refine ⟨fun h => ?_, fun h => ⟨.root, s, at?_nil s, h⟩⟩
  obtain ⟨-, node, hnode, hfault⟩ := h
  obtain rfl : s = node := by simpa using hnode
  exact hfault

theorem faultyAt_cons {s : Sentence} {i : Nat} {p : List Nat} {e : EvalError} :
    FaultyAt v s (i :: p) e ↔ Enters v s i ∧ ∃ c, s.child? i = some c ∧ FaultyAt v c p e := by
  refine ⟨fun h => ?_, fun h => ?_⟩
  · obtain ⟨hlive, node, hnode, hfault⟩ := h
    obtain ⟨hi, c, hc, hlive'⟩ := live_cons.mp hlive
    rw [at?_cons_of_child? hc] at hnode
    exact ⟨hi, c, hc, hlive', node, hnode, hfault⟩
  · obtain ⟨hi, c, hc, hlive, node, hnode, hfault⟩ := h
    rw [← at?_cons_of_child? hc] at hnode
    exact ⟨live_cons.mpr ⟨hi, c, hc, hlive⟩, node, hnode, hfault⟩

theorem eval_atom_eq_error {name : String} {e : EvalError} :
    (eval v (.atom name)).outcome = .error e ↔ Fault v (.atom name) e := by
  rw [eval_atom, Run.ask_eq_error]
  refine ⟨fun ⟨hv, he⟩ => he ▸ .unassigned hv, fun h => ?_⟩
  cases h with
  | unassigned hv => exact ⟨hv, rfl⟩

theorem eval_neg_eq_error {args : List Sentence} {e : EvalError} :
    (eval v (.compound .neg args)).outcome = .error e ↔
      Fault v (.compound .neg args) e ∨
        ∃ arg, args = [arg] ∧ (eval v arg).outcome = .error e := by
  by_cases hl : args.length = 1
  · obtain ⟨arg, rfl⟩ := List.length_eq_one_iff.mp hl
    rw [eval_neg, Run.bind_eq_error]
    refine ⟨fun h => ?_, fun h => ?_⟩
    · rcases h with he | ⟨b, -, hb⟩
      · exact .inr ⟨arg, rfl, he⟩
      · cases hb
    · rcases h with hfault | ⟨arg', harg, he⟩
      · cases hfault
        contradiction
      · cases harg
        exact .inl he
  · rw [eval_neg_of_length hl]
    refine ⟨fun h => ?_, fun h => ?_⟩
    · cases h
      exact .inl (.arity hl)
    · rcases h with hfault | ⟨arg, rfl, -⟩
      · cases hfault
        rfl
      · exact absurd rfl hl

/-- A sentence fails by a fault of its root, or as an argument that it enters. -/
theorem eval_eq_error_iff {s : Sentence} {e : EvalError} :
    (s.eval v).outcome = .error e ↔
      Fault v s e ∨ ∃ i, Enters v s i ∧ ∃ c, s.child? i = some c ∧ (c.eval v).outcome = .error e := by
  cases s with
  | atom name =>
    rw [eval_atom_eq_error]
    exact ⟨.inl, fun h => h.resolve_right fun ⟨i, hi, _⟩ => hi⟩
  | compound op args =>
    rcases op.neg_or_junction with rfl | ⟨stop, hop⟩
    · rw [eval_neg_eq_error]
      refine or_congr_right ⟨fun h => ?_, fun h => ?_⟩
      · obtain ⟨arg, rfl, he⟩ := h
        exact ⟨0, ⟨rfl, rfl⟩, arg, rfl, he⟩
      · obtain ⟨i, ⟨hl, rfl⟩, c, hc, he⟩ := h
        obtain ⟨arg, rfl⟩ := List.length_eq_one_iff.mp hl
        obtain rfl : arg = c := by simpa [child?, children] using hc
        exact ⟨arg, rfl, he⟩
    · rw [eval_junction hop, evalUntil_eq_error]
      refine ⟨fun h => ?_, fun h => ?_⟩
      · obtain ⟨i, a, ha, hpre, he⟩ := h
        have hlt : i < args.length := (List.getElem?_eq_some_iff.mp ha).1
        exact .inr ⟨i, (enters_junction hop).mpr ⟨hlt, hpre⟩, a, ha, he⟩
      · -- a junction has no fault of its own
        rcases h with hfault | ⟨i, hi, c, hc, he⟩
        · cases hfault
          cases hop
        · exact ⟨i, c, hc, ((enters_junction hop).mp hi).2, he⟩

/-- Evaluation fails exactly with the fault at a live position. -/
theorem eval_eq_error_iff_faultyAt {s : Sentence} {e : EvalError} :
    (s.eval v).outcome = .error e ↔ ∃ p, FaultyAt v s p e := by
  refine ⟨fun h => ?_, fun h => ?_⟩
  · induction s with
    | atom name =>
      rcases eval_eq_error_iff.mp h with hfault | ⟨i, hi, -⟩
      · exact ⟨[], faultyAt_nil.mpr hfault⟩
      · cases hi
    | compound op args ih =>
      rcases eval_eq_error_iff.mp h with hfault | ⟨i, hi, c, hc, he⟩
      · exact ⟨[], faultyAt_nil.mpr hfault⟩
      · obtain ⟨p, hp⟩ := ih c (List.mem_of_getElem? hc) he
        exact ⟨i :: p, faultyAt_cons.mpr ⟨hi, c, hc, hp⟩⟩
  · obtain ⟨p, hp⟩ := h
    induction p generalizing s with
    | nil => exact eval_eq_error_iff.mpr (.inl (faultyAt_nil.mp hp))
    | cons i p ih =>
      obtain ⟨hi, c, hc, hp'⟩ := faultyAt_cons.mp hp
      exact eval_eq_error_iff.mpr (.inr ⟨i, hi, c, hc, ih hp'⟩)

/-- No argument is entered behind one that fails. -/
theorem Enters.le_of_error {s c : Sentence} {i j : Nat} {e : EvalError} (hj : Enters v s j)
    (hc : s.child? i = some c) (he : (c.eval v).outcome = .error e) : j ≤ i := by
  cases s with
  | atom name => cases hj
  | compound op args =>
    rcases op.neg_or_junction with rfl | ⟨stop, hop⟩
    · obtain ⟨-, rfl⟩ := hj
      omega
    · obtain ⟨hlt, hpre⟩ := (enters_junction hop).mp hj
      -- behind `i`, the argument `j` is entered only after `c` passed
      by_contra hij
      have hmem : c ∈ args.take j := by
        refine List.mem_of_getElem? (i := i) ?_
        rw [List.getElem?_take_of_lt (by omega)]
        exact hc
      have hpass : Passes v stop c := hpre c hmem
      rw [Passes, he] at hpass
      cases hpass

/-- Evaluation meets at most one fault. -/
theorem FaultyAt.position_unique {s : Sentence} {p q : List Nat} {e f : EvalError}
    (hp : FaultyAt v s p e) (hq : FaultyAt v s q f) : p = q := by
  induction p generalizing s q with
  | nil =>
    cases q with
    | nil => rfl
    | cons j q => exact absurd (faultyAt_cons.mp hq).1 ((faultyAt_nil.mp hp).not_enters j)
  | cons i p ih =>
    obtain ⟨hi, c, hc, hp'⟩ := faultyAt_cons.mp hp
    cases q with
    | nil => exact absurd hi ((faultyAt_nil.mp hq).not_enters i)
    | cons j q =>
      -- both arguments fail, so neither can stand behind the other
      obtain ⟨hj, d, hd, hq'⟩ := faultyAt_cons.mp hq
      have hji : j ≤ i := hj.le_of_error hc (eval_eq_error_iff_faultyAt.mpr ⟨p, hp'⟩)
      have hij : i ≤ j := hi.le_of_error hd (eval_eq_error_iff_faultyAt.mpr ⟨q, hq'⟩)
      obtain rfl : i = j := Nat.le_antisymm hij hji
      obtain rfl : c = d := by simpa [hc] using hd
      rw [ih hp' hq']

end Sentence

open Sentence in
/-- There is at most one live position with a fault, both methods fail exactly
    when there is one, and what they fail with is that fault. -/
theorem fails_at_the_faulty_position (m : Method) (v : Valuation) (s : Sentence) :
    (∀ p q e f, FaultyAt v s p e → FaultyAt v s q f → p = q) ∧
    ((∃ e, (m.run v s).outcome = .error e) ↔ ∃ p e, FaultyAt v s p e) ∧
    ∀ p e, FaultyAt v s p e → (m.run v s).outcome = .error e := by
  rw [m.run_eq_eval]
  refine ⟨fun p q e f hp hq => hp.position_unique hq, ?_,
    fun p e hp => eval_eq_error_iff_faultyAt.mpr ⟨p, hp⟩⟩
  simp only [eval_eq_error_iff_faultyAt]
  exact exists_comm

/-- A valuation of two names. -/
def Valuation.aNotB : Valuation := fun name =>
  if name = "a" then some true else if name = "b" then some false else none

open Sentence in
/-- The negation over two arguments is met, and the names behind it are not. -/
theorem fails_at_the_negation_inside_a_disjunction :
    let s : Sentence := .conj [.atom "a",
      .disj [.atom "b", .negAll [.atom "x", .atom "y"], .atom "z"], .negAll []]
    FaultyAt .aNotB s [1, 1] (.arity 2) ∧
    (Method.byStack.run .aNotB s).outcome = .error (.arity 2) ∧
    ∀ q f, FaultyAt .aNotB s q f → [1, 1] = q := by
  intro s
  have hinner : FaultyAt .aNotB (.negAll [.atom "x", .atom "y"]) [] (.arity 2) :=
    faultyAt_nil.mpr (.arity (by decide))
  have hfault : FaultyAt .aNotB s [1, 1] (.arity 2) :=
    faultyAt_cons.mpr ⟨⟨by decide, by decide⟩, _, rfl,
      faultyAt_cons.mpr ⟨⟨by decide, by decide⟩, _, rfl, hinner⟩⟩
  obtain ⟨hunique, -, herror⟩ := fails_at_the_faulty_position .byStack .aNotB s
  exact ⟨hfault, herror _ _ hfault, fun q f hq => hunique _ _ _ _ hfault hq⟩

end Sentential
