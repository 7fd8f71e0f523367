import Sentential.Proofs.AtomNames
import Sentential.Proofs.LivePositions

/- Evaluation against classical truth. `truth w odd s` is the value of `s` when
   every name has the value that `w` gives it and every negation over other than
   one argument has the value that `odd` gives to its position; a conjunction is
   true when all its arguments are and a disjunction when some argument is.
   Evaluation reads only part of a sentence under only part of an assignment,
   yet a value that it finds is the classical one whatever the rest may be
   (`truth_eq_of_eval_ok`): the arguments behind one that settles a junction
   have no say. And where every negation has one argument and every name that
   occurs is assigned there is no fault to meet, so a value is found
   (`eval_ok_of_assigned`). -/
namespace Sentential
namespace Sentence

mutual

/-- The classical value of a sentence. -/
def truth (w : String → Bool) (odd : List Nat → Bool) : Sentence → Bool
  | .atom name => w name
  | .compound .neg [arg] => !truth w (fun p => odd (0 :: p)) arg
  | .compound .neg _ => odd []
  | .compound .conj args => (truths w odd 0 args).all id
  | .compound .disj args => (truths w odd 0 args).any id

/-- The classical values of a list of arguments, the first of which has the
    given index. -/
def truths (w : String → Bool) (odd : List Nat → Bool) (index : Nat) : List Sentence → List Bool
  | [] => []
  | s :: rest => truth w (fun p => odd (index :: p)) s :: truths w odd (index + 1) rest

end

/-- Every negation in the sentence stands over one argument. -/
def NegationsUnary (s : Sentence) : Prop :=
  ∀ p args, s.at? p = some (.compound .neg args) → args.length = 1

theorem negationsUnary_iff {s : Sentence} :
    NegationsUnary s ↔
      ∀ p t, s.at? p = some t → ∀ args, t = .compound .neg args → args.length = 1 := by
  refine ⟨?_, ?_⟩
  · rintro h p t ht args rfl
    exact h p args ht
  · intro h p args hp
    exact h p _ hp args rfl

theorem negationsUnary_atom (name : String) : NegationsUnary (.atom name) := by
  rw [negationsUnary_iff, forall_at?_atom]
  intro args h
  cases h

theorem negationsUnary_compound {op : Connective} {args : List Sentence} :
    NegationsUnary (.compound op args) ↔
      (op = .neg → args.length = 1) ∧ ∀ a ∈ args, NegationsUnary a := by
  simp only [negationsUnary_iff]
  refine forall_at?_compound.trans (and_congr_left' ?_)
  refine ⟨?_, ?_⟩
  · intro h hop
    exact h args (by rw [hop])
  · intro h args' he
    cases he
    exact h rfl

end Sentence

/-- The total assignment gives every assigned name its value. -/
def Valuation.ExtendedBy (v : Valuation) (w : String → Bool) : Prop :=
  ∀ name b, v name = some b → w name = b

namespace Sentence
variable {v : Valuation} {w : String → Bool}

/-! ## A value found is the classical one -/

/-- Reading a list ends with the value `stop` at an argument that has it, and
    with the other value when all the arguments have that. -/
theorem truths_of_evalUntil_ok {stop b : Bool} {args : List Sentence}
    (ih : ∀ a ∈ args, ∀ c, (a.eval v).outcome = .ok c → ∀ odd, a.truth w odd = c)
    (h : (evalUntil v stop args).outcome = .ok b) (odd : List Nat → Bool) (index : Nat) :
    b = stop ∧ stop ∈ truths w odd index args ∨
      b = !stop ∧ ∀ c ∈ truths w odd index args, c = !stop := by
  induction args generalizing index with
  | nil =>
    rw [evalUntil_nil] at h
    cases h
    exact .inr ⟨rfl, by simp [truths]⟩
  | cons a args ihargs =>
    rw [truths]
    by_cases ha : Passes v stop a
    · have hva : a.truth w (fun p => odd (index :: p)) = !stop := ih a (by simp) _ ha _
      rw [evalUntil_cons_of_passes ha] at h
      rcases ihargs (fun c hc => ih c (by simp [hc])) h (index + 1) with ⟨hb, hmem⟩ | ⟨hb, hall⟩
      · exact .inl ⟨hb, List.mem_cons_of_mem _ hmem⟩
      · refine .inr ⟨hb, fun c hc => ?_⟩
        rcases List.mem_cons.mp hc with rfl | hc
        · exact hva
        · exact hall c hc
    · -- reading ends here, and this argument alone makes `stop` a member
      rw [evalUntil_cons_of_not_passes ha] at h
      have hb : b = stop := eq_stop_of_not_passes ha h
      have hva : a.truth w (fun p => odd (index :: p)) = stop := hb ▸ ih a (by simp) b h _
      exact .inl ⟨hb, by simp [hva]⟩

/-- A value that evaluation finds is the classical value, however the names that
    are not assigned and the negations that have no value are read. -/
theorem truth_eq_of_eval_ok (hw : v.ExtendedBy w) {s : Sentence} {b : Bool}
    (h : (s.eval v).outcome = .ok b) (odd : List Nat → Bool) : s.truth w odd = b := by
  induction s generalizing b odd with
  | atom name =>
    rw [eval_atom, Run.ask_eq_ok] at h
    rw [truth, hw name b h]
  | compound op args ih =>
    have hargs (stop : Bool) (h : (evalUntil v stop args).outcome = .ok b) :
        b = stop ∧ stop ∈ truths w odd 0 args ∨
          b = !stop ∧ ∀ c ∈ truths w odd 0 args, c = !stop :=
      truths_of_evalUntil_ok (fun a ha c hc odd => ih a ha hc odd) h odd 0
    match op with
    | .neg =>
      by_cases hl : args.length = 1
      · obtain ⟨arg, rfl⟩ := List.length_eq_one_iff.mp hl
        rw [eval_neg] at h
        obtain ⟨c, hc, hb⟩ := Run.bind_eq_ok.mp h
        cases hb
        rw [truth, ih arg (by simp) hc]
      · rw [eval_neg_of_length hl] at h
        cases h
    | .conj =>
      rw [eval_junction rfl] at h
      rw [truth]
      rcases hargs false h with ⟨rfl, hmem⟩ | ⟨rfl, hall⟩
      · simpa using hmem
      · simpa using hall
    | .disj =>
      rw [eval_junction rfl] at h
      rw [truth]
      rcases hargs true h with ⟨rfl, hmem⟩ | ⟨rfl, hall⟩
      · simpa using hmem
      · simpa using hall

/-! ## Where there is no fault there is a value -/

/-- Where every negation has one argument, the only fault is a name that occurs
    and is not assigned. -/
theorem unassigned_of_eval_error {s : Sentence} (hneg : s.NegationsUnary) {e : EvalError}
    (h : (s.eval v).outcome = .error e) :
    ∃ name ∈ s.atoms, v name = none ∧ e = .unassigned name := by
  obtain ⟨p, -, node, hnode, hfault⟩ := eval_eq_error_iff_faultyAt.mp h
  cases hfault with
  | unassigned hv => exact ⟨_, mem_atoms.mpr ⟨p, hnode⟩, hv, rfl⟩
  | arity hl => exact absurd (hneg p _ hnode) hl

theorem eval_ok_of_assigned {s : Sentence} (hneg : s.NegationsUnary)
    (hnames : ∀ name ∈ s.atoms, ∃ b, v name = some b) : ∃ b, (s.eval v).outcome = .ok b := by
  cases ho : (s.eval v).outcome with
  | ok b => exact ⟨b, rfl⟩
  | error e =>
    obtain ⟨name, hname, hv, -⟩ := unassigned_of_eval_error hneg ho
    obtain ⟨b, hb⟩ := hnames name hname
    rw [hv] at hb
    cases hb

end Sentence

/-- By either method, a value found is the classical value under every total
    assignment that extends the valuation and every reading of the negations
    over other than one argument; and a sentence whose negations all have one
    argument has a value when all its names are assigned. -/
theorem evaluation_sound_and_complete (m : Method) (v : Valuation) (s : Sentence) :
    (∀ b, (m.run v s).outcome = .ok b →
      ∀ w, v.ExtendedBy w → ∀ odd, s.truth w odd = b) ∧
    (s.NegationsUnary → (∀ name ∈ s.atoms, ∃ b, v name = some b) →
      ∃ b, (m.run v s).outcome = .ok b) := by
  rw [m.run_eq_eval]
  refine ⟨?_, Sentence.eval_ok_of_assigned⟩
  intro b hb w hw odd
  exact Sentence.truth_eq_of_eval_ok hw hb odd

/-- A false argument decides a conjunction with a negation that has no value and
    a name that is not assigned; and a sentence over the assigned names has a
    value. -/
theorem evaluation_sound_and_complete_for_two_names :
    let s : Sentence := .conj [.atom "b", .negAll [.atom "x", .atom "y"], .atom "z"]
    let t : Sentence := .neg (.conj [.atom "a", .atom "b"])
    ((Method.byStack.run .aNotB s).outcome = .ok false ∧
      ∀ w, Valuation.aNotB.ExtendedBy w → ∀ odd, s.truth w odd = false) ∧
    t.NegationsUnary ∧ (∀ name ∈ t.atoms, ∃ b, Valuation.aNotB name = some b) ∧
      ∃ b, (Method.byStack.run .aNotB t).outcome = .ok b := by
  intro s t
  have hs : (Method.byStack.run .aNotB s).outcome = .ok false := by
    rw [Method.run_eq_eval]
    decide
  have hneg : t.NegationsUnary := by
    simp [t, Sentence.neg, Sentence.conj, Sentence.negationsUnary_compound,
      Sentence.negationsUnary_atom]
  have hnames : ∀ name ∈ t.atoms, ∃ b, Valuation.aNotB name = some b := by
    intro name h
    rw [Sentence.mem_atoms] at h
    simp only [t, Sentence.neg, Sentence.conj, Sentence.occurs_compound, Sentence.occurs_atom,
      List.mem_cons, List.not_mem_nil, or_false, exists_eq_or_imp, exists_eq_left] at h
    rcases h with rfl | rfl
    · exact ⟨true, rfl⟩
    · exact ⟨false, rfl⟩
  exact ⟨⟨hs, (evaluation_sound_and_complete .byStack .aNotB s).1 false hs⟩, hneg, hnames,
    (evaluation_sound_and_complete .byStack .aNotB t).2 hneg hnames⟩

end Sentential
