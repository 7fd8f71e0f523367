import Sentential.Evaluation.Recursive
import Sentential.Proofs.Positions

/- Laws of recursive evaluation, so that nothing later has to open `eval`. The
   two junctions obey one set of laws: `Connective.stop?` is the value of an
   argument that settles the junction, and an argument passes when it has the
   other value (`Passes`). A junction over `pre ++ rest` is the junction over
   `pre` carried on with `rest` (`evalUntil_append`), and behind an argument
   that does not pass nothing counts (`evalUntil_settled`). What only concerns
   how runs are put together is shown once for the steps of evaluation, without
   an induction over the sentence (`Run.Composes`, `eval_composes`). -/
namespace Sentential

namespace Run
variable {α β : Type}

theorem bind_of_ok {r : Run α} {a : α} (h : r.outcome = .ok a) (f : α → Run β) :
    r.bind f = ⟨r.asked ++ (f a).asked, (f a).outcome⟩ := by
  simp only [bind, h]

theorem bind_of_error {r : Run α} {e : EvalError} (h : r.outcome = .error e) (f : α → Run β) :
    r.bind f = ⟨r.asked, .error e⟩ := by
  simp only [bind, h]

theorem bind_eq_error {r : Run α} {f : α → Run β} {e : EvalError} :
    (r.bind f).outcome = .error e ↔
      r.outcome = .error e ∨ ∃ a, r.outcome = .ok a ∧ (f a).outcome = .error e := by
  cases h : r.outcome with
  | ok a => simp [bind_of_ok h]
  | error d => simp [bind_of_error h]

theorem bind_eq_ok {r : Run α} {f : α → Run β} {b : β} :
    (r.bind f).outcome = .ok b ↔ ∃ a, r.outcome = .ok a ∧ (f a).outcome = .ok b := by
  cases h : r.outcome with
  | ok a => simp [bind_of_ok h]
  | error d => simp [bind_of_error h]

theorem ask_eq_ok {v : Valuation} {name : String} {b : Bool} :
    (ask v name).outcome = .ok b ↔ v name = some b := by
  rw [ask]
  cases v name <;> simp

theorem ask_eq_error {v : Valuation} {name : String} {e : EvalError} :
    (ask v name).outcome = .error e ↔ v name = none ∧ e = .unassigned name := by
  rw [ask]
  cases v name <;> simp [eq_comm]

/-- A property of runs, each taken for every valuation, that the single steps of
    evaluation have and that is kept when runs are put together. -/
structure Composes (P : (Valuation → Run Bool) → Prop) : Prop where
  pure : ∀ b, P fun _ => .pure b
  arity : ∀ n, P fun _ => .fail (.arity n)
  ask : ∀ name, P fun v => .ask v name
  bind : ∀ (r : Valuation → Run Bool) (f : Bool → Valuation → Run Bool),
    P r → (∀ b, P (f b)) → P fun v => (r v).bind fun b => f b v

end Run

/-- The value of an argument that settles a junction; a negation is none. -/
def Connective.stop? : Connective → Option Bool
  | .neg => none
  | .conj => some false
  | .disj => some true

theorem Connective.neg_or_junction (op : Connective) :
    op = .neg ∨ ∃ stop, op.stop? = some stop := by
  cases op with
  | neg => exact .inl rfl
  | conj => exact .inr ⟨false, rfl⟩
  | disj => exact .inr ⟨true, rfl⟩

namespace Sentence
variable {v : Valuation} {stop : Bool}

/-! ## One law for each kind of node -/

theorem eval_atom (name : String) : eval v (.atom name) = Run.ask v name := by
  rw [eval]

theorem eval_neg (arg : Sentence) :
    eval v (.compound .neg [arg]) = (eval v arg).bind fun b => Run.pure (!b) := by
  rw [eval]; rfl

theorem eval_neg_of_length {args : List Sentence} (h : args.length ≠ 1) :
    eval v (.compound .neg args) = .fail (.arity args.length) := by
  match args, h with
  | [], _ => rw [eval]; simp
  | _ :: _ :: _, _ => rw [eval]; simp

theorem eval_junction {op : Connective} (h : op.stop? = some stop) (args : List Sentence) :
    eval v (.compound op args) = evalUntil v stop args := by
  cases op <;> cases h <;> rw [eval]

/-! ## Reading a list up to a value -/

theorem evalUntil_nil : evalUntil v stop [] = .pure !stop := by
  rw [evalUntil]; rfl

theorem evalUntil_cons (a : Sentence) (rest : List Sentence) :
    evalUntil v stop (a :: rest) =
      (eval v a).bind fun b => if b = stop then .pure stop else evalUntil v stop rest := by
  rw [evalUntil]
  show (eval v a).bind _ = _
  -- the test of the definition is a decision, here it is an equation
  congr 1
  funext b
  cases b <;> cases stop <;> rfl

/-- The argument leaves a junction open: it has the value that does not settle it. -/
def Passes (v : Valuation) (stop : Bool) (a : Sentence) : Prop := (eval v a).outcome = .ok !stop

theorem eq_stop_of_not_passes {a : Sentence} {b : Bool} (h : ¬ Passes v stop a)
    (ho : (eval v a).outcome = .ok b) : b = stop := by
  rw [Passes, ho] at h
  cases b <;> cases stop <;> simp_all

theorem evalUntil_cons_of_passes {a : Sentence} (h : Passes v stop a) (rest : List Sentence) :
    evalUntil v stop (a :: rest) =
      ⟨(eval v a).asked ++ (evalUntil v stop rest).asked, (evalUntil v stop rest).outcome⟩ := by
  rw [evalUntil_cons, Run.bind_of_ok h, if_neg (by simp)]

theorem evalUntil_cons_of_not_passes {a : Sentence} (h : ¬ Passes v stop a)
    (rest : List Sentence) : evalUntil v stop (a :: rest) = eval v a := by
  rw [evalUntil_cons]
  cases ho : (eval v a).outcome with
  | error e => rw [Run.bind_of_error ho, ← ho]
  | ok b =>
    have hb : b = stop := eq_stop_of_not_passes h ho
    rw [Run.bind_of_ok ho, if_pos hb, ← hb]
    simp [Run.pure, ← ho]

/-- Reading two lists in a row: the second is read where the first left it open. -/
theorem evalUntil_append (pre rest : List Sentence) :
    evalUntil v stop (pre ++ rest) =
      (evalUntil v stop pre).bind fun b =>
        if b = stop then .pure stop else evalUntil v stop rest := by
  induction pre with
  | nil => rw [List.nil_append, evalUntil_nil, Run.pure_bind, if_neg (by simp)]
  | cons a pre ih =>
    rw [List.cons_append, evalUntil_cons, evalUntil_cons, Run.bind_assoc]
    congr 1
    funext b
    by_cases hb : b = stop
    · rw [if_pos hb, if_pos hb, Run.pure_bind, if_pos rfl]
    · rw [if_neg hb, if_neg hb, ih]

theorem evalUntil_settled {a : Sentence} (h : ¬ Passes v stop a)
    (pre rest rest' : List Sentence) :
    evalUntil v stop (pre ++ a :: rest) = evalUntil v stop (pre ++ a :: rest') := by
  rw [evalUntil_append, evalUntil_append, evalUntil_cons_of_not_passes h,
    evalUntil_cons_of_not_passes h]

theorem evalUntil_of_passes {args : List Sentence} (h : ∀ a ∈ args, Passes v stop a) :
    (evalUntil v stop args).outcome = .ok !stop := by
  induction args with
  | nil =>
    rw [evalUntil_nil]
    rfl
  | cons a args ih =>
    rw [evalUntil_cons_of_passes (h a List.mem_cons_self)]
    exact ih fun c hc => h c (List.mem_cons_of_mem a hc)

/-- A member that settles the list, behind members that pass, is its value. -/
theorem evalUntil_of_settled {args : List Sentence} {i : Nat} {a : Sentence}
    (ha : args[i]? = some a) (hpre : ∀ b ∈ args.take i, Passes v stop b)
    (hstop : (eval v a).outcome = .ok stop) : (evalUntil v stop args).outcome = .ok stop := by
  rw [split_at ha, evalUntil_append, Run.bind_of_ok (evalUntil_of_passes hpre),
    if_neg (by simp), evalUntil_cons, Run.bind_of_ok hstop, if_pos rfl]
  rfl

/-- A list fails as its first member that does not pass, if that one fails. -/
theorem evalUntil_eq_error {args : List Sentence} {e : EvalError} :
    (evalUntil v stop args).outcome = .error e ↔
      ∃ i a, args[i]? = some a ∧ (∀ b ∈ args.take i, Passes v stop b) ∧
        (eval v a).outcome = .error e := by
  induction args with
  | nil => simp [evalUntil_nil, Run.pure]
  | cons a args ih =>
    by_cases ha : Passes v stop a
    · rw [evalUntil_cons_of_passes ha, ih]
      refine ⟨fun h => ?_, fun h => ?_⟩
      · obtain ⟨i, c, hc, hpre, he⟩ := h
        exact ⟨i + 1, c, hc, by simpa using ⟨ha, hpre⟩, he⟩
      · obtain ⟨i, c, hc, hpre, he⟩ := h
        cases i with
        | zero =>
          obtain rfl : a = c := by simpa using hc
          rw [Passes, he] at ha
          cases ha
        | succ i => exact ⟨i, c, hc, fun b hb => hpre b (by simp [hb]), he⟩
    · rw [evalUntil_cons_of_not_passes ha]
      refine ⟨fun he => ⟨0, a, rfl, by simp, he⟩, fun h => ?_⟩
      obtain ⟨i, c, hc, hpre, he⟩ := h
      cases i with
      | zero =>
        obtain rfl : a = c := by simpa using hc
        exact he
      | succ i => exact absurd (hpre a (by simp)) ha

/-! ## Evaluation is put together from single steps -/

theorem evalUntil_composes {P : (Valuation → Run Bool) → Prop} (hP : Run.Composes P)
    {args : List Sentence} (h : ∀ a ∈ args, P fun v => eval v a) :
    P fun v => evalUntil v stop args := by
  induction args with
  | nil =>
    simp only [evalUntil_nil]
    exact hP.pure _
  | cons a args ih =>
    simp only [evalUntil_cons]
    apply hP.bind _ (fun b v => if b = stop then .pure stop else evalUntil v stop args)
      (h a (by simp))
    intro b
    by_cases hb : b = stop
    · simp only [if_pos hb]
      exact hP.pure _
    · simp only [if_neg hb]
      exact ih fun c hc => h c (by simp [hc])

theorem eval_composes {P : (Valuation → Run Bool) → Prop} (hP : Run.Composes P) (s : Sentence) :
    P fun v => eval v s := by
  induction s with
  | atom name =>
    simp only [eval_atom]
    exact hP.ask name
  | compound op args ih =>
    rcases op.neg_or_junction with rfl | ⟨stop, hop⟩
    · by_cases hl : args.length = 1
      · obtain ⟨arg, rfl⟩ := List.length_eq_one_iff.mp hl
        simp only [eval_neg]
        exact hP.bind _ (fun b _ => .pure !b) (ih arg (by simp)) fun b => hP.pure _
      · simp only [eval_neg_of_length hl]
        exact hP.arity _
    · simp only [eval_junction hop]
      exact evalUntil_composes hP ih

/-! ## Evaluation sees an argument only through its run -/

theorem eval_compound_congr {c d : Sentence} (h : eval v c = eval v d) (op : Connective)
    (pre post : List Sentence) :
    eval v (.compound op (pre ++ c :: post)) = eval v (.compound op (pre ++ d :: post)) := by
  rcases op.neg_or_junction with rfl | ⟨stop, hop⟩
  · by_cases hl : (pre ++ c :: post).length = 1
    · obtain ⟨rfl, rfl⟩ : pre = [] ∧ post = [] := by
        simp only [List.length_append, List.length_cons] at hl
        exact ⟨List.length_eq_zero_iff.mp (by omega), List.length_eq_zero_iff.mp (by omega)⟩
      rw [List.nil_append, List.nil_append, eval_neg, eval_neg, h]
    · have hl' : (pre ++ d :: post).length ≠ 1 := by simpa using hl
      rw [eval_neg_of_length hl, eval_neg_of_length hl']
      simp
  · rw [eval_junction hop, eval_junction hop, evalUntil_append, evalUntil_append,
      evalUntil_cons, evalUntil_cons, h]

/-- A part of a sentence, at any depth, may be exchanged for one with the same run. -/
theorem eval_replaceAt_congr {a b : Sentence} (h : eval v a = eval v b) {s : Sentence}
    {p : List Nat} (ha : s.at? p = some a) : eval v (s.replaceAt p b) = eval v s := by
  induction p generalizing s with
  | nil =>
    obtain rfl : s = a := by simpa using ha
    rw [replaceAt_nil, h]
  | cons i p ih =>
    obtain ⟨c, hc, hca⟩ := at?_cons_eq_some.mp ha
    cases s with
    | atom name => simp [child?, children] at hc
    | compound op args =>
      rw [child?_compound] at hc
      rw [replaceAt_child hc, eval_compound_congr (ih hca), ← split_at hc]

/-! ## Two laws of sentences over the same parts -/

/-- The negated disjunction adds nothing to the negated conjunction of the same
    two, not even a fault: it is entered only where both are true. -/
theorem eval_neg_conj_or_neg_disj (a b : Sentence) :
    (eval v (~~~(a &&& b) ||| ~~~(a ||| b))).outcome = (eval v (~~~(a &&& b))).outcome := by
  have hconj : eval v (.compound .conj [a, b]) = evalUntil v false [a, b] := eval_junction rfl _
  have hdisj (args : List Sentence) : eval v (.compound .disj args) = evalUntil v true args :=
    eval_junction rfl args
  simp only [complement_eq, and_eq, or_eq, hdisj, hconj, eval_neg, evalUntil_cons, evalUntil_nil,
    Run.bind]
  cases (eval v a).outcome with
  | error e => simp
  | ok x =>
    cases (eval v b).outcome with
    | error e => cases x <;> simp [Run.pure]
    | ok y => cases x <;> cases y <;> simp [Run.pure]

end Sentence

end Sentential
