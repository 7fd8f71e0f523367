import Mathlib.Data.List.Forall2
import Sentential.Evaluation.Report
import Sentential.Proofs.EvalLaws

/- The machine with its own stack does what the recursion does. `Leads v base`
   joins two states by steps that complete nothing and that leave the frames
   `base` where they are. `Ends v base node s r` says how such steps end: at
   `node`, with nothing but `base` on the stack, about to finish with the value
   of `r`, or at some node about to fail with its fault, and having asked what
   `r` asked. Ends are put together as runs are (`Ends.bind`: a finished
   argument hands its value to the frame above `base`), so a sentence just
   entered, on any stack and after any questions, ends with its run
   (`ends_eval`), by induction over the sentence and, inside a junction, over
   the arguments still to enter. -/
namespace Sentential
namespace Machine
variable {v : Valuation}

/-! ## One step, by what the current node does -/

theorem step_enter {s : State} {arg : Sentence} {next : Nat}
    (h : s.current.move v s.result = .enter arg next) :
    step v s = .running ⟨⟨s.current.node, next⟩ :: s.stack, ⟨arg, 0⟩, none,
      s.current.questions ++ s.asked⟩ := by
  simp only [step, h]

theorem step_finish {s : State} {b : Bool} {f : Frame} {base : List Frame}
    (h : s.current.move v s.result = .finish b) (hs : s.stack = f :: base) :
    step v s = .running ⟨base, f, some b, s.current.questions ++ s.asked⟩ := by
  simp only [step, h, hs]

theorem step_finish_root {s : State} {b : Bool} (h : s.current.move v s.result = .finish b)
    (hs : s.stack = []) :
    step v s = .done ⟨(s.current.questions ++ s.asked).reverse, .ok b⟩ := by
  simp only [step, h, hs]

theorem step_fail {s : State} {e : EvalError} (h : s.current.move v s.result = .fail e) :
    step v s = .done ⟨(s.current.questions ++ s.asked).reverse, .error e⟩ := by
  simp only [step, h]

theorem run_of_running {s t : State} (h : step v s = .running t) : run v s = run v t := by
  rw [run]
  split
  · next u hu =>
    rw [h] at hu
    cases hu
    rfl
  · next r hr =>
    rw [h] at hr
    cases hr

theorem run_of_done {s : State} {r : Run Bool} (h : step v s = .done r) : run v s = r := by
  rw [run]
  split
  · next u hu =>
    rw [h] at hu
    cases hu
  · next r' hr =>
    rw [h] at hr
    cases hr
    rfl

/-! ## Steps above a stack -/

/-- Steps that complete nothing lead from one state to the other, with the
    frames `base` at the bottom of the stack all the way. -/
inductive Leads (v : Valuation) (base : List Frame) : State → State → Prop
  | refl {s : State} : base <:+ s.stack → Leads v base s s
  | head {s t u : State} : base <:+ s.stack → step v s = .running t → Leads v base t u →
      Leads v base s u

namespace Leads
variable {base base' : List Frame} {s t u : State}

theorem trans (h : Leads v base s t) (h' : Leads v base t u) : Leads v base s u := by
  induction h with
  | refl _ => exact h'
  | head hb hs _ ih => exact .head hb hs (ih h')

theorem mono (hb : base' <:+ base) (h : Leads v base s t) : Leads v base' s t := by
  induction h with
  | refl h => exact .refl (hb.trans h)
  | head h hs _ ih => exact .head (hb.trans h) hs ih

theorem suffix_right (h : Leads v base s t) : base <:+ t.stack := by
  induction h with
  | refl h => exact h
  | head _ _ _ ih => exact ih

theorem run_eq (h : Leads v base s t) : run v s = run v t := by
  induction h with
  | refl _ => rfl
  | head _ hs _ ih => rw [run_of_running hs, ih]

end Leads

/-- The machine goes on from `s` to the end of `node`, which stands on `base`,
    and that end is `r`. -/
def Ends (v : Valuation) (base : List Frame) (node : Sentence) (s : State) (r : Run Bool) : Prop :=
  ∃ t, Leads v base s t ∧ t.current.questions ++ t.asked = r.asked.reverse ++ s.asked ∧
    match r.outcome with
    | .ok b => t.stack = base ∧ t.current.node = node ∧ t.current.move v t.result = .finish b
    | .error e => t.current.move v t.result = .fail e

namespace Ends
variable {base : List Frame} {node : Sentence} {s : State} {r : Run Bool}

theorem pure {b : Bool} (hs : s.stack = base) (hn : s.current.node = node)
    (hq : s.current.questions = []) (h : s.current.move v s.result = .finish b) :
    Ends v base node s (.pure b) :=
  ⟨s, .refl (hs ▸ List.suffix_refl _), by rw [hq]; rfl, hs, hn, h⟩

theorem fail {e : EvalError} (hs : base <:+ s.stack) (hq : s.current.questions = [])
    (h : s.current.move v s.result = .fail e) : Ends v base node s (.fail e) :=
  ⟨s, .refl hs, by rw [hq]; rfl, h⟩

theorem enter {arg : Sentence} {next : Nat} (hs : base <:+ s.stack)
    (hq : s.current.questions = []) (h : s.current.move v s.result = .enter arg next)
    (hr : Ends v base node ⟨⟨s.current.node, next⟩ :: s.stack, ⟨arg, 0⟩, none, s.asked⟩ r) :
    Ends v base node s r := by
  obtain ⟨t, hst, hask, hend⟩ := hr
  have hstep := step_enter h
  rw [hq, List.nil_append] at hstep
  exact ⟨t, .head hs hstep hst, hask, hend⟩

/-- An argument that ends with a value hands it to the frame that waits. -/
theorem bind {f : Frame} {k : Bool → Run Bool} (hr : Ends v (f :: base) node s r)
    (hk : ∀ b, Ends v base f.node ⟨base, f, some b, r.asked.reverse ++ s.asked⟩ (k b)) :
    Ends v base f.node s (r.bind k) := by
  obtain ⟨t, hst, hask, hend⟩ := hr
  have hst' : Leads v base s t := hst.mono (List.suffix_cons f base)
  cases ho : r.outcome with
  | error e =>
    -- the run ends inside the argument, and `f` never gets its turn
    simp only [ho] at hend
    rw [Run.bind_of_error ho]
    exact ⟨t, hst', hask, hend⟩
  | ok b =>
    simp only [ho] at hend
    obtain ⟨hstack, -, hmove⟩ := hend
    have hstep := step_finish hmove hstack
    rw [hask] at hstep
    obtain ⟨u, htu, hasku, hendu⟩ := hk b
    rw [Run.bind_of_ok ho]
    refine ⟨u, hst'.trans (.head hst'.suffix_right hstep htu), ?_, hendu⟩
    rw [hasku, List.reverse_append, List.append_assoc]

end Ends

/-! ## Every node ends with its run -/

theorem move_junction {op : Connective} {stop : Bool} (h : op.stop? = some stop)
    (args : List Sentence) (next : Nat) (result : Option Bool) :
    Frame.move v result ⟨.compound op args, next⟩ = junction stop args next result := by
  cases op <;> cases h <;> rfl

theorem move_junction_settled {op : Connective} {stop : Bool} (h : op.stop? = some stop)
    (args : List Sentence) (next : Nat) :
    Frame.move v (some stop) ⟨.compound op args, next⟩ = .finish stop := by
  rw [move_junction h, junction, if_pos rfl]

theorem move_junction_nil {op : Connective} {stop : Bool} (h : op.stop? = some stop)
    {args : List Sentence} {next : Nat} {result : Option Bool} (hrest : args.drop next = [])
    (hres : result ≠ some stop) :
    Frame.move v result ⟨.compound op args, next⟩ = .finish !stop := by
  have hlen : args.length ≤ next := List.drop_eq_nil_iff.mp hrest
  rw [move_junction h, junction, if_neg hres, List.getElem?_eq_none hlen]

theorem move_junction_cons {op : Connective} {stop : Bool} (h : op.stop? = some stop)
    {args : List Sentence} {next : Nat} {result : Option Bool} {a : Sentence}
    {rest : List Sentence} (hrest : args.drop next = a :: rest) (hres : result ≠ some stop) :
    Frame.move v result ⟨.compound op args, next⟩ = .enter a (next + 1) := by
  have ha : args[next]? = some a := by
    rw [← List.head?_drop, hrest, List.head?_cons]
  rw [move_junction h, junction, if_neg hres, ha]

/-- A junction whose slot does not settle it ends with what reading the arguments
    still to enter gives. -/
theorem ends_junction {op : Connective} {stop : Bool} (hop : op.stop? = some stop)
    {args : List Sentence} {base : List Frame}
    (ih : ∀ a ∈ args, ∀ base asked, Ends v base a ⟨base, ⟨a, 0⟩, none, asked⟩ (a.eval v)) :
    ∀ (rest : List Sentence) (next : Nat) (result : Option Bool) (asked : List String),
      args.drop next = rest → result ≠ some stop →
      Ends v base (.compound op args) ⟨base, ⟨.compound op args, next⟩, result, asked⟩
        (Sentence.evalUntil v stop rest) := by
  intro rest
  -- the slot is free in the claim: empty at first, an argument that passed later
  induction rest with
  | nil =>
    intro next result asked hrest hres
    rw [Sentence.evalUntil_nil]
    exact Ends.pure rfl rfl rfl (move_junction_nil hop hrest hres)
  | cons a rest ihrest =>
    intro next result asked hrest hres
    have hmem : a ∈ args := List.mem_of_mem_drop (hrest ▸ List.mem_cons_self)
    have htail : args.drop (next + 1) = rest := by
      rw [← List.tail_drop, hrest, List.tail_cons]
    rw [Sentence.evalUntil_cons]
    refine Ends.enter (List.suffix_refl _) rfl (move_junction_cons hop hrest hres)
      (Ends.bind (ih a hmem _ asked) fun b => ?_)
    by_cases hb : b = stop
    · -- the argument settles the junction, and the slot says so
      rw [if_pos hb, hb]
      exact Ends.pure rfl rfl rfl (move_junction_settled hop args (next + 1))
    · rw [if_neg hb]
      exact ihrest (next + 1) (some b) _ htail (by simp [hb])

theorem ends_atom (name : String) (base : List Frame) (asked : List String) :
    Ends v base (.atom name) ⟨base, ⟨.atom name, 0⟩, none, asked⟩
      (Sentence.eval v (.atom name)) := by
  refine ⟨_, .refl (List.suffix_refl _), ?_⟩
  rw [Sentence.eval_atom, Run.ask]
  cases hv : v name <;> simp [Frame.questions, Frame.move, Sentence.name?, hv]

theorem ends_neg {args : List Sentence} {base : List Frame} {asked : List String}
    (ih : ∀ a ∈ args, ∀ base asked, Ends v base a ⟨base, ⟨a, 0⟩, none, asked⟩ (a.eval v)) :
    Ends v base (.compound .neg args) ⟨base, ⟨.compound .neg args, 0⟩, none, asked⟩
      (Sentence.eval v (.compound .neg args)) := by
  by_cases hl : args.length = 1
  · obtain ⟨arg, rfl⟩ := List.length_eq_one_iff.mp hl
    rw [Sentence.eval_neg]
    refine Ends.enter (List.suffix_refl _) rfl rfl ?_
    exact Ends.bind (ih arg (by simp) _ asked) fun b => Ends.pure rfl rfl rfl rfl
  · rw [Sentence.eval_neg_of_length hl]
    refine Ends.fail (List.suffix_refl _) rfl ?_
    match args, hl with
    | [], _ => rfl
    | _ :: _ :: _, _ => rfl

/-- A sentence just entered ends with its run, whatever waits on the stack and
    whatever has been asked before. -/
theorem ends_eval (s : Sentence) (base : List Frame) (asked : List String) :
    Ends v base s ⟨base, ⟨s, 0⟩, none, asked⟩ (s.eval v) := by
  induction s generalizing base asked with
  | atom name => exact ends_atom name base asked
  | compound op args ih =>
    rcases op.neg_or_junction with rfl | ⟨stop, hop⟩
    · exact ends_neg ih
    · rw [Sentence.eval_junction hop]
      exact ends_junction hop ih args 0 none asked List.drop_zero (by simp)

end Machine

theorem Sentence.evalByStack_eq_eval (v : Valuation) (s : Sentence) :
    s.evalByStack v = s.eval v := by
  obtain ⟨t, hst, hask, hend⟩ := Machine.ends_eval (v := v) s [] []
  have hrun : s.evalByStack v = Machine.run v t := hst.run_eq
  rw [hrun]
  generalize s.eval v = r at hask hend
  obtain ⟨asked, outcome⟩ := r
  rw [List.append_nil] at hask
  cases outcome with
  | ok b =>
    obtain ⟨hstack, -, hmove⟩ := hend
    rw [Machine.run_of_done (Machine.step_finish_root hmove hstack), hask, List.reverse_reverse]
  | error e =>
    rw [Machine.run_of_done (Machine.step_fail hend), hask, List.reverse_reverse]

/-- Every method gives the run by recursion. -/
theorem Method.run_eq_eval (m : Method) (v : Valuation) (s : Sentence) :
    m.run v s = s.eval v := by
  cases m with
  | recursive => rfl
  | byStack => exact s.evalByStack_eq_eval v

/-! ## The reports of the two methods -/

/-- Two records that say the same of two methods: they differ in the name at
    the front of the text and in nothing else. -/
def LogRecord.SameBesides (m m' : Method) (r r' : LogRecord) : Prop :=
  r.level = r'.level ∧ ∃ text, r.text = m.label ++ text ∧ r'.text = m'.label ++ text

theorem LogRecord.opening_same (m m' : Method) (s : Sentence) :
    SameBesides m m' (opening m s) (opening m' s) :=
  ⟨rfl, "(root=" ++ s.kind.label ++ ")", by simp [opening, toString, String.append_assoc],
    by simp [opening, toString, String.append_assoc]⟩

theorem LogRecord.failure_same (m m' : Method) (e : EvalError) :
    SameBesides m m' (failure m e) (failure m' e) :=
  ⟨rfl, " failed: " ++ e.message, by simp [failure, toString, String.append_assoc],
    by simp [failure, toString, String.append_assoc]⟩

theorem report_log_of_ok {m : Method} {v : Valuation} {s : Sentence} {b : Bool}
    (h : (s.eval v).outcome = .ok b) : (s.report m v).log = [LogRecord.opening m s] := by
  simp only [Sentence.report, Method.run_eq_eval, h]

theorem report_log_of_error {m : Method} {v : Valuation} {s : Sentence} {e : EvalError}
    (h : (s.eval v).outcome = .error e) :
    (s.report m v).log = [LogRecord.opening m s, LogRecord.failure m e] := by
  simp only [Sentence.report, Method.run_eq_eval, h]

/-- The two methods have the same outcome and ask the same questions in the same
    order, and their logs are the same besides the method's name: a trace of the
    root and, exactly when there is a fault, a debug record with the fault in
    words. -/
theorem report_same_by_both_methods (v : Valuation) (s : Sentence) :
    (s.report .byStack v).run.outcome = (s.report .recursive v).run.outcome ∧
    (s.report .byStack v).run.asked = (s.report .recursive v).run.asked ∧
    List.Forall₂ (LogRecord.SameBesides .byStack .recursive)
      (s.report .byStack v).log (s.report .recursive v).log ∧
    ∀ m, (s.report m v).log =
      ⟨.trace, m.label ++ "(root=" ++ s.kind.label ++ ")"⟩ ::
        match (s.report m v).run.outcome with
        | .ok _ => []
        | .error e => [⟨.debug, m.label ++ " failed: " ++ e.message⟩] := by
  have hrun (m : Method) : (s.report m v).run = s.eval v := m.run_eq_eval v s
  simp only [hrun]
  refine ⟨trivial, trivial, ?_⟩
  cases ho : (s.eval v).outcome with
  | ok b =>
    simp only [report_log_of_ok ho]
    exact ⟨.cons (LogRecord.opening_same _ _ s) .nil, fun m => rfl⟩
  | error e =>
    simp only [report_log_of_error ho]
    exact ⟨.cons (LogRecord.opening_same _ _ s) (.cons (LogRecord.failure_same _ _ e) .nil),
      fun m => rfl⟩

end Sentential
