import Sentential.Proofs.AskingOrder

/- How many steps the machine takes and how many frames it keeps. That a run ends
   within `2 * size - 1` steps is told by the work that is left, of which each step
   takes some (`exists_completes`). A run that ends with a value takes two steps for
   each live node but the root, one into it and one out of it, and one to finish the
   root: `Finishes` counts the steps up to the one that finishes a node, and is
   put together by `Finishes.through` as a junction goes from argument to argument.
   The frames on the stack are the nodes on the way to the current one (`Trail`), each
   waiting for the next, which one step keeps (`trail_step`), so that there are fewer
   of them than levels of the sentence. -/
namespace Sentential
namespace Machine
variable {v : Valuation}

/-! ## Counting steps -/

/-- Where the machine is after this many steps; complete, it stays so. -/
def after (v : Valuation) : Nat → State → Progress
  | 0, s => .running s
  | n + 1, s =>
    match step v s with
    | .running t => after v n t
    | .done r => .done r

theorem after_zero (s : State) : after v 0 s = .running s := rfl

theorem after_succ_of_running {s t : State} (h : step v s = .running t) (n : Nat) :
    after v (n + 1) s = after v n t := by
  rw [after, h]

theorem after_succ_of_done {s : State} {r : Run Bool} (h : step v s = .done r) (n : Nat) :
    after v (n + 1) s = .done r := by
  rw [after, h]

/-- Running after a further step, the machine runs after the first. -/
theorem exists_step_of_after {s t : State} {n : Nat} (h : after v (n + 1) s = .running t) :
    ∃ u, step v s = .running u ∧ after v n u = .running t := by
  cases hs : step v s with
  | running u =>
    rw [after_succ_of_running hs] at h
    exact ⟨u, rfl, h⟩
  | done r =>
    rw [after_succ_of_done hs] at h
    cases h

theorem after_add {s t : State} {m : Nat} (h : after v m s = .running t) (n : Nat) :
    after v (m + n) s = after v n t := by
  induction m generalizing s with
  | zero =>
    cases h
    rw [Nat.zero_add]
  | succ m ih =>
    obtain ⟨u, hs, hu⟩ := exists_step_of_after h
    rw [Nat.add_right_comm, after_succ_of_running hs, ih hu]

/-- What a step keeps holds at all times. -/
theorem after_keeps {P : State → Prop} (hP : ∀ {s t}, P s → step v s = .running t → P t)
    {s t : State} {n : Nat} (hs : P s) (h : after v n s = .running t) : P t := by
  induction n generalizing s with
  | zero =>
    cases h
    exact hs
  | succ n ih =>
    obtain ⟨u, hstep, hu⟩ := exists_step_of_after h
    exact ih (hP hs hstep) hu

/-- The machine completes its run with its `n`-th step, and the run is `r`. -/
structure Completes (v : Valuation) (n : Nat) (s : State) (r : Run Bool) : Prop where
  running : ∀ k < n, ∃ t, after v k s = .running t
  done : after v n s = .done r

namespace Completes
variable {s t : State} {n : Nat} {r : Run Bool}

theorem last (h : step v s = .done r) : Completes v 1 s r := by
  refine ⟨fun k hk => ?_, after_succ_of_done h 0⟩
  obtain rfl : k = 0 := by omega
  exact ⟨s, after_zero s⟩

theorem head (h : step v s = .running t) (ht : Completes v n t r) : Completes v (n + 1) s r := by
  refine ⟨fun k hk => ?_, by rw [after_succ_of_running h, ht.done]⟩
  cases k with
  | zero => exact ⟨s, after_zero s⟩
  | succ k =>
    rw [after_succ_of_running h]
    exact ht.running k (by omega)

/-- Steps that complete nothing may come before. -/
theorem behind {m : Nat} (h : after v m s = .running t) (ht : Completes v n t r) :
    Completes v (m + n) s r := by
  induction m generalizing s with
  | zero =>
    cases h
    rw [Nat.zero_add]
    exact ht
  | succ m ih =>
    obtain ⟨u, hs, hu⟩ := exists_step_of_after h
    rw [Nat.add_right_comm]
    exact head hs (ih hu)

theorem le {n' : Nat} {r' : Run Bool} (h : Completes v n s r) (h' : Completes v n' s r') :
    n ≤ n' := by
  by_contra hlt
  obtain ⟨t, ht⟩ := h.running n' (by omega)
  rw [h'.done] at ht
  cases ht

end Completes

/-- Every run is completed, and takes no more steps than there is work. -/
theorem exists_completes (v : Valuation) (s : State) : ∃ n ≤ s.work, Completes v n s (run v s) := by
  induction s using run.induct v with
  | case1 s t h ih =>
    obtain ⟨n, hn, ht⟩ := ih
    have hwork := work_lt_of_step h
    rw [run_of_running h]
    exact ⟨n + 1, by omega, .head h ht⟩
  | case2 s r h =>
    have hpos := s.current.workNow_pos s.result
    rw [run_of_done h]
    exact ⟨1, by rw [State.work]; omega, .last h⟩

/-! ## A run with a value -/

/-- After `n` steps the machine is about to finish, with the value `b`, a node that
    stands on `base`. -/
def Finishes (v : Valuation) (base : List Frame) (n : Nat) (s : State) (b : Bool) : Prop :=
  ∃ t, after v n s = .running t ∧ t.stack = base ∧ t.current.move v t.result = .finish b

theorem Finishes.now {base : List Frame} {s : State} {b : Bool} (hs : s.stack = base)
    (h : s.current.move v s.result = .finish b) : Finishes v base 0 s b :=
  ⟨s, after_zero s, hs, h⟩

/-- One step into an argument and one out of it, beside those for the argument and
    those behind it. -/
theorem Finishes.through {base : List Frame} {s : State} {arg : Sentence} {next n k total : Nat}
    {b c : Bool} (hs : s.stack = base) (h : s.current.move v s.result = .enter arg next)
    (harg : ∀ asked, Finishes v (⟨s.current.node, next⟩ :: base) n
      ⟨⟨s.current.node, next⟩ :: base, ⟨arg, 0⟩, none, asked⟩ c)
    (hrest : ∀ asked, Finishes v base k ⟨base, ⟨s.current.node, next⟩, some c, asked⟩ b)
    (htotal : total = n + (k + 1) + 1) : Finishes v base total s b := by
  obtain ⟨t, ht, hstack, hmove⟩ := harg (s.current.questions ++ s.asked)
  obtain ⟨u, hu, hend⟩ := hrest (t.current.questions ++ t.asked)
  have hin := step_enter h
  have hout := step_finish hmove hstack
  rw [hs] at hin
  refine ⟨u, ?_, hend⟩
  calc after v total s = after v (n + (k + 1) + 1) s := by rw [htotal]
    _ = after v (n + (k + 1)) _ := after_succ_of_running hin _
    _ = after v (k + 1) t := after_add ht _
    _ = after v k _ := after_succ_of_running hout k
    _ = .running u := hu

open Sentence in
/-- A junction whose slot does not settle it takes two steps for each live node of
    the arguments still to enter. -/
theorem finishes_junction {op : Connective} {stop : Bool} (hop : op.stop? = some stop)
    {args : List Sentence} {base : List Frame} {b : Bool}
    (ih : ∀ a ∈ args, ∀ base asked c, (a.eval v).outcome = .ok c →
      Finishes v base (2 * ((a.liveNodes v).length - 1)) ⟨base, ⟨a, 0⟩, none, asked⟩ c) :
    ∀ (rest : List Sentence) (next : Nat) (result : Option Bool) (asked : List String),
      args.drop next = rest → result ≠ some stop → (evalUntil v stop rest).outcome = .ok b →
      Finishes v base (2 * ((entered v stop rest).flatMap (liveNodes v)).length)
        ⟨base, ⟨.compound op args, next⟩, result, asked⟩ b := by
  intro rest
  induction rest with
  | nil =>
    intro next result asked hrest hres hb
    rw [evalUntil_nil] at hb
    cases hb
    exact Finishes.now rfl (move_junction_nil hop hrest hres)
  | cons a rest ihrest =>
    intro next result asked hrest hres hb
    have hmem : a ∈ args := List.mem_of_mem_drop (hrest ▸ List.mem_cons_self)
    have htail : args.drop (next + 1) = rest := by
      rw [← List.tail_drop, hrest, List.tail_cons]
    have hpos := a.length_liveNodes_pos v
    by_cases ha : Passes v stop a
    · rw [evalUntil_cons_of_passes ha] at hb
      rw [entered_of_passes ha, List.flatMap_cons, List.length_append]
      refine Finishes.through rfl (move_junction_cons hop hrest hres)
        (fun asked => ih a hmem _ asked _ ha)
        (fun asked => ihrest (next + 1) (some !stop) asked htail (by simp) hb) ?_
      omega
    · rw [evalUntil_cons_of_not_passes ha] at hb
      obtain rfl : b = stop := eq_stop_of_not_passes ha hb
      rw [entered_of_not_passes ha, List.flatMap_singleton]
      refine Finishes.through rfl (move_junction_cons hop hrest hres)
        (fun asked => ih a hmem _ asked _ hb)
        (fun asked => Finishes.now rfl (move_junction_settled hop args (next + 1))) ?_
      omega

open Sentence in
/-- A node with a value takes two steps for each live node below it, and is then
    about to finish with that value. -/
theorem finishes_eval {s : Sentence} {b : Bool} (base : List Frame) (asked : List String)
    (hb : (s.eval v).outcome = .ok b) :
    Finishes v base (2 * ((s.liveNodes v).length - 1)) ⟨base, ⟨s, 0⟩, none, asked⟩ b := by
  induction s generalizing base asked b with
  | atom name =>
    rw [eval_atom, Run.ask_eq_ok] at hb
    rw [liveNodes_atom]
    refine Finishes.now rfl ?_
    show Frame.move v none _ = _
    simp only [Frame.move, hb]
  | compound op args ih =>
    rcases op.neg_or_junction with rfl | ⟨stop, hop⟩
    · by_cases hl : args.length = 1
      · obtain ⟨arg, rfl⟩ := List.length_eq_one_iff.mp hl
        rw [eval_neg] at hb
        obtain ⟨c, hc, hnot⟩ := Run.bind_eq_ok.mp hb
        cases hnot
        have hpos := arg.length_liveNodes_pos v
        rw [liveNodes_neg, List.length_cons]
        refine Finishes.through rfl rfl (fun asked => ih arg (by simp) _ asked hc)
          (fun asked => Finishes.now rfl rfl) ?_
        omega
      · rw [eval_neg_of_length hl] at hb
        cases hb
    · rw [eval_junction hop] at hb
      rw [liveNodes_compound, flatMap_enters hop, List.length_cons, Nat.add_sub_cancel]
      exact finishes_junction hop (fun a ha base asked c hc => ih a ha base asked hc)
        args 0 none asked List.drop_zero (by simp) hb

/-- A run with a value takes two steps for each live node, less one. -/
theorem completes_of_ok {s : Sentence} {b : Bool} {n : Nat} {r : Run Bool}
    (hb : (s.eval v).outcome = .ok b) (h : Completes v n (start s) r) :
    n + 1 = 2 * (s.liveNodes v).length := by
  have hpos := s.length_liveNodes_pos v
  obtain ⟨t, ht, hstack, hmove⟩ := finishes_eval [] [] hb
  have hexact := Completes.behind ht (.last (step_finish_root hmove hstack))
  have hle := h.le hexact
  have hge := hexact.le h
  omega

/-! ## The frames on the stack -/

/-- The frame waits for this argument of its node, the one it entered last. -/
def Frame.Awaits (f : Frame) (arg : Sentence) : Prop :=
  match f.node with
  | .atom _ => False
  | .compound .neg args => args = [arg]
  | .compound _ args => 0 < f.next ∧ args[f.next - 1]? = some arg

/-- The frames lead from the root to the node, innermost first: each waits for the
    node of the next one, and the innermost for the node itself. -/
inductive Trail (root : Sentence) : List Frame → Sentence → Prop
  | root : Trail root [] root
  | enter {stack : List Frame} {f : Frame} {arg : Sentence} :
      Trail root stack f.node → f.Awaits arg → Trail root (f :: stack) arg

/-- A step that completes nothing enters an argument, or finishes a node on which
    a frame waits. -/
theorem step_cases {s t : State} (h : step v s = .running t) :
    (∃ arg next, s.current.move v s.result = .enter arg next ∧
      t = ⟨⟨s.current.node, next⟩ :: s.stack, ⟨arg, 0⟩, none, s.current.questions ++ s.asked⟩) ∨
    ∃ b f stack, s.current.move v s.result = .finish b ∧ s.stack = f :: stack ∧
      t = ⟨stack, f, some b, s.current.questions ++ s.asked⟩ := by
  cases hm : s.current.move v s.result with
  | enter arg next =>
    rw [step_enter hm] at h
    cases h
    exact .inl ⟨arg, next, rfl, rfl⟩
  | fail e =>
    rw [step_fail hm] at h
    cases h
  | finish b =>
    cases hs : s.stack with
    | nil =>
      rw [step_finish_root hm hs] at h
      cases h
    | cons f stack =>
      rw [step_finish hm hs] at h
      cases h
      exact .inr ⟨b, f, stack, rfl, rfl, rfl⟩

theorem awaits_of_enter {result : Option Bool} {f : Frame} {arg : Sentence} {next : Nat}
    (h : f.move v result = .enter arg next) : Frame.Awaits ⟨f.node, next⟩ arg := by
  obtain ⟨node, i⟩ := f
  match node with
  | .atom name =>
    simp only [Frame.move] at h
    split at h <;> cases h
  | .compound .neg args =>
    simp only [Frame.move] at h
    split at h <;> cases h
    rfl
  | .compound .conj args =>
    obtain ⟨ha, rfl⟩ := junction_enter h
    exact ⟨Nat.succ_pos i, ha⟩
  | .compound .disj args =>
    obtain ⟨ha, rfl⟩ := junction_enter h
    exact ⟨Nat.succ_pos i, ha⟩

theorem trail_step {root : Sentence} {s t : State} (hs : Trail root s.stack s.current.node)
    (h : step v s = .running t) : Trail root t.stack t.current.node := by
  rcases step_cases h with ⟨arg, next, hm, rfl⟩ | ⟨b, f, stack, -, hstack, rfl⟩
  · exact .enter hs (awaits_of_enter hm)
  · rw [hstack] at hs
    cases hs with
    | enter hf _ => exact hf

theorem Frame.Awaits.mem_children {f : Frame} {arg : Sentence} (h : f.Awaits arg) :
    arg ∈ f.node.children := by
  obtain ⟨node, next⟩ := f
  match node with
  | .atom name => cases h
  | .compound .neg args =>
    obtain rfl : args = [arg] := h
    exact List.mem_singleton.mpr rfl
  | .compound .conj args | .compound .disj args => exact List.mem_of_getElem? h.2

/-- A node has no more levels than its frames leave of the root. -/
theorem Trail.length_add_depth_le {root node : Sentence} {stack : List Frame}
    (h : Trail root stack node) : stack.length + node.depth ≤ root.depth := by
  induction h with
  | root => exact Nat.le_of_eq (Nat.zero_add _)
  | @enter stack f arg _ hawaits ih =>
    have hle := Sentence.depth_le_depths hawaits.mem_children
    have hdepth := f.node.depth_eq
    rw [List.length_cons]
    omega

end Machine

open Sentence Machine in
/-- The machine completes the run of every sentence, after at most `2 * size - 1`
    steps; if the run ends with a value, after exactly `2 * l - 1`, where `l` is the
    number of live positions. At no time are there more than `depth - 1` frames on
    the stack. -/
theorem machine_run_is_bounded (v : Valuation) (s : Sentence) :
    ∃ n ps, Completes v n (start s) (s.evalByStack v) ∧ n ≤ 2 * s.size - 1 ∧
      InOrder (Live v s) ps ∧
      (∀ b, (s.evalByStack v).outcome = .ok b → n = 2 * ps.length - 1) ∧
      ∀ k t, after v k (start s) = .running t → t.stack.length ≤ s.depth - 1 := by
  obtain ⟨n, hn, hcompletes⟩ := exists_completes v (start s)
  have hwork : (start s).work + 1 = 2 * s.size := Frame.workNow_fresh s
  refine ⟨n, _, hcompletes, by omega, inOrder_live v s, fun b hb => ?_, fun k t ht => ?_⟩
  · rw [s.evalByStack_eq_eval] at hb
    have hsteps := completes_of_ok hb hcompletes
    rw [← length_liveNodes]
    omega
  · have htrail : Trail s t.stack t.current.node :=
      after_keeps (P := fun t => Trail s t.stack t.current.node) trail_step .root ht
    have hle := htrail.length_add_depth_le
    have hpos := t.current.node.depth_pos
    omega

open Sentence Machine in
/-- The conjunction is false and the negation true, so the name behind them is not
    live and takes no step. -/
theorem machine_run_is_bounded_in_a_disjunction :
    let s : Sentence := .disj [.conj [.atom "a", .atom "b"], .neg (.atom "b"), .atom "x"]
    (s.evalByStack .aNotB).outcome = .ok true ∧
    (∃ (n : Nat) (ps : List (List Nat)), Completes .aNotB n (start s) (s.evalByStack .aNotB) ∧
      n ≤ 13 ∧ n = 2 * ps.length - 1 ∧ [1, 0] ∈ ps ∧ [2] ∉ ps) ∧
    ∃ t, after .aNotB 2 (start s) = .running t ∧ t.stack.length ≤ 2 := by
  intro s
  have hb : (s.evalByStack .aNotB).outcome = .ok true := by
    rw [s.evalByStack_eq_eval]
    decide
  obtain ⟨n, ps, hcompletes, hn, horder, hexact, hstack⟩ := machine_run_is_bounded .aNotB s
  refine ⟨hb, ⟨n, ps, hcompletes, hn, hexact true hb, ?_, ?_⟩, _, rfl, hstack 2 _ rfl⟩
  · rw [horder.mem_iff]
    decide
  · rw [horder.mem_iff]
    decide

end Sentential
