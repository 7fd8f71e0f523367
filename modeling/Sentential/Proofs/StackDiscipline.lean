import Sentential.Proofs.MachineSteps

/- What is on the stack and in the slot while the machine runs. Each waiting frame has
   entered the argument that the next frame stands at, behind arguments that let it
   pass, so the stack spells a live position (`Trail.live`). The slot is empty just
   when the current node has been entered, and else it holds the value of the
   argument that the node was left for (`Reachable.slot`). One step keeps this
   (`kept_step`): what a node enters next and what it finishes with follow from its
   frame and the slot (`enters_of_enter`, `eval_of_finish`), because the slot tells of
   the argument entered last and the frame of the ones before it. -/
namespace Sentential
namespace Machine
variable {v : Valuation} {root : Sentence}

open Sentence

/-! ## What the slot of a frame tells -/

/-- The frame was left for this argument, and evaluation of its node goes on to it. -/
structure Frame.LeftFor (v : Valuation) (f : Frame) (arg : Sentence) : Prop where
  awaits : f.Awaits arg
  enters : Enters v f.node (f.next - 1)

/-- The slot suits the frame: it is empty before the first argument is entered, and
    holds the value of the argument that the frame was left for. -/
def Frame.Suits (v : Valuation) (f : Frame) : Option Bool → Prop
  | none => f.next = 0
  | some b => ∃ arg, f.LeftFor v arg ∧ (arg.eval v).outcome = .ok b

theorem awaits_junction {op : Connective} {stop : Bool} (h : op.stop? = some stop)
    {args : List Sentence} {next : Nat} {arg : Sentence} :
    Frame.Awaits ⟨.compound op args, next⟩ arg ↔ 0 < next ∧ args[next - 1]? = some arg := by
  cases op <;> cases h <;> rfl

theorem Frame.LeftFor.child? {f : Frame} {arg : Sentence} (h : f.LeftFor v arg) :
    f.node.child? (f.next - 1) = some arg := by
  obtain ⟨node, next⟩ := f
  obtain ⟨hawaits, henters⟩ := h
  match node with
  | .atom name => cases hawaits
  | .compound .neg args =>
    obtain rfl : args = [arg] := hawaits
    obtain ⟨-, hnext⟩ := henters
    rw [hnext]
    rfl
  | .compound .conj args | .compound .disj args => exact hawaits.2

theorem Frame.Suits.next_le {f : Frame} {result : Option Bool} (h : f.Suits v result) :
    f.next ≤ f.node.children.length := by
  cases result with
  | none =>
    obtain hnext : f.next = 0 := h
    omega
  | some b =>
    obtain ⟨arg, hleft, -⟩ := h
    have hlt := hleft.enters.lt_length
    omega

/-- Unless the slot settles the junction, the arguments entered so far have passed. -/
theorem passes_of_suits {op : Connective} {stop : Bool} (hop : op.stop? = some stop)
    {args : List Sentence} {next : Nat} {result : Option Bool}
    (h : Frame.Suits v ⟨.compound op args, next⟩ result) (hres : result ≠ some stop) :
    ∀ a ∈ args.take next, Passes v stop a := by
  cases result with
  | none =>
    obtain rfl : next = 0 := h
    simp
  | some b =>
    obtain ⟨arg, ⟨hawaits, henters⟩, hb⟩ := h
    obtain ⟨hpos, harg⟩ := (awaits_junction hop).mp hawaits
    obtain ⟨-, hbefore⟩ := (enters_junction hop).mp henters
    have hpass : Passes v stop arg := by
      have hne : b ≠ stop := fun heq => hres (congrArg some heq)
      rw [Passes, hb, Bool.eq_not_of_ne hne]
    -- the arguments before `next` are those before the last entered, and that one
    obtain ⟨i, rfl⟩ : ∃ i, next = i + 1 := ⟨next - 1, by omega⟩
    rw [Nat.add_sub_cancel] at harg hbefore
    intro a ha
    rw [List.take_add_one, harg] at ha
    rcases List.mem_append.mp ha with ha | ha
    · exact hbefore a ha
    · obtain rfl : a = arg := by simpa using ha
      exact hpass

/-- What a frame enters next is where evaluation of its node goes on. -/
theorem enters_of_enter {f : Frame} {result : Option Bool} {arg : Sentence} {next : Nat}
    (hsuits : f.Suits v result) (h : f.move v result = .enter arg next) :
    Enters v f.node (next - 1) := by
  obtain ⟨node, i⟩ := f
  cases node with
  | atom name =>
    simp only [Frame.move] at h
    split at h <;> cases h
  | compound op args =>
    rcases op.neg_or_junction with rfl | ⟨stop, hop⟩
    · simp only [Frame.move] at h
      split at h <;> cases h
      obtain rfl : next = 0 := hsuits
      exact ⟨rfl, rfl⟩
    · rw [move_junction hop] at h
      obtain ⟨harg, rfl⟩ := junction_enter h
      have hres : result ≠ some stop := by
        rintro rfl
        rw [junction, if_pos rfl] at h
        cases h
      refine (enters_junction hop).mpr ⟨(List.getElem?_eq_some_iff.mp harg).1, ?_⟩
      exact passes_of_suits hop hsuits hres

theorem evalUntil_of_finish {op : Connective} {stop : Bool} (hop : op.stop? = some stop)
    {args : List Sentence} {next : Nat} {result : Option Bool} {b : Bool}
    (hsuits : Frame.Suits v ⟨.compound op args, next⟩ result)
    (h : junction stop args next result = .finish b) :
    (evalUntil v stop args).outcome = .ok b := by
  by_cases hres : result = some stop
  · rw [junction, if_pos hres] at h
    cases h
    subst hres
    obtain ⟨arg, hleft, hstop⟩ := hsuits
    obtain ⟨-, harg⟩ := (awaits_junction hop).mp hleft.awaits
    obtain ⟨-, hbefore⟩ := (enters_junction hop).mp hleft.enters
    exact evalUntil_of_settled harg hbefore hstop
  · rw [junction, if_neg hres] at h
    split at h <;> cases h
    next hnone =>
    have hall : args.take next = args := List.take_of_length_le (List.getElem?_eq_none_iff.mp hnone)
    have hpass := passes_of_suits hop hsuits hres
    rw [hall] at hpass
    exact evalUntil_of_passes hpass

/-- A frame finishes with the value of its node. -/
theorem eval_of_finish {f : Frame} {result : Option Bool} {b : Bool}
    (hsuits : f.Suits v result) (h : f.move v result = .finish b) :
    (f.node.eval v).outcome = .ok b := by
  obtain ⟨node, next⟩ := f
  cases node with
  | atom name =>
    simp only [Frame.move] at h
    split at h <;> cases h
    rw [eval_atom, Run.ask_eq_ok]
    assumption
  | compound op args =>
    rcases op.neg_or_junction with rfl | ⟨stop, hop⟩
    · simp only [Frame.move] at h
      split at h <;> cases h
      next c =>
      obtain ⟨arg, hleft, hc⟩ := hsuits
      obtain rfl : args = [arg] := hleft.awaits
      rw [eval_neg, Run.bind_eq_ok]
      exact ⟨c, hc, rfl⟩
    · rw [move_junction hop] at h
      rw [eval_junction hop]
      exact evalUntil_of_finish hop hsuits h

/-! ## What a step keeps -/

/-- The frames lead from the root to the current node, each was left for an argument
    that evaluation goes on to, and the slot suits the current one. -/
structure Kept (v : Valuation) (root : Sentence) (t : State) : Prop where
  trail : Trail root t.stack t.current.node
  enters : ∀ f ∈ t.stack, Enters v f.node (f.next - 1)
  suits : t.current.Suits v t.result

theorem kept_start (v : Valuation) (root : Sentence) : Kept v root (start root) :=
  ⟨.root, fun _ hf => absurd hf List.not_mem_nil, rfl⟩

/-- The frame that waits on top was left for the node that is finished. -/
theorem Kept.leftFor {s : State} {f : Frame} {stack : List Frame}
    (hs : Kept v root s) (hstack : s.stack = f :: stack) : f.LeftFor v s.current.node := by
  have htrail := hs.trail
  rw [hstack] at htrail
  cases htrail with
  | enter _ hawaits => exact ⟨hawaits, hs.enters f (by rw [hstack]; exact List.mem_cons_self)⟩

theorem kept_step {s t : State} (hs : Kept v root s) (h : step v s = .running t) :
    Kept v root t := by
  have htrail := trail_step hs.trail h
  rcases step_cases h with ⟨arg, next, hmove, rfl⟩ | ⟨b, f, stack, hmove, hstack, rfl⟩
  · refine ⟨htrail, fun g hg => ?_, rfl⟩
    rcases List.mem_cons.mp hg with rfl | hg
    · have henters : Enters v s.current.node (next - 1) := enters_of_enter hs.suits hmove
      exact henters
    · exact hs.enters g hg
  · refine ⟨htrail, fun g hg => ?_, ?_⟩
    · exact hs.enters g (by rw [hstack]; exact List.mem_cons_of_mem f hg)
    · exact ⟨s.current.node, hs.leftFor hstack, eval_of_finish hs.suits hmove⟩

/-! ## Reachable states -/

/-- The run of the root comes by this state. -/
inductive Reachable (v : Valuation) (root : Sentence) : State → Prop
  | start : Reachable v root (start root)
  | step {s t : State} : Reachable v root s → step v s = .running t → Reachable v root t

/-- The run comes to this state by entering its current node. -/
inductive JustEntered (v : Valuation) (root : Sentence) : State → Prop
  | start : JustEntered v root (start root)
  | enter {s t : State} {arg : Sentence} {next : Nat} : Reachable v root s →
      s.current.move v s.result = .enter arg next → step v s = .running t → JustEntered v root t

/-- The run comes to this state by finishing `arg`, on which its current frame waited. -/
def JustLeft (v : Valuation) (root : Sentence) (t : State) (arg : Sentence) : Prop :=
  ∃ s b, Reachable v root s ∧ s.stack = t.current :: t.stack ∧ s.current.node = arg ∧
    s.current.move v s.result = .finish b ∧ step v s = .running t

namespace Reachable
variable {t : State}

theorem kept (h : Reachable v root t) : Kept v root t := by
  induction h with
  | start => exact kept_start v root
  | step _ hstep ih => exact kept_step ih hstep

/-- The slot is empty at a node just entered, and else has the value of the argument
    that the frame waited for. -/
theorem slot (h : Reachable v root t) :
    (JustEntered v root t ∧ t.result = none) ∨
      ∃ arg b, JustLeft v root t arg ∧ t.result = some b ∧ t.current.Awaits arg ∧
        (arg.eval v).outcome = .ok b := by
  cases h with
  | start => exact .inl ⟨.start, rfl⟩
  | @step s _ hs hstep =>
    rcases step_cases hstep with ⟨arg, next, hmove, rfl⟩ | ⟨b, f, stack, hmove, hstack, rfl⟩
    · exact .inl ⟨.enter hs hmove hstep, rfl⟩
    · exact .inr ⟨s.current.node, b, ⟨s, b, hs, hstack, rfl, hmove, hstep⟩, rfl,
        (hs.kept.leftFor hstack).awaits, eval_of_finish hs.kept.suits hmove⟩

end Reachable

theorem JustEntered.fresh {t : State} (h : JustEntered v root t) :
    t.result = none ∧ t.current.next = 0 := by
  cases h with
  | start => exact ⟨rfl, rfl⟩
  | enter _ hmove hstep =>
    rw [step_enter hmove] at hstep
    cases hstep
    exact ⟨rfl, rfl⟩

/-! ## The position on the stack -/

/-- The argument indices that the frames remember, from the root on. -/
def stackPosition (stack : List Frame) : List Nat :=
  (stack.map fun f => f.next - 1).reverse

theorem stackPosition_cons (f : Frame) (stack : List Frame) :
    stackPosition (f :: stack) = stackPosition stack ++ [f.next - 1] := by
  rw [stackPosition, List.map_cons, List.reverse_cons]
  rfl

/-- The frames spell a live position, where the current node stands. -/
theorem Trail.live {stack : List Frame} {node : Sentence} (h : Trail root stack node)
    (henters : ∀ f ∈ stack, Enters v f.node (f.next - 1)) :
    Live v root (stackPosition stack) ∧ root.at? (stackPosition stack) = some node := by
  induction h with
  | root => exact ⟨.root, at?_nil root⟩
  | @enter stack f arg _ hawaits ih =>
    obtain ⟨hlive, hnode⟩ := ih fun g hg => henters g (List.mem_cons_of_mem f hg)
    have hf : f.LeftFor v arg := ⟨hawaits, henters f List.mem_cons_self⟩
    rw [stackPosition_cons]
    refine ⟨.argument hlive hnode hf.enters, ?_⟩
    rw [at?_append, hnode, Option.bind_some, at?_cons_of_child? hf.child?, at?_nil]

/-- The machine only ever stands at live positions. -/
theorem Reachable.live {t : State} (h : Reachable v root t) :
    Live v root (stackPosition t.stack) ∧
      root.at? (stackPosition t.stack) = some t.current.node :=
  h.kept.trail.live h.kept.enters

/-! ## The whole of a node -/

/-- A node just entered is finished with its value, on the stack that it was entered
    on, or the run fails with its fault, and no frame of that stack is taken off. -/
theorem leads_to_end (v : Valuation) (node : Sentence) (base : List Frame) (asked : List String) :
    ∃ t, Leads v base ⟨base, ⟨node, 0⟩, none, asked⟩ t ∧
      match (node.eval v).outcome with
      | .ok b => t.stack = base ∧ t.current.node = node ∧ t.current.move v t.result = .finish b
      | .error e => ∃ names, step v t = .done ⟨names, .error e⟩ := by
  obtain ⟨t, hleads, -, hend⟩ := ends_eval (v := v) node base asked
  refine ⟨t, hleads, ?_⟩
  cases houtcome : (node.eval v).outcome with
  | ok b =>
    rw [houtcome] at hend
    exact hend
  | error e =>
    rw [houtcome] at hend
    exact ⟨_, step_fail hend⟩

end Machine

open Sentence Machine in
/-- In every reachable state, the frames lead from the root to the current node, none
    has entered more arguments than there are, and the arguments that a junction has
    behind it have the value that lets it go on. The slot is empty just when the
    current node has been entered, as it is at every atom, and else has the value of
    the argument that the current node was left for. A node entered on any stack is
    finished with its value on the same stack, or its fault ends the run. -/
theorem stack_discipline (v : Valuation) (root : Sentence) :
    (∀ t, Reachable v root t →
      (Trail root t.stack t.current.node ∧
        ∀ f ∈ t.current :: t.stack, f.next ≤ f.node.children.length) ∧
      (∀ f ∈ t.stack, ∀ args,
        (f.node = .compound .conj args →
          ∀ a ∈ args.take (f.next - 1), (a.eval v).outcome = .ok true) ∧
        (f.node = .compound .disj args →
          ∀ a ∈ args.take (f.next - 1), (a.eval v).outcome = .ok false)) ∧
      (t.result = none ↔ JustEntered v root t) ∧
      (JustEntered v root t → t.current.next = 0) ∧
      (∀ b, t.result = some b → ∃ arg, JustLeft v root t arg ∧ t.current.Awaits arg ∧
        (arg.eval v).outcome = .ok b) ∧
      ∀ name, t.current.node = .atom name → t.result = none) ∧
    ∀ (node : Sentence) (base : List Frame) (asked : List String),
      ∃ t, Leads v base ⟨base, ⟨node, 0⟩, none, asked⟩ t ∧
        match (node.eval v).outcome with
        | .ok b => t.stack = base ∧ t.current.node = node ∧ t.current.move v t.result = .finish b
        | .error e => ∃ names, step v t = .done ⟨names, .error e⟩ := by
  refine ⟨fun t ht => ?_, leads_to_end v⟩
  have hkept := ht.kept
  have hslot := ht.slot
  refine ⟨⟨hkept.trail, fun f hf => ?_⟩, fun f hf args => ?_,
    ⟨fun hnone => ?_, fun hentered => hentered.fresh.1⟩, fun hentered => hentered.fresh.2,
    fun b hb => ?_, fun name hatom => ?_⟩
  · rcases List.mem_cons.mp hf with rfl | hf
    · exact hkept.suits.next_le
    · have hlt := (hkept.enters f hf).lt_length
      omega
  · have henters := hkept.enters f hf
    refine ⟨fun hnode => ?_, fun hnode => ?_⟩ <;> rw [hnode] at henters <;> exact henters.2
  · rcases hslot with ⟨hentered, -⟩ | ⟨arg, b, -, hb, -⟩
    · exact hentered
    · rw [hnone] at hb
      cases hb
  · rcases hslot with ⟨-, hnone⟩ | ⟨arg, c, hleft, hc, hawaits, heval⟩
    · rw [hnone] at hb
      cases hb
    · obtain rfl : c = b := Option.some.inj (hc.symm.trans hb)
      exact ⟨arg, hleft, hawaits, heval⟩
  · rcases hslot with ⟨-, hnone⟩ | ⟨arg, b, -, -, hawaits, -⟩
    · exact hnone
    · -- no frame waits at an atom
      rw [Frame.Awaits, hatom] at hawaits
      cases hawaits

open Sentence Machine in
/-- The negation is entered behind a conjunction that is false, and so is the name
    below it. With that name finished, the slot has its value. -/
theorem stack_discipline_in_a_disjunction :
    let s : Sentence := .disj [.conj [.atom "a", .atom "b"], .neg (.atom "b"), .atom "x"]
    let t : State := ⟨[⟨.neg (.atom "b"), 0⟩, ⟨s, 2⟩], ⟨.atom "b", 0⟩, none, ["b", "a"]⟩
    let u : State := ⟨[⟨s, 2⟩], ⟨.neg (.atom "b"), 0⟩, some false, ["b", "b", "a"]⟩
    (after .aNotB 8 (start s) = .running t ∧ t.result = none ∧
      (Sentence.eval .aNotB (.conj [.atom "a", .atom "b"])).outcome = .ok false) ∧
    (after .aNotB 9 (start s) = .running u ∧
      ∃ arg, JustLeft .aNotB s u arg ∧ u.current.Awaits arg ∧
        (arg.eval .aNotB).outcome = .ok false) ∧
    ∃ w, Leads .aNotB [⟨s, 2⟩] ⟨[⟨s, 2⟩], ⟨.neg (.atom "b"), 0⟩, none, ["b", "a"]⟩ w ∧
      w.stack = [⟨s, 2⟩] := by
  intro s t u
  obtain ⟨hstates, hnodes⟩ := stack_discipline .aNotB s
  have ht : after .aNotB 8 (start s) = .running t := rfl
  have hu : after .aNotB 9 (start s) = .running u := rfl
  obtain ⟨-, hbefore, -, -, -, hatom⟩ := hstates t (after_keeps .step .start ht)
  obtain ⟨-, -, -, -, hleft, -⟩ := hstates u (after_keeps .step .start hu)
  obtain ⟨w, hleads, hend⟩ := hnodes (.neg (.atom "b")) [⟨s, 2⟩] ["b", "a"]
  have hpassed : (Sentence.eval .aNotB (.conj [.atom "a", .atom "b"])).outcome = .ok false :=
    (hbefore ⟨s, 2⟩ (by simp [t]) _).2 rfl _ (by simp)
  exact ⟨⟨ht, hatom "b" rfl, hpassed⟩, ⟨hu, hleft false rfl⟩, w, hleads, hend.1⟩

end Sentential
