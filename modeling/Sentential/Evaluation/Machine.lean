import Sentential.Sentence.Equality
import Sentential.Sentence.Measure
import Sentential.Evaluation.Run

/- Evaluation by a machine with a stack of its own, so that the depth of a
   sentence is bounded by memory alone. The machine stands at one node, the
   current frame; the frames it came through wait on the stack, innermost
   first. Each step either enters an argument of the current node or finishes
   the node, and a finished node hands its value back through the one result
   slot to the frame that waits on top.

   A junction remembers how many of its arguments it has entered. A negation
   does not: an empty slot tells it that it has just been entered, a full one
   that its argument is done. `State.work` bounds the steps that are left,
   every step takes at least one off (`work_lt_of_step`), and a sentence of
   size `n` starts with `2 * n - 1`. -/
namespace Sentential
namespace Machine

/-- A node being evaluated and the number of its arguments entered so far. -/
structure Frame where
  node : Sentence
  next : Nat
  deriving Repr, DecidableEq

/-- Where the machine stands. -/
structure State where
  /-- The frames around the current one, innermost first. -/
  stack : List Frame
  current : Frame
  /-- The value of the node finished last, for its parent to take. -/
  result : Option Bool
  /-- The names asked for so far, the latest first. -/
  asked : List String
  deriving Repr, DecidableEq

/-- What a node does next, seen from inside. -/
inductive Move where
  /-- Evaluate an argument; `next` is what the node remembers meanwhile. -/
  | enter (arg : Sentence) (next : Nat)
  | finish (value : Bool)
  | fail (e : EvalError)

/-- A junction is finished by an argument with the value `stop`, or else when
    its arguments are used up. -/
def junction (stop : Bool) (args : List Sentence) (next : Nat) (result : Option Bool) : Move :=
  if result = some stop then .finish stop
  else match args[next]? with
    | some arg => .enter arg (next + 1)
    | none => .finish !stop

/-- The next move at a frame whose result slot is `result`. -/
def Frame.move (v : Valuation) (result : Option Bool) (f : Frame) : Move :=
  match f.node with
  | .atom name =>
    match v name with
    | some value => .finish value
    | none => .fail (.unassigned name)
  | .compound .neg args =>
    match result, args with
    | some value, _ => .finish !value
    | none, [arg] => .enter arg f.next
    | none, _ => .fail (.arity args.length)
  | .compound .conj args => junction false args f.next result
  | .compound .disj args => junction true args f.next result

/-- The questions a move at this node asks: its name, if it is an atom. -/
def Frame.questions (f : Frame) : List String := f.node.name?.toList

/-- How a step ends: at another state, or with the run complete. -/
inductive Progress where
  | running (s : State)
  | done (r : Run Bool)

/-- One step of the machine. -/
def step (v : Valuation) (s : State) : Progress :=
  let asked := s.current.questions ++ s.asked
  match s.current.move v s.result with
  | .enter arg next => .running ⟨⟨s.current.node, next⟩ :: s.stack, ⟨arg, 0⟩, none, asked⟩
  | .fail e => .done ⟨asked.reverse, .error e⟩
  | .finish value =>
    match s.stack with
    | [] => .done ⟨asked.reverse, .ok value⟩
    | parent :: stack => .running ⟨stack, parent, some value, asked⟩

/-- The state that has just entered a sentence and has asked nothing. -/
def start (s : Sentence) : State := ⟨[], ⟨s, 0⟩, none, []⟩

/-! ## The work that is left -/

/-- Steps that a frame may still take once the argument it waits for is done,
    those inside its further arguments included. -/
def Frame.work (f : Frame) : Nat :=
  match f.node with
  | .atom _ => 1
  | .compound .neg _ => 1
  | .compound .conj args => 1 + 2 * Sentence.sizes (args.drop f.next)
  | .compound .disj args => 1 + 2 * Sentence.sizes (args.drop f.next)

/-- Steps that the current frame may still take: a negation just entered still
    has its argument to do. -/
def Frame.workNow (f : Frame) (result : Option Bool) : Nat :=
  match f.node, result with
  | .compound .neg args, none => 1 + 2 * Sentence.sizes args
  | _, _ => f.work

/-- Steps that the waiting frames may still take. -/
def stackWork : List Frame → Nat
  | [] => 0
  | f :: rest => f.work + stackWork rest

/-- A bound on the steps that are left. -/
def State.work (s : State) : Nat := s.current.workNow s.result + stackWork s.stack

theorem Frame.work_pos (f : Frame) : 0 < f.work := by
  unfold Frame.work
  split <;> omega

theorem Frame.workNow_pos (f : Frame) (result : Option Bool) : 0 < f.workNow result := by
  unfold Frame.workNow
  split
  · omega
  · exact f.work_pos

/-- A full slot leaves a frame the work it had while it waited. -/
theorem Frame.workNow_some (f : Frame) (value : Bool) : f.workNow (some value) = f.work := by
  unfold Frame.workNow
  split <;> simp_all

/-- Entering a sentence costs two steps for each of its nodes, less one. -/
theorem Frame.workNow_fresh (s : Sentence) : Frame.workNow ⟨s, 0⟩ none + 1 = 2 * s.size := by
  match s with
  | .atom _ => simp [workNow, work, Sentence.size]
  | .compound .neg _ | .compound .conj _ | .compound .disj _ =>
    simp only [workNow, work, Sentence.size, List.drop_zero]; omega

/-- Entering the argument at `next` leaves one step less to do. -/
theorem work_enter {args : List Sentence} {next : Nat} {arg : Sentence}
    (h : args[next]? = some arg) :
    Frame.workNow ⟨arg, 0⟩ none + 2 * Sentence.sizes (args.drop (next + 1)) + 1
      = 2 * Sentence.sizes (args.drop next) := by
  obtain ⟨hn, rfl⟩ := List.getElem?_eq_some_iff.mp h
  have := Frame.workNow_fresh args[next]
  rw [List.drop_eq_getElem_cons hn, Sentence.sizes]
  omega

/-- A junction enters an argument only at its `next`, and remembers the one after. -/
theorem junction_enter {stop : Bool} {args : List Sentence} {next n : Nat}
    {result : Option Bool} {arg : Sentence}
    (h : junction stop args next result = .enter arg n) : args[next]? = some arg ∧ n = next + 1 := by
  unfold junction at h
  split at h
  · cases h
  · split at h <;> cases h
    exact ⟨by assumption, rfl⟩

/-- Entering an argument takes one step off the work. -/
theorem work_of_enter {v : Valuation} {result : Option Bool} {f : Frame} {arg : Sentence} {n : Nat}
    (h : f.move v result = .enter arg n) :
    Frame.workNow ⟨arg, 0⟩ none + Frame.work ⟨f.node, n⟩ + 1 = f.workNow result := by
  obtain ⟨node, next⟩ := f
  match node with
  | .atom name => simp only [Frame.move] at h; split at h <;> cases h
  | .compound .neg args =>
    simp only [Frame.move] at h
    split at h <;> cases h
    have := Frame.workNow_fresh arg
    simp only [Frame.work, Frame.workNow, Sentence.sizes] at this ⊢
    omega
  | .compound .conj args =>
    obtain ⟨ha, rfl⟩ := junction_enter h
    have := work_enter ha
    simp only [Frame.work, Frame.workNow] at this ⊢
    omega
  | .compound .disj args =>
    obtain ⟨ha, rfl⟩ := junction_enter h
    have := work_enter ha
    simp only [Frame.work, Frame.workNow] at this ⊢
    omega

/-- Every step that does not complete the run takes at least one off the work. -/
theorem work_lt_of_step {v : Valuation} {s t : State} (h : step v s = .running t) :
    t.work < s.work := by
  unfold step at h
  split at h
  · rename_i arg n hm
    cases h
    have := work_of_enter hm
    simp only [State.work, stackWork]
    omega
  · cases h
  · split at h <;> cases h
    rename_i parent stack hs
    have := s.current.workNow_pos s.result
    simp only [State.work, hs, stackWork, Frame.workNow_some]
    omega

/-- Runs the machine from a state to the end. -/
def run (v : Valuation) (s : State) : Run Bool :=
  match _h : step v s with
  | .running t => run v t
  | .done r => r
termination_by s.work
decreasing_by exact work_lt_of_step _h

end Machine

/-- The run of a sentence on the machine. -/
def Sentence.evalByStack (v : Valuation) (s : Sentence) : Run Bool :=
  Machine.run v (Machine.start s)

end Sentential
