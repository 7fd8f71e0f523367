import Mathlib.Data.List.Basic
import Sentential.Proofs.Positions
import Sentential.Workbench

/- What commands do to a workbench. A command is refused exactly when there are fewer
   sentences than it needs (`perform_tooFew_iff`), and what is refused changes nothing.
   Every sentence can be built: its arguments one after the other, and then the
   connective over them (`buildAll`), with one command for each node and whatever lies
   on the stack below left where it is, by induction over the sentence. -/
namespace Sentential
namespace Workbench

open Sentence

/-! ## Refused commands -/

/-- How many sentences a command needs. -/
def Command.needs : Command → Nat
  | .push _ | .assign _ _ | .withdraw _ => 0
  | .combine _ count => count
  | .both | .either | .exchange | .compare => 2
  | .negate | .duplicate | .discard | .child _ | .left | .right => 1
  | .evaluate _ | .outline | .top | .term | .size | .depth | .atoms => 1

theorem inspect_tooFew_iff {w : Workbench} {say : Sentence → Reply} (h : ∀ s, say s ≠ .tooFew) :
    (w.inspect say).2 = .tooFew ↔ w.stack.length < 1 := by
  obtain ⟨stack, assignment⟩ := w
  cases stack with
  | nil => simp [inspect, refuse]
  | cons s rest => simp [inspect, h s]

theorem descend_tooFew_iff {w : Workbench} {part? : Sentence → Option Sentence} :
    (w.descend part?).2 = .tooFew ↔ w.stack.length < 1 := by
  obtain ⟨stack, assignment⟩ := w
  cases stack with
  | nil => simp [descend, refuse]
  | cons s rest => cases hpart : part? s <;> simp [descend, hpart]

theorem replaceTop_tooFew_iff {w : Workbench} {f : Sentence → Sentence} :
    (w.replaceTop f).2 = .tooFew ↔ w.stack.length < 1 := by
  obtain ⟨stack, assignment⟩ := w
  cases stack <;> simp [replaceTop, refuse]

theorem replaceTwo_tooFew_iff {w : Workbench} {f : Sentence → Sentence → Sentence} :
    (w.replaceTwo f).2 = .tooFew ↔ w.stack.length < 2 := by
  obtain ⟨stack, assignment⟩ := w
  match stack with
  | [] | [_] | _ :: _ :: _ => simp [replaceTwo, refuse]

theorem perform_tooFew_iff {w : Workbench} {c : Command} :
    (w.perform c).2 = .tooFew ↔ w.stack.length < c.needs := by
  cases c with
  | push name | assign name value | withdraw name => simp [perform, Command.needs]
  | combine op count =>
    simp only [perform, Command.needs]
    split <;> simp [refuse] <;> omega
  | negate => exact replaceTop_tooFew_iff
  | both | either => exact replaceTwo_tooFew_iff
  | duplicate | discard =>
    obtain ⟨stack, assignment⟩ := w
    cases stack <;> simp [perform, refuse, Command.needs]
  | exchange | compare =>
    obtain ⟨stack, assignment⟩ := w
    match stack with
    | [] | [_] | _ :: _ :: _ => simp [perform, refuse, Command.needs]
  | child index | left | right => exact descend_tooFew_iff
  | evaluate m | outline | top | term | size | depth | atoms =>
    exact inspect_tooFew_iff fun s => Reply.noConfusion

theorem inspect_fst (w : Workbench) (say : Sentence → Reply) : (w.inspect say).1 = w := by
  obtain ⟨stack, assignment⟩ := w
  cases stack <;> rfl

theorem descend_fst {w : Workbench} {part? : Sentence → Option Sentence}
    (h : (w.descend part?).2 ≠ .nothing) : (w.descend part?).1 = w := by
  obtain ⟨stack, assignment⟩ := w
  cases stack with
  | nil => rfl
  | cons s rest => cases hpart : part? s <;> simp_all [descend]

theorem replaceTop_fst {w : Workbench} {f : Sentence → Sentence}
    (h : (w.replaceTop f).2 ≠ .nothing) : (w.replaceTop f).1 = w := by
  obtain ⟨stack, assignment⟩ := w
  cases stack with
  | nil => rfl
  | cons s rest => exact absurd rfl h

theorem replaceTwo_fst {w : Workbench} {f : Sentence → Sentence → Sentence}
    (h : (w.replaceTwo f).2 ≠ .nothing) : (w.replaceTwo f).1 = w := by
  obtain ⟨stack, assignment⟩ := w
  match stack with
  | [] | [_] => rfl
  | _ :: _ :: _ => exact absurd rfl h

/-- A command that is refused, or asks for an argument that is not there, changes
    nothing. -/
theorem perform_of_refused {w : Workbench} {c : Command}
    (h : (w.perform c).2 = .tooFew ∨ (w.perform c).2 = .noChild) : (w.perform c).1 = w := by
  have hsaid : (w.perform c).2 ≠ .nothing := by
    rcases h with h | h <;> rw [h] <;> exact Reply.noConfusion
  cases c with
  | push name | assign name value | withdraw name => rcases h with h | h <;> cases h
  | combine op count =>
    simp only [perform] at hsaid ⊢
    split at hsaid
    · exact absurd rfl hsaid
    · next hcount => rw [if_neg hcount]; rfl
  | negate => exact replaceTop_fst hsaid
  | both | either => exact replaceTwo_fst hsaid
  | duplicate | discard =>
    obtain ⟨stack, assignment⟩ := w
    cases stack with
    | nil => rfl
    | cons s rest => exact absurd rfl hsaid
  | exchange =>
    obtain ⟨stack, assignment⟩ := w
    match stack with
    | [] | [_] => rfl
    | _ :: _ :: _ => exact absurd rfl hsaid
  | compare =>
    obtain ⟨stack, assignment⟩ := w
    match stack with
    | [] | [_] | _ :: _ :: _ => rfl
  | child index | left | right => exact descend_fst hsaid
  | evaluate m | outline | top | term | size | depth | atoms => exact inspect_fst w _

/-! ## Building a sentence -/

/-- The workbench after these commands, and what they have said. -/
def session (w : Workbench) : List Command → Workbench × List Reply
  | [] => (w, [])
  | c :: rest =>
    ((session (w.perform c).1 rest).1, (w.perform c).2 :: (session (w.perform c).1 rest).2)

theorem session_append (w : Workbench) (cs ds : List Command) :
    session w (cs ++ ds) =
      ((session (session w cs).1 ds).1, (session w cs).2 ++ (session (session w cs).1 ds).2) := by
  induction cs generalizing w with
  | nil => rfl
  | cons c cs ih =>
    rw [List.cons_append, session, ih]
    rfl

mutual

/-- The commands that build a sentence on top of the stack. -/
def build : Sentence → List Command
  | .atom name => [.push name]
  | .compound op args => buildAll args ++ [.combine op args.length]

/-- The commands that build the sentences of a list, the first one deepest. -/
def buildAll : List Sentence → List Command
  | [] => []
  | s :: rest => build s ++ buildAll rest

end

/-- The commands put the sentences on top of the stack, and say nothing on the way. -/
def Puts (cs : List Command) (ss : List Sentence) : Prop :=
  ∀ w : Workbench,
    session w cs = ({ w with stack := ss.reverse ++ w.stack }, List.replicate (sizes ss) .nothing)

theorem puts_buildAll {args : List Sentence} (h : ∀ a ∈ args, Puts (build a) [a]) :
    Puts (buildAll args) args := by
  induction args with
  | nil => exact fun w => rfl
  | cons a args ih =>
    intro w
    have ha := h a List.mem_cons_self w
    have hrest := ih fun b hb => h b (List.mem_cons_of_mem a hb)
    rw [buildAll, session_append, ha, hrest, List.replicate_append_replicate]
    simp [sizes]

theorem puts_build (s : Sentence) : Puts (build s) [s] := by
  induction s with
  | atom name => exact fun w => rfl
  | compound op args ih =>
    intro w
    have hargs := puts_buildAll ih w
    -- the arguments lie on top, the last one first
    have hcount : args.length ≤ (args.reverse ++ w.stack).length := by simp
    have htake : (args.reverse ++ w.stack).take args.length = args.reverse :=
      List.take_left' List.length_reverse
    have hdrop : (args.reverse ++ w.stack).drop args.length = w.stack :=
      List.drop_left' List.length_reverse
    have hcombine : perform { w with stack := args.reverse ++ w.stack } (.combine op args.length) =
        ({ w with stack := .compound op args :: w.stack }, .nothing) := by
      simp only [perform, if_pos hcount, htake, hdrop, List.reverse_reverse]
    have hsize : sizes [compound op args] = sizes args + 1 := by
      simp only [sizes, size]
      omega
    rw [build, session_append, hargs, session, session, hcombine, hsize, List.replicate_succ']
    rfl

end Workbench

open Sentence Workbench in
/-- A command is refused exactly when it needs more sentences than there are, and then
    changes nothing, no more than one that asks for a missing argument. Every sentence
    can be built on top of any stack, with a command for each node and none of them
    refused. -/
theorem workbench_commands (w : Workbench) :
    (∀ c, (w.perform c).2 = .tooFew ↔ w.stack.length < c.needs) ∧
    (∀ c, (w.perform c).2 = .tooFew ∨ (w.perform c).2 = .noChild → (w.perform c).1 = w) ∧
    ∀ s : Sentence, session w (build s) =
      ({ w with stack := s :: w.stack }, List.replicate s.size .nothing) := by
  refine ⟨fun c => perform_tooFew_iff, fun c => perform_of_refused, fun s => ?_⟩
  have hsize : sizes [s] = s.size := Nat.add_zero _
  have hputs := puts_build s w
  rw [hsize] at hputs
  exact hputs

end Sentential
