import Sentential.Valuation

/- What one evaluation leaves behind: the names it asked the valuation for, in
   order and with repetitions, and its outcome, a value or the first fault.
   Runs are put together with `bind`: the second part starts only when the
   first had a value, and its questions come after those of the first. -/
namespace Sentential

/-- Why a sentence has no value. -/
inductive EvalError where
  /-- A negation stands over other than one argument. -/
  | arity (found : Nat)
  /-- The valuation does not assign this name. -/
  | unassigned (name : String)
  deriving DecidableEq, Repr

/-- The fault in words. -/
def EvalError.message : EvalError → String
  | .arity found => s!"NOT is undefined for {found} children"
  | .unassigned name => s!"Atom not found in model: {name}"

/-- The questions of an evaluation and its outcome. -/
structure Run (α : Type) where
  /-- The names asked for, in the order of asking. -/
  asked : List String
  /-- The value, or the fault that stopped the evaluation. -/
  outcome : Except EvalError α
  deriving Repr

namespace Run

/-- A value that needed no question. -/
def pure {α : Type} (a : α) : Run α := ⟨[], .ok a⟩

/-- A fault that needed no question. -/
def fail {α : Type} (e : EvalError) : Run α := ⟨[], .error e⟩

/-- Carries on with the value of the first run, if it has one. -/
def bind {α β : Type} (r : Run α) (f : α → Run β) : Run β :=
  match r.outcome with
  | .ok a => ⟨r.asked ++ (f a).asked, (f a).outcome⟩
  | .error e => ⟨r.asked, .error e⟩

instance : Monad Run where
  pure := Run.pure
  bind := Run.bind

/-- Asks the valuation for one name. -/
def ask (v : Valuation) (name : String) : Run Bool :=
  match v name with
  | some b => ⟨[name], .ok b⟩
  | none => ⟨[name], .error (.unassigned name)⟩

/-! ## Laws of putting runs together -/

@[simp] theorem pure_bind {α β : Type} (a : α) (f : α → Run β) : (pure a).bind f = f a := by
  simp [bind, pure]

@[simp] theorem fail_bind {α β : Type} (e : EvalError) (f : α → Run β) :
    (fail e).bind f = fail e := rfl

@[simp] theorem bind_pure {α : Type} (r : Run α) : r.bind pure = r := by
  obtain ⟨asked, outcome⟩ := r
  cases outcome <;> simp [bind, pure]

theorem bind_assoc {α β γ : Type} (r : Run α) (f : α → Run β) (g : β → Run γ) :
    (r.bind f).bind g = r.bind fun a => (f a).bind g := by
  obtain ⟨asked, outcome⟩ := r
  cases outcome with
  | error e => rfl
  | ok a =>
    simp only [bind]
    cases (f a).outcome <;> simp

instance : LawfulMonad Run := LawfulMonad.mk' Run bind_pure pure_bind bind_assoc

end Run

end Sentential
