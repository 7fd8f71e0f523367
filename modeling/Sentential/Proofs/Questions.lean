import Sentential.Proofs.AtomNames
import Sentential.Proofs.LivePositions

/- What a run knows of its valuation. A run meets the valuation only in the
   questions it asks, one name at a time. So a second valuation that answers
   the questions of a run alike leads through the same run (`ByAsking.agree`),
   and a run that goes on behind a question has had an answer to it
   (`ByAsking.unanswered`). Both hold of a single question and are kept when
   runs are put together, hence of evaluation. Together they say what becomes
   of a run when more names are assigned: it stays what it is, unless it had
   stopped at one of these names (`ByAsking.extend`). -/
namespace Sentential

namespace Run

theorem asked_ask (v : Valuation) (name : String) : (ask v name).asked = [name] := by
  rw [ask]
  cases v name <;> rfl

theorem asked_bind_pure {α β : Type} (r : Run α) (f : α → β) :
    (r.bind fun a => pure (f a)).asked = r.asked := by
  cases h : r.outcome with
  | ok a => rw [bind_of_ok h, pure, List.append_nil]
  | error e => rw [bind_of_error h]

end Run

/-- A run for every valuation that knows of the valuation what it asks, and
    stops at a name that is not assigned. -/
structure ByAsking {α : Type} (r : Valuation → Run α) : Prop where
  agree : ∀ v w, (∀ name ∈ (r v).asked, v name = w name) → r w = r v
  unanswered : ∀ v, ∀ name ∈ (r v).asked, v name = none →
    (r v).outcome = .error (.unassigned name)

namespace ByAsking
variable {α β : Type}

theorem pure (a : α) : ByAsking fun _ => Run.pure a where
  agree _ _ _ := rfl
  unanswered _ _ h := absurd h List.not_mem_nil

theorem fail (e : EvalError) : ByAsking fun _ => (Run.fail e : Run α) where
  agree _ _ _ := rfl
  unanswered _ _ h := absurd h List.not_mem_nil

theorem ask (name : String) : ByAsking fun v => Run.ask v name := by
  refine ⟨?_, ?_⟩
  · intro v w h
    have hname : v name = w name := h name (by rw [Run.asked_ask]; simp)
    rw [Run.ask, Run.ask, hname]
  · intro v n hn hv
    rw [Run.asked_ask, List.mem_singleton] at hn
    subst hn
    exact Run.ask_eq_error.mpr ⟨hv, rfl⟩

theorem bind {r : Valuation → Run α} {f : Valuation → α → Run β} (hr : ByAsking r)
    (hf : ∀ a, ByAsking fun v => f v a) : ByAsking fun v => (r v).bind (f v) := by
  refine ⟨?_, ?_⟩
  · intro v w h
    cases ho : (r v).outcome with
    | error e =>
      rw [Run.bind_of_error ho] at h
      have hrun : r w = r v := hr.agree v w h
      rw [hrun, Run.bind_of_error ho, Run.bind_of_error ho]
    | ok a =>
      rw [Run.bind_of_ok ho, List.forall_mem_append] at h
      have hrun : r w = r v := hr.agree v w h.1
      have hnext : f w a = f v a := (hf a).agree v w h.2
      rw [hrun, Run.bind_of_ok ho, Run.bind_of_ok ho, hnext]
  · intro v name hname hv
    cases ho : (r v).outcome with
    | error e =>
      rw [Run.bind_of_error ho] at hname
      have herror := hr.unanswered v name hname hv
      rw [ho] at herror
      cases herror
      rw [Run.bind_of_error ho]
    | ok a =>
      rw [Run.bind_of_ok ho] at hname
      rw [Run.bind_of_ok ho]
      rcases List.mem_append.mp hname with hfirst | hnext
      · -- the first run had a value, so it was given an answer
        have herror := hr.unanswered v name hfirst hv
        rw [ho] at herror
        cases herror
      · exact (hf a).unanswered v name hnext hv

/-- More assigned names leave a run as it is, unless it stopped at one of them. -/
theorem extend {r : Valuation → Run α} (hr : ByAsking r) {v w : Valuation}
    (hext : ∀ name b, v name = some b → w name = some b)
    (hstop : ∀ name, (r v).outcome = .error (.unassigned name) → w name = none) : r w = r v := by
  apply hr.agree
  intro name hname
  cases hv : v name with
  | some b => exact (hext name b hv).symm
  | none => exact (hstop name (hr.unanswered v name hname hv)).symm

end ByAsking

namespace Sentence

/-- Evaluation knows of the valuation what it asks. -/
theorem eval_byAsking (s : Sentence) : ByAsking fun v => s.eval v :=
  eval_composes ⟨.pure, fun n => .fail (.arity n), .ask, fun _ _ hr hf => hr.bind hf⟩ s

theorem exists_asked_of_evalUntil {v : Valuation} {stop : Bool} {args : List Sentence}
    {name : String} (h : name ∈ (evalUntil v stop args).asked) :
    ∃ a ∈ args, name ∈ (a.eval v).asked := by
  induction args with
  | nil =>
    rw [evalUntil_nil] at h
    exact absurd h List.not_mem_nil
  | cons a args ih =>
    by_cases ha : Passes v stop a
    · rw [evalUntil_cons_of_passes ha] at h
      rcases List.mem_append.mp h with h | h
      · exact ⟨a, by simp, h⟩
      · obtain ⟨c, hc, hasked⟩ := ih h
        exact ⟨c, by simp [hc], hasked⟩
    · rw [evalUntil_cons_of_not_passes ha] at h
      exact ⟨a, by simp, h⟩

/-- Only names of the sentence are asked for. -/
theorem occurs_of_asked {v : Valuation} {s : Sentence} {name : String}
    (h : name ∈ (s.eval v).asked) : Occurs name s := by
  induction s with
  | atom n =>
    rw [eval_atom, Run.asked_ask, List.mem_singleton] at h
    exact occurs_atom.mpr h.symm
  | compound op args ih =>
    rw [occurs_compound]
    rcases op.neg_or_junction with rfl | ⟨stop, hop⟩
    · by_cases hl : args.length = 1
      · obtain ⟨arg, rfl⟩ := List.length_eq_one_iff.mp hl
        rw [eval_neg, Run.asked_bind_pure] at h
        exact ⟨arg, by simp, ih arg (by simp) h⟩
      · rw [eval_neg_of_length hl] at h
        exact absurd h List.not_mem_nil
    · rw [eval_junction hop] at h
      obtain ⟨a, ha, hasked⟩ := exists_asked_of_evalUntil h
      exact ⟨a, ha, ih a ha hasked⟩

/-- Valuations that agree on the names of a sentence lead through the same run. -/
theorem eval_congr {v w : Valuation} {s : Sentence}
    (h : ∀ name, Occurs name s → v name = w name) : s.eval w = s.eval v :=
  s.eval_byAsking.agree v w fun name hname => h name (occurs_of_asked hname)

end Sentence

/-- By either method, a sentence has the same outcome and asks the same questions
    under two valuations that agree on what it asks under one of them. When more
    names are assigned, a value stays, a negation that has none stays the fault,
    and so does a name that is not assigned, until it is. -/
theorem run_depends_on_what_it_asks (m : Method) (s : Sentence) (v w : Valuation) :
    ((∀ name ∈ (m.run v s).asked, v name = w name) →
      (m.run w s).outcome = (m.run v s).outcome ∧ (m.run w s).asked = (m.run v s).asked) ∧
    ((∀ name b, v name = some b → w name = some b) →
      (∀ b, (m.run v s).outcome = .ok b → m.run w s = m.run v s) ∧
      (∀ n, (m.run v s).outcome = .error (.arity n) → m.run w s = m.run v s) ∧
      ∀ x, (m.run v s).outcome = .error (.unassigned x) → w x = none →
        m.run w s = m.run v s) := by
  simp only [m.run_eq_eval]
  have hs : ByAsking fun v => s.eval v := s.eval_byAsking
  refine ⟨?_, ?_⟩
  · intro h
    have hrun : s.eval w = s.eval v := hs.agree v w h
    exact ⟨by rw [hrun], by rw [hrun]⟩
  · intro hext
    refine ⟨?_, ?_, ?_⟩
    · intro b hb
      apply hs.extend hext
      intro name hname
      rw [hb] at hname
      cases hname
    · intro n hn
      apply hs.extend hext
      intro name hname
      rw [hn] at hname
      cases hname
    · intro x hx hw
      apply hs.extend hext
      intro name hname
      rw [hx] at hname
      cases hname
      exact hw

/-- The conjunction asks for `b` alone, so the other valuation may differ in all
    other names. With `x` assigned besides, the disjunction still stops at `y`,
    and what had a value or a malformed negation keeps it. -/
theorem run_depends_on_what_it_asks_behind_a_false_argument :
    let s : Sentence := .conj [.atom "b", .atom "a"]
    let t : Sentence := .disj [.atom "b", .atom "y", .atom "x"]
    let u : Sentence := .conj [.atom "a", .negAll [], .atom "x"]
    let w : Valuation := fun name => if name = "b" then some false else none
    let more : Valuation := fun name => if name = "x" then some true else Valuation.aNotB name
    ((∀ name ∈ (Method.byStack.run .aNotB s).asked, Valuation.aNotB name = w name) ∧
      (Method.byStack.run w s).outcome = (Method.byStack.run .aNotB s).outcome ∧
      (Method.byStack.run w s).asked = (Method.byStack.run .aNotB s).asked) ∧
    (∀ name b, Valuation.aNotB name = some b → more name = some b) ∧
    ((Method.byStack.run .aNotB s).outcome = .ok false ∧
      Method.byStack.run more s = Method.byStack.run .aNotB s) ∧
    ((Method.byStack.run .aNotB u).outcome = .error (.arity 0) ∧
      Method.byStack.run more u = Method.byStack.run .aNotB u) ∧
    ((Method.byStack.run .aNotB t).outcome = .error (.unassigned "y") ∧ more "y" = none ∧
      Method.byStack.run more t = Method.byStack.run .aNotB t) := by
  intro s t u w more
  have hagree : ∀ name ∈ (Method.byStack.run .aNotB s).asked, Valuation.aNotB name = w name := by
    rw [Method.run_eq_eval]
    decide
  have hmore : ∀ name b, Valuation.aNotB name = some b → more name = some b := by
    intro name b h
    by_cases hx : name = "x"
    · subst hx
      cases h
    · rw [← h]
      exact if_neg hx
  have hs : (Method.byStack.run .aNotB s).outcome = .ok false := by
    rw [Method.run_eq_eval]
    decide
  have ht : (Method.byStack.run .aNotB t).outcome = .error (.unassigned "y") := by
    rw [Method.run_eq_eval]
    decide
  have hu : (Method.byStack.run .aNotB u).outcome = .error (.arity 0) := by
    rw [Method.run_eq_eval]
    decide
  have hy : more "y" = none := by decide
  refine ⟨⟨hagree, (run_depends_on_what_it_asks .byStack s .aNotB w).1 hagree⟩, hmore, ⟨hs, ?_⟩,
    ⟨hu, ?_⟩, ht, hy, ?_⟩
  · exact ((run_depends_on_what_it_asks .byStack s .aNotB more).2 hmore).1 false hs
  · exact ((run_depends_on_what_it_asks .byStack u .aNotB more).2 hmore).2.1 0 hu
  · exact ((run_depends_on_what_it_asks .byStack t .aNotB more).2 hmore).2.2 "y" ht hy

end Sentential
