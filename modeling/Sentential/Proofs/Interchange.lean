import Sentential.Proofs.StackSimulation

/- Sentences that may stand for one another, faults and questions included. Two
   sentences with the same run are interchangeable at every position of every
   sentence (`Interchangeable.of_eval`), so a law of evaluation is proved for the
   bare sentences and holds inside all others. The laws here are those of
   negation. A negation turns a junction into the other one over the negated
   arguments (`eval_neg_junction`): a list of negations is read up to the negation
   of the argument that would have ended the reading of the list itself
   (`evalUntil_map_neg`), so both sides stop at the same place, with the same
   fault if that is one. -/
namespace Sentential

/-- The junction that a negation turns this one into. -/
def Connective.dual : Connective → Connective
  | .neg => .neg
  | .conj => .disj
  | .disj => .conj

theorem Connective.stop?_dual {op : Connective} {stop : Bool} (h : op.stop? = some stop) :
    op.dual.stop? = some !stop := by
  cases op <;> cases h <;> rfl

namespace Sentence
variable {v : Valuation} {stop : Bool}

/-! ## Negation of a junction -/

theorem evalUntil_map_neg (args : List Sentence) :
    evalUntil v (!stop) (args.map neg) =
      (evalUntil v stop args).bind fun b => Run.pure (!b) := by
  induction args with
  | nil => rw [List.map_nil, evalUntil_nil, evalUntil_nil, Run.pure_bind]
  | cons a args ih =>
    rw [List.map_cons, evalUntil_cons, evalUntil_cons, neg, eval_neg, Run.bind_assoc,
      Run.bind_assoc]
    congr 1
    funext b
    rw [Run.pure_bind]
    by_cases hb : b = stop
    · rw [hb, if_pos rfl, if_pos rfl, Run.pure_bind]
    · have hnot : (!b) ≠ !stop := fun h => hb (Bool.not_inj h)
      rw [if_neg hb, if_neg hnot, ih]

/-- A negated junction is the other junction of the negated arguments. -/
theorem eval_neg_junction {op : Connective} (hop : op.stop? = some stop)
    (args : List Sentence) :
    eval v (.compound .neg [.compound op args]) =
      eval v (.compound op.dual (args.map neg)) := by
  rw [eval_neg, eval_junction hop, eval_junction (Connective.stop?_dual hop), evalUntil_map_neg]

theorem eval_neg_neg (s : Sentence) : eval v (neg (neg s)) = eval v s := by
  have htwice : (fun b : Bool => (Run.pure !b).bind fun c => Run.pure !c) = Run.pure := by
    funext b
    rw [Run.pure_bind, Bool.not_not]
  rw [neg, neg, eval_neg, eval_neg, Run.bind_assoc, htwice, Run.bind_pure]

end Sentence

/-- By this method the two sentences have the same run, outcome and questions,
    and wherever one of them stands in a sentence, the other may take its place
    without effect on the run of the whole. -/
structure Interchangeable (m : Method) (v : Valuation) (s t : Sentence) : Prop where
  run_eq : m.run v s = m.run v t
  replace : ∀ (u : Sentence) p, u.at? p = some s → m.run v (u.replaceAt p t) = m.run v u
  replace_back : ∀ (u : Sentence) p, u.at? p = some t → m.run v (u.replaceAt p s) = m.run v u

theorem Interchangeable.of_eval {v : Valuation} {s t : Sentence} (m : Method)
    (h : s.eval v = t.eval v) : Interchangeable m v s t := by
  refine ⟨?_, fun u p hs => ?_, fun u p ht => ?_⟩
  · rw [m.run_eq_eval, m.run_eq_eval, h]
  · rw [m.run_eq_eval, m.run_eq_eval, Sentence.eval_replaceAt_congr h hs]
  · rw [m.run_eq_eval, m.run_eq_eval, Sentence.eval_replaceAt_congr h.symm ht]

/-- By either method, the negation of a conjunction is interchangeable with the
    disjunction of the negations, the negation of a disjunction with the
    conjunction of the negations, and a sentence negated twice with itself.
    Beside the negated conjunction of two sentences their negated disjunction
    makes no difference to the outcome. -/
theorem negation_passes_to_arguments (m : Method) (v : Valuation) :
    (∀ args, Interchangeable m v (.neg (.conj args)) (.disj (args.map .neg))) ∧
    (∀ args, Interchangeable m v (.neg (.disj args)) (.conj (args.map .neg))) ∧
    (∀ s, Interchangeable m v (.neg (.neg s)) s) ∧
    ∀ s t : Sentence,
      (m.run v (~~~(s &&& t) ||| ~~~(s ||| t))).outcome = (m.run v (~~~(s &&& t))).outcome := by
  refine ⟨fun args => ?_, fun args => ?_, fun s => ?_, fun s t => ?_⟩
  · have hconj : Connective.conj.stop? = some false := rfl
    exact .of_eval m (Sentence.eval_neg_junction hconj args)
  · have hdisj : Connective.disj.stop? = some true := rfl
    exact .of_eval m (Sentence.eval_neg_junction hdisj args)
  · exact .of_eval m (Sentence.eval_neg_neg s)
  · rw [m.run_eq_eval, m.run_eq_eval]
    exact Sentence.eval_neg_conj_or_neg_disj s t

end Sentential
