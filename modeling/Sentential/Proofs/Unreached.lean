import Sentential.Proofs.LivePositions

/- What evaluation does not reach is without effect. A run of a sentence is fixed
   by the arguments that its root enters (`eval_of_not_enters`), so a part at a
   position that is not live may be exchanged for anything
   (`eval_replaceAt_of_not_live`): somewhere on the way down an argument is not
   entered, and above that place only the run of a part counts
   (`eval_replaceAt_congr`). In the same way the arguments behind one that
   settles a junction may be any, or be left out. -/
namespace Sentential
namespace Sentence
variable {v : Valuation}

/-- An argument that is not entered may be exchanged for any other. -/
theorem eval_of_not_enters {op : Connective} {args : List Sentence} {i : Nat} {c : Sentence}
    (hc : args[i]? = some c) (h : ¬ Enters v (.compound op args) i) (d : Sentence) :
    eval v (.compound op (args.take i ++ d :: args.drop (i + 1))) = eval v (.compound op args) := by
  have hlt : i < args.length := (List.getElem?_eq_some_iff.mp hc).1
  have hsplit : args = args.take i ++ c :: args.drop (i + 1) := split_at hc
  rcases op.neg_or_junction with rfl | ⟨stop, hop⟩
  · have hl : args.length ≠ 1 := fun hl => h ⟨hl, by omega⟩
    have hlen : (args.take i ++ d :: args.drop (i + 1)).length = args.length := by
      rw [congrArg List.length hsplit]
      simp
    rw [eval_neg_of_length hl, eval_neg_of_length (hlen ▸ hl), hlen]
  · -- some argument before `i` does not pass, and `d` stands behind it
    have hstop : ∃ a ∈ args.take i, ¬ Passes v stop a := by
      by_contra hall
      refine h ((enters_junction hop).mpr ⟨hlt, fun a ha => ?_⟩)
      by_contra hpass
      exact hall ⟨a, ha, hpass⟩
    obtain ⟨a, ha, hpass⟩ := hstop
    obtain ⟨before, between, htake⟩ := List.append_of_mem ha
    rw [eval_junction hop, eval_junction hop]
    conv => rhs; rw [hsplit]
    rw [htake, List.append_assoc, List.append_assoc, List.cons_append, List.cons_append]
    exact evalUntil_settled hpass _ _ _

/-- A part at a position that is not live may be exchanged for any sentence. -/
theorem eval_replaceAt_of_not_live {s : Sentence} {p : List Nat} (h : ¬ Live v s p)
    (t : Sentence) : eval v (s.replaceAt p t) = eval v s := by
  induction p generalizing s with
  | nil => exact absurd .root h
  | cons i p ih =>
    cases hc : s.child? i with
    | none => rw [replaceAt_of_child?_eq_none hc]
    | some c =>
      cases s with
      | atom name => rfl
      | compound op args =>
        rw [child?_compound] at hc
        rw [replaceAt_child hc]
        -- entered, the argument counts by its run only; not entered, not at all
        by_cases hi : Enters v (.compound op args) i
        · have hlive : ¬ Live v c p := fun hl => h (live_cons.mpr ⟨hi, c, hc, hl⟩)
          rw [eval_compound_congr (ih hlive), ← split_at hc]
        · exact eval_of_not_enters hc hi _

/-- The arguments of a junction behind one that does not pass may be any. -/
theorem eval_replaceAt_behind (op : Connective) {stop : Bool} (hop : op.stop? = some stop)
    {s a : Sentence} {p : List Nat} {pre rest : List Sentence}
    (hat : s.at? p = some (.compound op (pre ++ a :: rest))) (ha : ¬ Passes v stop a)
    (rest' : List Sentence) :
    eval v (s.replaceAt p (.compound op (pre ++ a :: rest'))) = eval v s := by
  refine eval_replaceAt_congr ?_ hat
  rw [eval_junction hop, eval_junction hop]
  exact evalUntil_settled ha pre rest rest'

end Sentence

open Sentence in
/-- By either method, the outcome and the questions stay what they are when the
    part at a position that is not live is exchanged for any sentence, and when
    the arguments of a conjunction behind one that is not true, or of a
    disjunction behind one that is not false, are exchanged for any list. -/
theorem unreached_is_without_effect (m : Method) (v : Valuation) (s : Sentence) :
    (∀ p, ¬ Live v s p → ∀ t, m.run v (s.replaceAt p t) = m.run v s) ∧
    (∀ p pre a rest, s.at? p = some (.conj (pre ++ a :: rest)) →
      (m.run v a).outcome ≠ .ok true →
      ∀ rest', m.run v (s.replaceAt p (.conj (pre ++ a :: rest'))) = m.run v s) ∧
    (∀ p pre a rest, s.at? p = some (.disj (pre ++ a :: rest)) →
      (m.run v a).outcome ≠ .ok false →
      ∀ rest', m.run v (s.replaceAt p (.disj (pre ++ a :: rest'))) = m.run v s) := by
  simp only [m.run_eq_eval]
  refine ⟨fun p h t => eval_replaceAt_of_not_live h t, ?_, ?_⟩
  · intro p pre a rest hat ha rest'
    exact eval_replaceAt_behind .conj rfl hat ha rest'
  · intro p pre a rest hat ha rest'
    exact eval_replaceAt_behind .disj rfl hat ha rest'

open Sentence in
/-- Under a negation, a true argument settles a disjunction: what a malformed
    negation behind it stands over may be anything, and so may the arguments
    behind it; a false argument does the same in a conjunction. -/
theorem unreached_is_without_effect_behind_a_true_argument :
    let s : Sentence := .neg (.disj [.atom "a", .negAll [.atom "x", .atom "y"]])
    (¬ Live .aNotB s [0, 1, 0] ∧
      ∀ t, Method.byStack.run .aNotB (s.replaceAt [0, 1, 0] t) = Method.byStack.run .aNotB s) ∧
    (∀ rest, Method.recursive.run .aNotB (.neg (.disj (.atom "a" :: rest))) =
      Method.recursive.run .aNotB s) ∧
    ∀ rest, Method.recursive.run .aNotB (.conj (.atom "a" :: .atom "b" :: rest)) =
      Method.recursive.run .aNotB (.conj [.atom "a", .atom "b", .atom "c"]) := by
  intro s
  have hdead : ¬ Live .aNotB s [0, 1, 0] := by
    intro h
    obtain ⟨-, c, hc, hlive⟩ := live_cons.mp h
    cases hc
    exact absurd (live_cons.mp hlive).1.2 (by decide)
  refine ⟨⟨hdead, (unreached_is_without_effect .byStack .aNotB s).1 _ hdead⟩, ?_, ?_⟩
  · exact (unreached_is_without_effect .recursive .aNotB s).2.2 [0] [] _ _ rfl (by decide)
  · exact (unreached_is_without_effect .recursive .aNotB _).2.1 [] [.atom "a"] _ _ rfl (by decide)

end Sentential
