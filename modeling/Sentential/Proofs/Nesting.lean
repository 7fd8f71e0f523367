import Sentential.Proofs.Interchange
import Sentential.Proofs.LivePositions
import Sentential.Sentence.Measure

/- Nesting and brackets. A junction among the arguments of the same junction is
   read in its place as its own arguments are (`evalUntil_nested`): where it is
   settled the outer one is, and where it is left open reading goes on behind it.
   So a chain of sentences joined two at a time, however it is bracketed, has the
   run of the one junction over its links (`eval_build`). As values the sentences
   are told apart: the brackets can be read off (`Bracketing.build_inj`), since a
   chain of more links has more nodes, and only a chain of two links is the same
   sentence as the junction over them (`build_eq_junction`). -/
namespace Sentential
namespace Sentence
variable {v : Valuation} {stop : Bool}

/-- Reading a single sentence is evaluating it. -/
theorem evalUntil_singleton (a : Sentence) : evalUntil v stop [a] = eval v a := by
  have hlast : (fun b => if b = stop then Run.pure stop else evalUntil v stop []) = Run.pure := by
    funext b
    rw [evalUntil_nil]
    cases b <;> cases stop <;> rfl
  rw [evalUntil_cons, hlast, Run.bind_pure]

/-- A junction over one sentence adds nothing to it. -/
theorem eval_junction_singleton {op : Connective} (hop : op.stop? = some stop) (a : Sentence) :
    eval v (.compound op [a]) = eval v a := by
  rw [eval_junction hop, evalUntil_singleton]

theorem evalUntil_nested {op : Connective} (hop : op.stop? = some stop)
    (before args behind : List Sentence) :
    evalUntil v stop (before ++ [.compound op args] ++ behind) =
      evalUntil v stop (before ++ args ++ behind) := by
  rw [evalUntil_append, evalUntil_append before, evalUntil_singleton, eval_junction hop,
    ← evalUntil_append, ← evalUntil_append]

/-- The arguments of an inner junction may stand in its place. -/
theorem eval_nested {op : Connective} (hop : op.stop? = some stop)
    (before args behind : List Sentence) :
    eval v (.compound op (before ++ [.compound op args] ++ behind)) =
      eval v (.compound op (before ++ args ++ behind)) := by
  rw [eval_junction hop, eval_junction hop, evalUntil_nested hop]

end Sentence

/-! ## Chains with brackets -/

/-- A chain of sentences with all its brackets: a single link, or two chains
    joined. -/
inductive Bracketing where
  | link (s : Sentence)
  | join (front back : Bracketing)

namespace Bracketing

/-- The sentences of the chain, in order. -/
def links : Bracketing → List Sentence
  | link s => [s]
  | join front back => front.links ++ back.links

/-- The sentence that an operation on two sentences makes of the chain. -/
def build (op : Sentence → Sentence → Sentence) : Bracketing → Sentence
  | link s => s
  | join front back => op (front.build op) (back.build op)

theorem links_length_pos (b : Bracketing) : 0 < b.links.length := by
  induction b with
  | link s => exact Nat.one_pos
  | join front back ihf _ =>
    rw [links, List.length_append]
    omega

theorem one_lt_length_join (front back : Bracketing) : 1 < (join front back).links.length := by
  have := front.links_length_pos
  have := back.links_length_pos
  rw [links, List.length_append]
  omega

section Junction
variable {c : Connective} {op : Sentence → Sentence → Sentence}

theorem eval_build {v : Valuation} {stop : Bool} (hc : c.stop? = some stop)
    (hop : ∀ s t, op s t = .compound c [s, t]) (b : Bracketing) :
    (b.build op).eval v = Sentence.evalUntil v stop b.links := by
  induction b with
  | link s => rw [build, links, Sentence.evalUntil_singleton]
  | join front back ihf ihb =>
    have hpair : [front.build op, back.build op] = [front.build op] ++ [back.build op] := rfl
    rw [build, hop, Sentence.eval_junction hc, hpair, Sentence.evalUntil_append,
      Sentence.evalUntil_singleton, Sentence.evalUntil_singleton, ihf, ihb, links,
      Sentence.evalUntil_append]

/-- A node for each operator, and there is one operator less than links. -/
theorem size_build (hop : ∀ s t, op s t = .compound c [s, t]) (b : Bracketing) :
    (b.build op).size + 1 = Sentence.sizes b.links + b.links.length := by
  induction b with
  | link s => rfl
  | join front back ihf ihb =>
    rw [build, hop, links, Sentence.sizes_append, List.length_append]
    simp only [Sentence.size, Sentence.sizes]
    omega

theorem build_join_inj (hop : ∀ s t, op s t = .compound c [s, t])
    {front back front' back' : Bracketing} :
    (join front back).build op = (join front' back').build op ↔
      front.build op = front'.build op ∧ back.build op = back'.build op := by
  simp [build, hop]

/-- The links and the sentence determine the brackets. -/
theorem build_inj (hop : ∀ s t, op s t = .compound c [s, t]) {b d : Bracketing}
    (hlinks : b.links = d.links) (h : b.build op = d.build op) : b = d := by
  induction b generalizing d with
  | link s =>
    cases d with
    | link t => rw [List.singleton_inj.mp hlinks]
    | join front back =>
      have hlt := one_lt_length_join front back
      rw [← hlinks] at hlt
      exact absurd hlt (Nat.lt_irrefl 1)
  | join front back ihf ihb =>
    cases d with
    | link t =>
      have hlt := one_lt_length_join front back
      rw [hlinks] at hlt
      exact absurd hlt (Nat.lt_irrefl 1)
    | join front' back' =>
      obtain ⟨hfront, hback⟩ := (build_join_inj hop).mp h
      have hsize := size_build hop front
      have hsize' := size_build hop front'
      rw [hfront] at hsize
      -- equal fronts have equally many nodes, so neither has more links
      have hcut : front.links.length = front'.links.length := by
        rw [links, links, List.append_eq_append_iff] at hlinks
        rcases hlinks with ⟨more, hmore, -⟩ | ⟨more, hmore, -⟩
        · rw [hmore, Sentence.sizes_append, List.length_append] at hsize'
          rw [hmore, List.length_append]
          omega
        · rw [hmore, Sentence.sizes_append, List.length_append] at hsize
          rw [hmore, List.length_append]
          omega
      obtain ⟨hlinksFront, hlinksBack⟩ := List.append_inj hlinks hcut
      rw [ihf hlinksFront hfront, ihb hlinksBack hback]

/-- A chain is the junction over its links only if there are two of them. -/
theorem build_eq_junction (hop : ∀ s t, op s t = .compound c [s, t]) (b : Bracketing) :
    b.build op = .compound c b.links ↔ b.links.length = 2 := by
  cases b with
  | link s =>
    refine ⟨fun h => ?_, fun h => ?_⟩
    · -- a sentence is no argument of its own
      have hsize : s.size = (Sentence.compound c [s]).size := congrArg Sentence.size h
      simp only [Sentence.size, Sentence.sizes] at hsize
      omega
    · cases h
  | join front back =>
    refine ⟨fun h => ?_, fun h => ?_⟩
    · rw [build, hop, Sentence.compound.injEq] at h
      rw [← h.2]
      rfl
    · have hfront := front.links_length_pos
      have hback := back.links_length_pos
      rw [links, List.length_append] at h
      cases front with
      | join f f' =>
        have := one_lt_length_join f f'
        omega
      | link s =>
        cases back with
        | join f f' =>
          have := one_lt_length_join f f'
          omega
        | link t => rw [build, hop, build, build, links, links, links]; rfl

end Junction

end Bracketing

/-- By either method, a junction inside the same junction is interchangeable
    with its arguments in its place, a junction over one sentence with that
    sentence, and a chain of `&&&` or of `|||` with the one junction over its
    links, whatever the brackets. The sentences are not the same: different
    brackets give different ones, and that of a chain is the junction over its
    links only if there are two links. -/
theorem nesting_is_without_effect (m : Method) (v : Valuation) :
    (∀ before args behind, Interchangeable m v
      (.conj (before ++ [.conj args] ++ behind)) (.conj (before ++ args ++ behind))) ∧
    (∀ before args behind, Interchangeable m v
      (.disj (before ++ [.disj args] ++ behind)) (.disj (before ++ args ++ behind))) ∧
    (∀ s, Interchangeable m v (.conj [s]) s ∧ Interchangeable m v (.disj [s]) s) ∧
    (∀ b : Bracketing, Interchangeable m v (b.build (· &&& ·)) (.conj b.links) ∧
      Interchangeable m v (b.build (· ||| ·)) (.disj b.links)) ∧
    (∀ b : Bracketing, (b.build (· &&& ·) = .conj b.links ↔ b.links.length = 2) ∧
      (b.build (· ||| ·) = .disj b.links ↔ b.links.length = 2)) ∧
    ∀ b d : Bracketing, b.links = d.links → b ≠ d →
      b.build (· &&& ·) ≠ d.build (· &&& ·) ∧ b.build (· ||| ·) ≠ d.build (· ||| ·) := by
  have hconj : Connective.conj.stop? = some false := rfl
  have hdisj : Connective.disj.stop? = some true := rfl
  refine ⟨fun before args behind => ?_, fun before args behind => ?_, fun s => ⟨?_, ?_⟩,
    fun b => ⟨?_, ?_⟩, fun b => ⟨?_, ?_⟩, fun b d hlinks hne => ⟨fun h => ?_, fun h => ?_⟩⟩
  · exact .of_eval m (Sentence.eval_nested hconj before args behind)
  · exact .of_eval m (Sentence.eval_nested hdisj before args behind)
  · exact .of_eval m (Sentence.eval_junction_singleton hconj s)
  · exact .of_eval m (Sentence.eval_junction_singleton hdisj s)
  · apply Interchangeable.of_eval
    rw [Bracketing.eval_build hconj Sentence.and_eq, Sentence.conj, Sentence.eval_junction hconj]
  · apply Interchangeable.of_eval
    rw [Bracketing.eval_build hdisj Sentence.or_eq, Sentence.disj, Sentence.eval_junction hdisj]
  · exact Bracketing.build_eq_junction Sentence.and_eq b
  · exact Bracketing.build_eq_junction Sentence.or_eq b
  · exact hne (Bracketing.build_inj Sentence.and_eq hlinks h)
  · exact hne (Bracketing.build_inj Sentence.or_eq hlinks h)

/-- The two ways to bracket three sentences are different sentences with the same
    run, also under a negation. -/
theorem nesting_is_without_effect_with_three_links :
    let b : Bracketing := .join (.join (.link (.atom "a")) (.link (.atom "x"))) (.link (.atom "b"))
    let d : Bracketing := .join (.link (.atom "a")) (.join (.link (.atom "x")) (.link (.atom "b")))
    (b.links = d.links ∧ b ≠ d) ∧ b.build (· &&& ·) ≠ d.build (· &&& ·) ∧
    Method.byStack.run .aNotB (~~~b.build (· &&& ·)) =
      Method.byStack.run .aNotB (~~~d.build (· &&& ·)) := by
  intro b d
  obtain ⟨-, -, -, hchain, -, hdiffer⟩ := nesting_is_without_effect .byStack .aNotB
  have hne : b ≠ d := by simp [b, d]
  refine ⟨⟨rfl, hne⟩, (hdiffer b d rfl hne).1, ?_⟩
  -- both are exchanged for the conjunction of the three, at the position below the root
  calc Method.byStack.run .aNotB (~~~b.build (· &&& ·))
      = Method.byStack.run .aNotB (~~~Sentence.conj b.links) :=
        ((hchain b).1.replace (~~~b.build (· &&& ·)) [0] rfl).symm
    _ = Method.byStack.run .aNotB (~~~d.build (· &&& ·)) :=
        ((hchain d).1.replace_back (~~~Sentence.conj d.links) [0] rfl).symm

/-- A chain of two has one bracketing, and that is the junction over the two. -/
theorem chain_of_two_is_a_junction :
    ¬ ∀ b : Bracketing, b.build (· &&& ·) ≠ .conj b.links ∧ b.build (· ||| ·) ≠ .disj b.links :=
  fun h => (h (.join (.link (.atom "a")) (.link (.atom "b")))).1 rfl

end Sentential
