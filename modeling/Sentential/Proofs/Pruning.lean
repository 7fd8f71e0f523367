import Sentential.Proofs.Drafts

/- The two ways of showing arguments. A brief outline shows as many as the
   connective has in its usual form, a full one all there are. What a brief
   outline never shows can be taken off the sentence at every level (`prune`)
   without any sink noticing (`draft_brief_prune`), and then the two ways differ
   only where an argument is missing: the brief outline is the beginning of the
   full one of the pruned sentence (`draft_brief_begins`), and all of it exactly
   when every connective left in it has its usual number of arguments
   (`draft_brief_fault_eq_none`). -/
namespace Sentential

namespace Style

/-- The style with only the arguments of the usual form shown. -/
def brief (style : Style) : Style := { style with allChildren := false }

/-- The style with every argument shown. -/
def full (style : Style) : Style := { style with allChildren := true }

@[simp] theorem brief_shown (style : Style) (op : Connective) (given : Nat) :
    style.brief.shown op given = op.arity := rfl

@[simp] theorem full_shown (style : Style) (op : Connective) (given : Nat) :
    style.full.shown op given = given := rfl

@[simp] theorem brief_marker (style : Style) (op : Connective) :
    style.brief.marker op = style.marker op := by cases op <;> rfl

@[simp] theorem full_marker (style : Style) (op : Connective) :
    style.full.marker op = style.marker op := by cases op <;> rfl

end Style

namespace Sentence

mutual

/-- The sentence with the first argument of every negation and the first two of
    every junction, at every level. -/
def prune : Sentence → Sentence
  | .atom name => .atom name
  | .compound op args => .compound op (pruneFirst op.arity args)

/-- The first sentences of a list, pruned. -/
def pruneFirst : Nat → List Sentence → List Sentence
  | 0, _ => []
  | _ + 1, [] => []
  | wanted + 1, arg :: rest => prune arg :: pruneFirst wanted rest

end

theorem pruneFirst_eq_map (wanted : Nat) (args : List Sentence) :
    pruneFirst wanted args = (args.take wanted).map prune := by
  induction args generalizing wanted with
  | nil => cases wanted <;> rw [pruneFirst] <;> rfl
  | cons arg rest ih =>
    cases wanted with
    | zero => rw [pruneFirst]; rfl
    | succ wanted => rw [pruneFirst, ih, List.take_succ_cons, List.map_cons]

theorem prune_compound (op : Connective) (args : List Sentence) :
    prune (.compound op args) = .compound op ((args.take op.arity).map prune) := by
  rw [prune, pruneFirst_eq_map]

/-- Every connective in the sentence has its usual number of arguments. -/
def UsualArity (s : Sentence) : Prop :=
  ∀ p t, s.at? p = some t → ∀ op args, t = .compound op args → args.length = op.arity

theorem usualArity_atom (name : String) : UsualArity (.atom name) := by
  refine forall_at?_atom.mpr ?_
  intro op args h
  cases h

theorem usualArity_compound {op : Connective} {args : List Sentence} :
    UsualArity (.compound op args) ↔ args.length = op.arity ∧ ∀ a ∈ args, UsualArity a := by
  refine forall_at?_compound.trans (and_congr_left' ?_)
  refine ⟨?_, ?_⟩
  · intro h
    exact h op args rfl
  · intro h op' args' he
    cases he
    exact h

/-- Built from atoms by `~~~`, `&&&` and `|||` alone. -/
inductive OfOperators : Sentence → Prop
  | atom (name : String) : OfOperators (.atom name)
  | complement {s : Sentence} : OfOperators s → OfOperators (~~~s)
  | and {s t : Sentence} : OfOperators s → OfOperators t → OfOperators (s &&& t)
  | or {s t : Sentence} : OfOperators s → OfOperators t → OfOperators (s ||| t)

theorem OfOperators.usualArity {s : Sentence} (h : OfOperators s) : s.UsualArity := by
  induction h with
  | atom name => exact usualArity_atom name
  | complement _ ih =>
    refine usualArity_compound.mpr ⟨rfl, ?_⟩
    simpa using ih
  | and _ _ ihs iht | or _ _ ihs iht =>
    refine usualArity_compound.mpr ⟨rfl, ?_⟩
    simpa using ⟨ihs, iht⟩

theorem UsualArity.prune_eq {s : Sentence} (h : s.UsualArity) : s.prune = s := by
  induction s with
  | atom name => rw [prune]
  | compound op args ih =>
    obtain ⟨hlen, hargs⟩ := usualArity_compound.mp h
    rw [prune_compound, List.take_of_length_le (Nat.le_of_eq hlen)]
    congr 1
    calc args.map prune = args.map id := List.map_congr_left fun a ha => ih a ha (hargs a ha)
      _ = args := List.map_id args

end Sentence

/-! ## Pruning is not seen in a brief outline -/

theorem Draft.short_min (op : Connective) (wanted given : Nat) :
    short op wanted (min wanted given) = short op wanted given := by
  rcases Nat.lt_or_ge given wanted with h | h
  · rw [Nat.min_eq_right (Nat.le_of_lt h)]
  · rw [short_of_le h, Nat.min_eq_left h, short_of_le (Nat.le_refl wanted)]

theorem Sentence.draft_brief_prune (style : Style) (level : Nat) (s : Sentence) :
    s.prune.draft style.brief level = s.draft style.brief level := by
  induction s generalizing level with
  | atom name => rw [prune]
  | compound op args ih =>
    have hargs : ((args.take op.arity).map prune).map (draft style.brief (level + 1)) =
        (args.take op.arity).map (draft style.brief (level + 1)) := by
      rw [List.map_map]
      exact List.map_congr_left fun a ha => ih a (List.mem_of_mem_take ha) (level + 1)
    have hlen : ((args.take op.arity).map prune).length = min op.arity args.length := by
      rw [List.length_map, List.length_take]
    have htake : ((args.take op.arity).map prune).take op.arity = (args.take op.arity).map prune :=
      List.take_of_length_le (by omega)
    rw [prune_compound, draft_compound, draft_compound]
    simp only [Style.brief_shown]
    rw [htake, hargs, hlen, Draft.short_min]

/-! ## A brief outline is the beginning of a full one -/

namespace Draft

/-- `e` is complete, `d` has the first of its lines, and all of them if `d` is
    complete too. -/
structure Begins (d e : Draft) : Prop where
  complete : e.fault = none
  lines : d.lines <+: e.lines
  all : d.fault = none → d.lines = e.lines

variable {d e d' e' : Draft}

theorem Begins.refl (h : d.fault = none) : d.Begins d := ⟨h, List.prefix_refl _, fun _ => rfl⟩

theorem short_begins (op : Connective) (wanted given : Nat) : (short op wanted given).Begins {} :=
  ⟨rfl, List.prefix_refl _, fun _ => rfl⟩

theorem Begins.andThen (h : d.Begins e) (h' : d'.Begins e') :
    (d.andThen d').Begins (e.andThen e') := by
  rw [andThen_of_none h.complete]
  cases hd : d.fault with
  | none =>
    rw [andThen_of_none hd, h.all hd]
    refine ⟨h'.complete, (List.prefix_append_right_inj _).mpr h'.lines, fun hd' => ?_⟩
    rw [h'.all hd']
  | some f =>
    -- the first stops with a fault, so the second is not part of it
    rw [andThen_of_some hd]
    refine ⟨h'.complete, h.lines.trans (List.prefix_append _ _), fun hd' => ?_⟩
    rw [hd] at hd'
    cases hd'

theorem Begins.concat {f g : Sentence → Draft} {ss : List Sentence}
    (h : ∀ s ∈ ss, (f s).Begins (g s)) : (concat (ss.map f)).Begins (concat (ss.map g)) := by
  induction ss with
  | nil => exact .refl rfl
  | cons s ss ih => exact (h s (by simp)).andThen (ih fun t ht => h t (by simp [ht]))

theorem Begins.text (h : d.Begins e) (style : Style) : ∃ rest, e.text style = d.text style ++ rest := by
  obtain ⟨lines, hlines⟩ := h.lines
  refine ⟨String.join (lines.map (·.text style)), ?_⟩
  rw [Draft.text, Draft.text, ← hlines, List.map_append, String.join_append]

end Draft

namespace Sentence

theorem draft_brief_begins (style : Style) (level : Nat) (s : Sentence) :
    (s.draft style.brief level).Begins (s.prune.draft style.full level) := by
  induction s generalizing level with
  | atom name =>
    rw [prune, draft_atom, draft_atom]
    exact .refl rfl
  | compound op args ih =>
    have hargs : (Draft.concat ((args.take op.arity).map (draft style.brief (level + 1)))).Begins
        (Draft.concat ((args.take op.arity).map fun a => a.prune.draft style.full (level + 1))) :=
      .concat fun a ha => ih a (List.mem_of_mem_take ha) (level + 1)
    rw [prune_compound, draft_compound, draft_compound]
    simp only [Style.brief_shown, Style.full_shown, Style.brief_marker, Style.full_marker,
      List.take_length, List.map_map]
    rw [Draft.short_of_le (Nat.le_refl (List.length _))]
    exact (Draft.Begins.refl rfl).andThen (hargs.andThen (Draft.short_begins op _ _))

theorem draft_brief_fault_eq_none (style : Style) (level : Nat) (s : Sentence) :
    (s.draft style.brief level).fault = none ↔ s.prune.UsualArity := by
  induction s generalizing level with
  | atom name =>
    rw [prune, draft_atom]
    exact ⟨fun _ => usualArity_atom name, fun _ => rfl⟩
  | compound op args ih =>
    rw [draft_compound_fault_eq_none, prune_compound, usualArity_compound, Style.brief_shown,
      List.length_map, List.length_take, List.forall_mem_map]
    refine and_congr ?_ ?_
    · omega
    · exact forall₂_congr fun a ha => ih a (List.mem_of_mem_take ha) (level + 1)

end Sentence

/-- Pruned or not, a sentence has the same brief outline in every sink. The text
    of that outline begins the full outline of the pruned sentence, which is
    always complete; it is complete itself exactly when every connective left
    has its usual number of arguments, and then the two texts are one. So for a
    sentence of operators there is no difference between brief and full. -/
theorem brief_outline_begins_the_full_one (style : Style) (level : Nat) (s : Sentence) :
    (∀ (σ : Type) [Sink σ], (s.write style.brief level : Writer σ Unit) =
      s.prune.write style.brief level) ∧
    (s.prune.rendering style.full level).error = none ∧
    (∃ rest, (s.prune.rendering style.full level).text =
      (s.rendering style.brief level).text ++ rest) ∧
    ((s.rendering style.brief level).error = none ↔ s.prune.UsualArity) ∧
    (s.prune.UsualArity →
      (s.prune.rendering style.full level).text = (s.rendering style.brief level).text) ∧
    (s.OfOperators → (s.rendering style.brief level).error = none ∧
      s.rendering style.full level = s.rendering style.brief level) := by
  have hbegins := s.draft_brief_begins style level
  have hfault := s.draft_brief_fault_eq_none style level
  have hwhole (h : s.prune.UsualArity) :
      s.prune.rendering style.full level = s.rendering style.brief level := by
    rw [Sentence.rendering_eq, Sentence.rendering_eq, hbegins.complete, hfault.mpr h]
    have hlines := hbegins.all (hfault.mpr h)
    simp only [Draft.text, hlines]
    rfl
  refine ⟨?_, ?_, ?_, ?_, ?_, ?_⟩
  · intro σ _
    rw [Sentence.write_eq_put, Sentence.write_eq_put, Sentence.draft_brief_prune]
  · rw [Sentence.rendering_eq]
    exact hbegins.complete
  · rw [Sentence.rendering_eq, Sentence.rendering_eq]
    exact hbegins.text style
  · rw [Sentence.rendering_eq]
    exact hfault
  · intro h
    rw [hwhole h]
  · intro h
    have hprune : s.prune = s := h.usualArity.prune_eq
    have husual : s.prune.UsualArity := by
      rw [hprune]
      exact h.usualArity
    have hsame := hwhole husual
    rw [hprune] at hsame
    refine ⟨?_, hsame⟩
    rw [Sentence.rendering_eq]
    exact hfault.mpr husual

/-- A conjunction with one argument ends the brief outline inside a disjunction,
    whose third argument is never shown; the full outline of the pruned sentence
    goes on. In a sentence of operators there is nothing to take off. -/
theorem brief_outline_begins_the_full_one_in_a_disjunction :
    let s : Sentence := .disj [.conj [.atom "a"], .atom "b", .atom "c"]
    let t : Sentence := ~~~((.atom "a" : Sentence) ||| .atom "b")
    s.prune = .disj [.conj [.atom "a"], .atom "b"] ∧
    s.rendering ({} : Style).brief 0 = ⟨"v\n  &\n    a\n", some (.missingChild .conj 1)⟩ ∧
    ¬ s.prune.UsualArity ∧
    (∃ rest, (s.prune.rendering ({} : Style).full 0).text = "v\n  &\n    a\n" ++ rest) ∧
    t.prune.UsualArity ∧
    (t.prune.rendering ({} : Style).full 3).text = (t.rendering ({} : Style).brief 3).text ∧
    t.OfOperators ∧ (t.rendering ({} : Style).brief 3).error = none ∧
    t.rendering ({} : Style).full 3 = t.rendering ({} : Style).brief 3 := by
  intro s t
  have hs : s.rendering ({} : Style).brief 0 =
      ⟨"v\n  &\n    a\n", some (.missingChild .conj 1)⟩ := by decide +kernel
  obtain ⟨-, -, hrest, hiff, -, -⟩ := brief_outline_begins_the_full_one {} 0 s
  rw [hs] at hrest hiff
  have ht : t.OfOperators := .complement (.or (.atom "a") (.atom "b"))
  have husual : t.prune.UsualArity := by
    rw [ht.usualArity.prune_eq]
    exact ht.usualArity
  obtain ⟨-, -, -, -, hwhole, hops⟩ := brief_outline_begins_the_full_one {} 3 t
  refine ⟨rfl, hs, ?_, hrest, husual, hwhole husual, ht, hops ht⟩
  intro h
  cases hiff.mpr h

end Sentential
