import Sentential.Proofs.Pruning
import Sentential.Proofs.ReadingBack

/- Brief outlines read back. A brief outline shows a sentence only in part, and
   its labels need not tell names from connectives: an atom may be named like a
   marker, and the negation may have the marker of a junction. Yet a complete
   one determines all that it shows. It is the full outline of the pruned
   sentence, in which every connective has its usual number of arguments; so
   the lines that stand under a label say what it is, a name with none, a
   negation with one argument or a junction with two, and only the two junctions
   have to be told apart by their markers (`eq_of_usual_arity`). -/
namespace Sentential

theorem Style.brief_eq {style : Style} (h : style.allChildren = false) : style.brief = style := by
  cases style
  cases h
  rfl

variable {style : Style}

theorem Style.legible_full {label : String} : style.full.Legible label ↔ style.Legible label :=
  ⟨fun h => ⟨h.one_line, h.not_indented⟩, fun h => ⟨h.one_line, h.not_indented⟩⟩

theorem Style.Clear.full (h : style.Clear) : style.full.Clear := by
  refine ⟨h.indent, fun op => ?_⟩
  rw [Style.full_marker]
  exact legible_full.mpr (h.marker op)

namespace Sentence

/-- A complete brief outline is the full one of the pruned sentence. -/
theorem draft_lines_of_brief (hbrief : style.allChildren = false) {s : Sentence}
    (h : (s.draft style 0).fault = none) :
    s.prune.UsualArity ∧ (s.draft style 0).lines = (s.prune.draft style.full 0).lines := by
  rw [← Style.brief_eq hbrief] at h
  have hlines := (draft_brief_begins style 0 s).all h
  rw [Style.brief_eq hbrief] at hlines
  exact ⟨(draft_brief_fault_eq_none style 0 s).mp h, hlines⟩

theorem legible_brief_lines (hstyle : style.Clear) {s : Sentence}
    (hnames : ∀ name ∈ s.prune.atoms, style.Legible name) :
    ∀ l ∈ (s.prune.draft style.full 0).lines, style.Legible l.label := by
  simp only [mem_atoms] at hnames
  intro l hl
  apply Style.legible_full.mp
  apply legible_lines rfl hstyle.full ?_ 0 l hl
  intro name hname
  exact Style.legible_full.mpr (hnames name hname)

theorem connective_eq (hjunctions : style.conj ≠ style.disj) {op op' : Connective}
    (hmarker : style.marker op = style.marker op') (harity : op.arity = op'.arity) : op = op' := by
  cases op with
  | neg => cases op' <;> first | rfl | cases harity
  | conj =>
    cases op' with
    | neg => cases harity
    | conj => rfl
    | disj => exact absurd hmarker hjunctions
  | disj =>
    cases op' with
    | neg => cases harity
    | conj => exact absurd hmarker.symm hjunctions
    | disj => rfl

theorem ne_nil_of_usualArity {op : Connective} {args : List Sentence}
    (h : (compound op args).UsualArity) : args ≠ [] := by
  rintro rfl
  have hlen : 0 = op.arity := (usualArity_compound.mp h).1
  cases op <;> cases hlen

/-- Where connectives have their usual number of arguments, a label and what
    stands under it determine a sentence. -/
theorem eq_of_usual_arity (hjunctions : style.conj ≠ style.disj) {s t : Sentence}
    (hlabel : style.label s = style.label t)
    (hargs : List.Forall₂ (fun a b => UsualArity a → UsualArity b → a = b)
      s.children t.children)
    (hs : s.UsualArity) (ht : t.UsualArity) : s = t := by
  cases s with
  | atom m =>
    cases t with
    | atom n => exact congrArg Sentence.atom hlabel
    | compound op ts =>
      cases hargs
      exact absurd rfl (ne_nil_of_usualArity ht)
  | compound op ss =>
    cases t with
    | atom n =>
      cases hargs
      exact absurd rfl (ne_nil_of_usualArity hs)
    | compound op' ts =>
      obtain ⟨hlen, hss⟩ := usualArity_compound.mp hs
      obtain ⟨hlen', hts⟩ := usualArity_compound.mp ht
      have harity : op.arity = op'.arity := by
        rw [← hlen, ← hlen']
        exact hargs.length_eq
      have hop : op = op' := connective_eq hjunctions hlabel harity
      have hargs' : ss = ts := eq_of_forall₂ hargs hss hts
      rw [hop, hargs']

end Sentence

/-- In a clear style that shows the arguments of the usual form only, two
    sentences with the same complete outline are the same as far as it shows
    them. Markers have to differ for the two junctions alone, and a name may be
    a marker. -/
theorem brief_outline_determines_what_it_shows (style : Style)
    (hbrief : style.allChildren = false) (hstyle : style.Clear)
    (hjunctions : style.conj ≠ style.disj) (s t : Sentence) (text : String)
    (hs : ∀ name ∈ s.prune.atoms, style.Legible name)
    (ht : ∀ name ∈ t.prune.atoms, style.Legible name)
    (hstext : s.outline style = .ok text) (httext : t.outline style = .ok text) :
    s.prune = t.prune := by
  obtain ⟨hsfault, hstext⟩ := Sentence.outline_eq_ok.mp hstext
  obtain ⟨htfault, httext⟩ := Sentence.outline_eq_ok.mp httext
  obtain ⟨hsarity, hslines⟩ := Sentence.draft_lines_of_brief hbrief hsfault
  obtain ⟨htarity, htlines⟩ := Sentence.draft_lines_of_brief hbrief htfault
  have hlines : (s.draft style 0).lines = (t.draft style 0).lines := by
    apply lines_eq_of_text_eq hstyle
    · rw [hslines]
      exact Sentence.legible_brief_lines hstyle hs
    · rw [htlines]
      exact Sentence.legible_brief_lines hstyle ht
    · rw [hstext, httext]
  rw [hslines, htlines] at hlines
  have hfull : style.full.conj ≠ style.full.disj := hjunctions
  exact Sentence.related_of_lines_eq rfl (fun _ _ => Sentence.eq_of_usual_arity hfull) hlines
    hsarity htarity

/-- Three lines say `v`, and no two of them the same: a disjunction, a negation
    with the same marker and a name. The third argument is not shown, so it may
    be any. -/
theorem brief_outline_determines_what_it_shows_with_equal_labels :
    let style : Style := { neg := "v" }
    let s : Sentence := .disj [.neg (.atom "v"), .conj [.atom "&", .atom ""], .atom "\n"]
    let text := "v\n  v\n    v\n  &\n    &\n    \n"
    style.Clear ∧ style.conj ≠ style.disj ∧ (∀ name ∈ s.prune.atoms, style.Legible name) ∧
    s.outline style = .ok text ∧
    ∀ t : Sentence, (∀ name ∈ t.prune.atoms, style.Legible name) → t.outline style = .ok text →
      .disj [.neg (.atom "v"), .conj [.atom "&", .atom ""]] = t.prune := by
  intro style s text
  have hstyle : style.Clear := by
    refine ⟨by decide, fun op => ?_⟩
    cases op <;> exact ⟨by decide, by decide⟩
  have hjunctions : style.conj ≠ style.disj := by decide
  have hatoms : s.prune.atoms = ["", "&", "v"] := by decide +kernel
  have hnames : ∀ name ∈ s.prune.atoms, style.Legible name := by
    rw [hatoms]
    have hall : ∀ name ∈ ["", "&", "v"], '\n' ∉ name.toList ∧
        ¬ style.indent.toList <+: name.toList := by decide
    intro name h
    exact ⟨(hall name h).1, (hall name h).2⟩
  have htext : s.outline style = .ok text := by decide +kernel
  refine ⟨hstyle, hjunctions, hnames, htext, fun t ht h => ?_⟩
  exact brief_outline_determines_what_it_shows style rfl hstyle hjunctions s t text hnames ht
    htext h

end Sentential
