import Mathlib.Data.List.Forall2
import Sentential.Proofs.AtomNames
import Sentential.Proofs.Drafts

/- Full outlines read back. The text of an outline has no brackets: a sentence
   is spread over lines, and only the indents say what stands under what. It is
   recovered in three steps. The text falls into lines at its line feeds, a line
   into indents and a label that does not begin with one (`lines_eq_of_text_eq`),
   and the lines into the root and its arguments, each of which ends where a line
   stands no deeper than its own root (`related_of_lines_eq`). The last step is
   stated for any relation that two sentences with the same label inherit from
   their arguments: what a label says of its node is a matter of the style and
   of the names. -/
namespace Sentential

/-- A label that a line shows as it is: it lies on one line and does not begin
    with an indent. (An empty indent begins every label, so it is excluded.) -/
structure Style.Legible (style : Style) (label : String) : Prop where
  one_line : '\n' ∉ label.toList
  not_indented : ¬ style.indent.toList <+: label.toList

/-- A style whose indent and markers can be told apart in a line. -/
structure Style.Clear (style : Style) : Prop where
  indent : '\n' ∉ style.indent.toList
  marker : ∀ op, style.Legible (style.marker op)

/-! ## Lines from a text -/

theorem cut_at_first {c : Char} {x y xs ys : List Char} (hx : c ∉ x) (hy : c ∉ y)
    (h : x ++ c :: xs = y ++ c :: ys) : x = y ∧ xs = ys := by
  induction x generalizing y with
  | nil =>
    cases y with
    | nil => exact ⟨rfl, (List.cons.inj h).2⟩
    | cons d y =>
      have hd : c = d := (List.cons.inj h).1
      exact absurd (by simp [hd]) hy
  | cons b x ih =>
    cases y with
    | nil =>
      have hb : b = c := (List.cons.inj h).1
      exact absurd (by simp [hb]) hx
    | cons d y =>
      obtain ⟨hbd, htail⟩ := List.cons.inj h
      obtain ⟨hxy, hxs⟩ := ih (fun hc => hx (by simp [hc])) (fun hc => hy (by simp [hc])) htail
      exact ⟨by rw [hbd, hxy], hxs⟩

/-- The line without its line feed. -/
def OutlineLine.body (style : Style) (line : OutlineLine) : List Char :=
  (List.replicate line.level style.indent.toList).flatten ++ line.label.toList

theorem OutlineLine.toList_text (style : Style) (line : OutlineLine) :
    (line.text style).toList = line.body style ++ ['\n'] := by
  rw [text, Text.copies_eq, String.toList_append, String.toList_append, String.toList_join,
    List.flatMap_replicate, body]
  rfl

variable {style : Style}

theorem OutlineLine.feed_not_mem_body (hstyle : style.Clear) {line : OutlineLine}
    (h : style.Legible line.label) : '\n' ∉ line.body style := by
  rw [body, List.mem_append, not_or]
  refine ⟨?_, h.one_line⟩
  intro hmem
  obtain ⟨indent, hindent, hfeed⟩ := List.mem_flatten.mp hmem
  rw [List.eq_of_mem_replicate hindent] at hfeed
  exact hstyle.indent hfeed

theorem indents_inj {indent label label' : List Char} (h : ¬ indent <+: label)
    (h' : ¬ indent <+: label') {m n : Nat}
    (he : (List.replicate m indent).flatten ++ label = (List.replicate n indent).flatten ++ label') :
    m = n ∧ label = label' := by
  induction m generalizing n with
  | zero =>
    cases n with
    | zero => exact ⟨rfl, he⟩
    | succ n =>
      rw [List.replicate_succ, List.flatten_cons, List.append_assoc] at he
      exact absurd ⟨_, he.symm⟩ h
  | succ m ih =>
    rw [List.replicate_succ, List.flatten_cons, List.append_assoc] at he
    cases n with
    | zero => exact absurd ⟨_, he⟩ h'
    | succ n =>
      rw [List.replicate_succ, List.flatten_cons, List.append_assoc] at he
      obtain ⟨hmn, hlabel⟩ := ih (List.append_cancel_left he)
      exact ⟨by rw [hmn], hlabel⟩

theorem OutlineLine.body_inj {line line' : OutlineLine} (h : style.Legible line.label)
    (h' : style.Legible line'.label) (he : line.body style = line'.body style) : line = line' := by
  obtain ⟨hlevel, hlabel⟩ := indents_inj h.not_indented h'.not_indented he
  cases line
  cases line'
  obtain rfl := hlevel
  obtain rfl := String.toList_inj.mp hlabel
  rfl

theorem lines_eq_of_flatMap_eq (hstyle : style.Clear) {ls ls' : List OutlineLine}
    (h : ∀ l ∈ ls, style.Legible l.label) (h' : ∀ l ∈ ls', style.Legible l.label)
    (he : ls.flatMap (fun l => l.body style ++ ['\n']) =
      ls'.flatMap fun l => l.body style ++ ['\n']) : ls = ls' := by
  induction ls generalizing ls' with
  | nil =>
    cases ls' with
    | nil => rfl
    | cons l' ls' => simp at he
  | cons l ls ih =>
    cases ls' with
    | nil => simp at he
    | cons l' ls' =>
      simp only [List.flatMap_cons, List.append_assoc, List.singleton_append] at he
      have hl := h l (by simp)
      have hl' := h' l' (by simp)
      obtain ⟨hbody, hrest⟩ := cut_at_first (OutlineLine.feed_not_mem_body hstyle hl)
        (OutlineLine.feed_not_mem_body hstyle hl') he
      rw [OutlineLine.body_inj hl hl' hbody,
        ih (fun k hk => h k (by simp [hk])) (fun k hk => h' k (by simp [hk])) hrest]

/-- Lines whose labels are legible are determined by their text. -/
theorem lines_eq_of_text_eq (hstyle : style.Clear) {d e : Draft}
    (hd : ∀ l ∈ d.lines, style.Legible l.label) (he : ∀ l ∈ e.lines, style.Legible l.label)
    (h : d.text style = e.text style) : d.lines = e.lines := by
  have htext (d : Draft) :
      (d.text style).toList = d.lines.flatMap fun l => l.body style ++ ['\n'] := by
    rw [Draft.text, String.toList_join, List.flatMap_map]
    simp only [OutlineLine.toList_text]
  refine lines_eq_of_flatMap_eq hstyle hd he ?_
  rw [← htext, ← htext, h]

/-! ## The sentence from its lines -/

namespace Sentence

/-- What holds of a sentence as soon as it holds of its arguments, holds of every
    sentence. -/
theorem induct_children {motive : Sentence → Prop}
    (h : ∀ s, (∀ a ∈ s.children, motive a) → motive s) (s : Sentence) : motive s := by
  induction s with
  | atom name => exact h _ (by simp [children])
  | compound op args ih => exact h _ ih

theorem draft_full_fault (hall : style.allChildren = true) (level : Nat) (s : Sentence) :
    (s.draft style level).fault = none := by
  induction s generalizing level with
  | atom name => rw [draft_atom]; rfl
  | compound op args ih =>
    refine draft_compound_fault_eq_none.mpr ⟨?_, fun a ha => ih a (List.mem_of_mem_take ha) _⟩
    exact Nat.le_of_eq (if_pos hall)

/-- A full outline has the line of the root and then those of the arguments. -/
theorem draft_full_lines (hall : style.allChildren = true) (level : Nat) (s : Sentence) :
    (s.draft style level).lines =
      ⟨level, style.label s⟩ :: s.children.flatMap fun a => (a.draft style (level + 1)).lines := by
  cases s with
  | atom name => rw [draft_atom]; rfl
  | compound op args =>
    have hargs : ∀ d ∈ args.map (draft style (level + 1)), d.fault = none :=
      List.forall_mem_map.mpr fun a _ => draft_full_fault hall (level + 1) a
    have hshown : style.shown op args.length = args.length := if_pos hall
    rw [draft_compound, hshown, List.take_length, Draft.short_of_le (Nat.le_refl _),
      Draft.andThen_empty, Draft.andThen_of_none rfl, Draft.concat_lines hargs, List.flatMap_map]
    rfl

/-- The next line, if there is one, stands no deeper than this level. -/
def Closes (level : Nat) (rest : List OutlineLine) : Prop := ∀ l ∈ rest.head?, l.level ≤ level

theorem Closes.head_le {level : Nat} {l : OutlineLine} {ls : List OutlineLine}
    (h : Closes level (l :: ls)) : l.level ≤ level := h l rfl

theorem closes_arguments (hall : style.allChildren = true) {level : Nat} {rest : List OutlineLine}
    (hrest : Closes level rest) (ss : List Sentence) :
    Closes (level + 1) (ss.flatMap (fun a => (a.draft style (level + 1)).lines) ++ rest) := by
  intro l hl
  cases ss with
  | nil =>
    have hle : l.level ≤ level := hrest l hl
    omega
  | cons s ss =>
    rw [List.flatMap_cons, draft_full_lines hall] at hl
    obtain rfl : ⟨level + 1, style.label s⟩ = l := Option.some.inj hl
    exact Nat.le_refl _

variable {R : Sentence → Sentence → Prop}

theorem related_arguments (hall : style.allChildren = true) {level : Nat} {ss : List Sentence}
    (ih : ∀ a ∈ ss, ∀ t rest rest', Closes (level + 1) rest → Closes (level + 1) rest' →
      (a.draft style (level + 1)).lines ++ rest = (t.draft style (level + 1)).lines ++ rest' →
        R a t ∧ rest = rest')
    {ts : List Sentence} {rest rest' : List OutlineLine} (hrest : Closes level rest)
    (hrest' : Closes level rest')
    (h : ss.flatMap (fun a => (a.draft style (level + 1)).lines) ++ rest =
      ts.flatMap (fun a => (a.draft style (level + 1)).lines) ++ rest') :
    List.Forall₂ R ss ts ∧ rest = rest' := by
  -- a line on the level of the arguments begins another one, any other closes them
  induction ss generalizing ts with
  | nil =>
    cases ts with
    | nil => exact ⟨.nil, h⟩
    | cons t ts =>
      rw [List.flatMap_nil, List.nil_append, List.flatMap_cons, draft_full_lines hall,
        List.cons_append, List.cons_append] at h
      rw [h] at hrest
      exact absurd hrest.head_le (Nat.not_succ_le_self level)
  | cons s ss ihss =>
    cases ts with
    | nil =>
      rw [List.flatMap_nil, List.nil_append, List.flatMap_cons, draft_full_lines hall,
        List.cons_append, List.cons_append] at h
      rw [← h] at hrest'
      exact absurd hrest'.head_le (Nat.not_succ_le_self level)
    | cons t ts =>
      rw [List.flatMap_cons, List.flatMap_cons, List.append_assoc, List.append_assoc] at h
      obtain ⟨hst, hbehind⟩ := ih s (by simp) t _ _ (closes_arguments hall hrest ss)
        (closes_arguments hall hrest' ts) h
      obtain ⟨hargs, hrests⟩ := ihss (fun a ha => ih a (by simp [ha])) hbehind
      exact ⟨.cons hst hargs, hrests⟩

/-- Two sentences with the same full outline are related as soon as that follows
    for any two with the same label from their arguments. -/
theorem related_of_lines_eq (hall : style.allChildren = true)
    (hR : ∀ s t, style.label s = style.label t → List.Forall₂ R s.children t.children → R s t)
    {s t : Sentence} {level : Nat}
    (h : (s.draft style level).lines = (t.draft style level).lines) : R s t := by
  have hread (s : Sentence) : ∀ level t rest rest', Closes level rest → Closes level rest' →
      (s.draft style level).lines ++ rest = (t.draft style level).lines ++ rest' →
        R s t ∧ rest = rest' := by
    induction s using induct_children with
    | h s ih =>
      intro level t rest rest' hrest hrest' h
      rw [draft_full_lines hall, draft_full_lines hall, List.cons_append, List.cons_append] at h
      obtain ⟨hline, hbehind⟩ := List.cons.inj h
      obtain ⟨hargs, hrests⟩ := related_arguments hall
        (fun a ha => ih a ha (level + 1)) hrest hrest' hbehind
      exact ⟨hR s t (congrArg OutlineLine.label hline) hargs, hrests⟩
  have hcloses : Closes level [] := by
    intro l hl
    cases hl
  exact (hread s level t [] [] hcloses hcloses (by rw [List.append_nil, List.append_nil, h])).1

theorem legible_lines (hall : style.allChildren = true) (hstyle : style.Clear) {s : Sentence}
    (hnames : ∀ name, Occurs name s → style.Legible name) (level : Nat) :
    ∀ l ∈ (s.draft style level).lines, style.Legible l.label := by
  induction s generalizing level with
  | atom name =>
    rw [draft_full_lines hall]
    intro l hl
    obtain rfl : l = ⟨level, name⟩ := by simpa [children, Style.label] using hl
    exact hnames name (occurs_atom.mpr rfl)
  | compound op args ih =>
    rw [draft_full_lines hall]
    intro l hl
    rcases List.mem_cons.mp hl with rfl | hl
    · exact hstyle.marker op
    · obtain ⟨a, ha, hl⟩ := List.mem_flatMap.mp hl
      exact ih a ha (fun name h => hnames name (occurs_compound.mpr ⟨a, ha, h⟩)) _ l hl

theorem outline_full (hall : style.allChildren = true) (s : Sentence) :
    s.outline style = .ok ((s.draft style 0).text style) := by
  rw [outline, rendering_eq, draft_full_fault hall]

theorem eq_of_forall₂ {P : Sentence → Prop} {ss ts : List Sentence}
    (h : List.Forall₂ (fun a b => P a → P b → a = b) ss ts) (hs : ∀ a ∈ ss, P a)
    (ht : ∀ b ∈ ts, P b) : ss = ts := by
  induction h with
  | nil => rfl
  | @cons a b ss ts hab _ ih =>
    have hhead : a = b := hab (hs a (by simp)) (ht b (by simp))
    have htail : ss = ts := ih (fun c hc => hs c (by simp [hc])) fun c hc => ht c (by simp [hc])
    rw [hhead, htail]

/-- No name in the sentence is one of the style's markers. -/
def Unmarked (style : Style) (s : Sentence) : Prop :=
  ∀ name, Occurs name s → ∀ op, name ≠ style.marker op

theorem Unmarked.argument {op : Connective} {args : List Sentence}
    (h : Unmarked style (.compound op args)) : ∀ a ∈ args, Unmarked style a :=
  fun a ha name hname => h name (occurs_compound.mpr ⟨a, ha, hname⟩)

/-- Labels tell names from connectives, and the connectives apart. -/
theorem eq_of_labels (hmarker : Function.Injective style.marker) {s t : Sentence}
    (hlabel : style.label s = style.label t)
    (hargs : List.Forall₂ (fun a b => Unmarked style a → Unmarked style b → a = b)
      s.children t.children)
    (hs : Unmarked style s) (ht : Unmarked style t) : s = t := by
  cases s with
  | atom m =>
    cases t with
    | atom n => exact congrArg Sentence.atom hlabel
    | compound op ts => exact absurd hlabel (hs m (occurs_atom.mpr rfl) op)
  | compound op ss =>
    cases t with
    | atom n => exact absurd hlabel.symm (ht n (occurs_atom.mpr rfl) op)
    | compound op' ts =>
      have hop : op = op' := hmarker hlabel
      have hss : ss = ts := eq_of_forall₂ hargs hs.argument ht.argument
      rw [hop, hss]

end Sentence

open Sentence in
/-- In a clear style with three different markers that shows every argument,
    every sentence has an outline, and two sentences whose names are legible and
    no markers have the same only if they are the same. -/
theorem outline_determines_sentence (style : Style) (hall : style.allChildren = true)
    (hstyle : style.Clear) (hmarker : Function.Injective style.marker) :
    (∀ s : Sentence, ∃ text, s.outline style = .ok text) ∧
    ∀ (s t : Sentence) (text : String),
      (∀ name ∈ s.atoms, style.Legible name ∧ ∀ op, name ≠ style.marker op) →
      (∀ name ∈ t.atoms, style.Legible name ∧ ∀ op, name ≠ style.marker op) →
      s.outline style = .ok text → t.outline style = .ok text → s = t := by
  refine ⟨fun s => ⟨_, outline_full hall s⟩, ?_⟩
  simp only [mem_atoms]
  intro s t text hs ht hstext httext
  have hlines : (s.draft style 0).lines = (t.draft style 0).lines := by
    apply lines_eq_of_text_eq hstyle
    · exact legible_lines hall hstyle (fun name h => (hs name h).1) 0
    · exact legible_lines hall hstyle (fun name h => (ht name h).1) 0
    · rw [outline_full hall] at hstext httext
      rw [Except.ok.inj hstext, Except.ok.inj httext]
  exact related_of_lines_eq hall (fun _ _ => eq_of_labels hmarker) hlines
    (fun name h => (hs name h).2) (fun name h => (ht name h).2)

/-- A name that looks like a deeper marker, an empty name and an empty
    conjunction: there is no other sentence with this outline. -/
theorem outline_determines_sentence_with_a_name_like_a_marker :
    let style : Style := { allChildren := true }
    let s : Sentence := .disj [.conj [], .atom " v", .negAll [.atom "a", .atom ""]]
    let text := "v\n  &\n   v\n  ~\n    a\n    \n"
    style.Clear ∧ Function.Injective style.marker ∧
    (∀ name ∈ s.atoms, style.Legible name ∧ ∀ op, name ≠ style.marker op) ∧
    s.outline style = .ok text ∧
    ∀ t : Sentence, (∀ name ∈ t.atoms, style.Legible name ∧ ∀ op, name ≠ style.marker op) →
      t.outline style = .ok text → s = t := by
  intro style s text
  have hstyle : style.Clear := by
    refine ⟨by decide, fun op => ?_⟩
    cases op <;> exact ⟨by decide, by decide⟩
  have hmarker : Function.Injective style.marker := by
    intro op op' h
    cases op <;> cases op' <;> first | rfl | exact absurd h (by decide)
  have hatoms : s.atoms = ["", " v", "a"] := by decide +kernel
  have hnames : ∀ name ∈ s.atoms, style.Legible name ∧ ∀ op, name ≠ style.marker op := by
    rw [hatoms]
    have hall : ∀ name ∈ ["", " v", "a"], ('\n' ∉ name.toList ∧
        ¬ style.indent.toList <+: name.toList) ∧ ∀ op ∈ [Connective.neg, .conj, .disj],
          name ≠ style.marker op := by decide
    intro name h
    obtain ⟨⟨hline, hindent⟩, hop⟩ := hall name h
    exact ⟨⟨hline, hindent⟩, fun op => hop op (by cases op <;> simp)⟩
  have htext : s.outline style = .ok text := by decide +kernel
  refine ⟨hstyle, hmarker, hnames, htext, fun t ht h => ?_⟩
  exact (outline_determines_sentence style rfl hstyle hmarker).2 s t text hnames ht htext h

end Sentential
