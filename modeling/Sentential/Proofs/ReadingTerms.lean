import Sentential.Proofs.QuotedText
import Sentential.Proofs.ReadingBack
import Sentential.Sentence.Term

/- Terms read back. A term shows its sentence in both layouts, whatever the
   names are: a quoted name ends where its closing quote stands, the constructor
   tells the kind, and a list ends at the bracket that begins none of its
   members. For the compact layout this is said of characters
   (`term_readsBack`). The expanded layout is first taken apart into lines, as an
   outline with four spaces to the level would be, since a quoted name stays on
   one line (`termLines_of_expandedTerm`); of lines the same is said as of
   characters (`termLines_readsBack`). There a member of a list stands one level
   deeper than the bracket behind it. -/
namespace Sentential
open Text

/-! ## Constructors -/

/-- How the term of a sentence of this kind begins. -/
def Kind.opening (k : Kind) : List Char := k.name.toList ++ ['(']

theorem Kind.opening_readsBack (k : Kind) : ReadsBack opening k := by
  intro l x y h
  cases k <;> cases l <;> simp [opening, name] at h ⊢ <;> exact h

theorem Kind.eq_of_opening {k l : Kind} (h : k.name ++ "(" = l.name ++ "(") : k = l := by
  have hopening : k.opening ++ [] = l.opening ++ [] := by
    have htext := congrArg String.toList h
    rw [String.toList_append, String.toList_append] at htext
    rw [List.append_nil, List.append_nil]
    exact htext
  exact (k.opening_readsBack l [] [] hopening).1

namespace Sentence

/-! ## The compact layout -/

theorem terms_eq_map (args : List Sentence) : terms args = args.map term := by
  induction args with
  | nil => rfl
  | cons a args ih => rw [terms, ih, List.map_cons]

/-- What stands behind the parenthesis that opens a term. -/
def termBody : Sentence → List Char
  | .atom name => (quoted name).toList ++ [')']
  | .compound _ args =>
    '[' :: ([',', ' '].intercalate (args.map fun a => a.term.toList) ++ [']', ')'])

theorem toList_term (s : Sentence) : s.term.toList = s.kind.opening ++ s.termBody := by
  cases s with
  | atom name =>
    rw [term]
    simp [Kind.opening, kind, termBody]
  | compound op args =>
    rw [term, terms_eq_map]
    simp [Kind.opening, kind, termBody, String.toList_intercalate, Function.comp_def]

/-- A term begins with the letter of its constructor. -/
theorem term_append_ne_bracket (s : Sentence) (x y : List Char) :
    s.term.toList ++ x ≠ ']' :: y := by
  rw [toList_term]
  cases s.kind <;> simp [Kind.opening, Kind.name]

/-- The term of a sentence shows where it ends and what the sentence is. -/
theorem term_readsBack (s : Sentence) : ReadsBack (fun s => s.term.toList) s := by
  induction s with
  | atom name =>
    intro t x y h
    simp only [toList_term, List.append_assoc] at h
    obtain ⟨hkind, hbody⟩ := Kind.opening_readsBack _ _ _ _ h
    cases t with
    | atom name' =>
      simp only [termBody, List.append_assoc] at hbody
      obtain ⟨rfl, hrest⟩ := quoted_readsBack name name' _ _ hbody
      exact ⟨rfl, List.append_cancel_left hrest⟩
    | compound op' args' => exact absurd hkind.symm op'.kind_ne_atom
  | compound op args ih =>
    intro t x y h
    simp only [toList_term, List.append_assoc] at h
    obtain ⟨hkind, hbody⟩ := Kind.opening_readsBack _ _ _ _ h
    cases t with
    | atom name' => exact absurd hkind op.kind_ne_atom
    | compound op' args' =>
      obtain rfl : op = op' := Connective.eq_of_kind hkind
      simp only [termBody, List.cons_append, List.append_assoc] at hbody
      obtain ⟨hargs, hrest⟩ := intercalate_append_inj (by simp)
        term_append_ne_bracket ih (List.tail_eq_of_cons_eq hbody)
      exact ⟨by rw [hargs], List.tail_eq_of_cons_eq hrest⟩

/-! ## The text of the expanded layout in lines -/

/-- An outline in this style is set in as a term is. -/
def termStyle : Style := { indent := "    " }

/-- A line of a term as a line of an outline. -/
def TermLine.drawn (l : TermLine) : OutlineLine := ⟨l.level, l.text⟩

theorem TermLine.toList_render (l : TermLine) : l.render.toList = l.drawn.body termStyle := by
  rw [render, Text.copies_eq, String.toList_append, String.toList_join, List.flatMap_replicate,
    OutlineLine.body]
  rfl

theorem termStyle_legible {label : String} (hfeed : '\n' ∉ label.toList)
    (hhead : label.toList.head? ≠ some ' ') : termStyle.Legible label := by
  refine ⟨hfeed, ?_⟩
  intro ⟨rest, hrest⟩
  rw [← hrest] at hhead
  exact hhead rfl

theorem termStyle_clear : termStyle.Clear where
  indent := by decide
  marker op := by cases op <;> exact termStyle_legible (by decide) (by decide)

/-! ## The lines of a term -/

theorem argLines_eq_flatMap (level : Nat) (args : List Sentence) :
    argLines level args = args.flatMap (termLines level ",") := by
  induction args with
  | nil => rfl
  | cons a args ih => rw [argLines, ih, List.flatMap_cons]

/-- The lines of a list of arguments whose brackets stand at the given level. -/
def listLines (level : Nat) : List Sentence → List TermLine
  | [] => [⟨level, "[],"⟩]
  | args => ⟨level, "["⟩ :: (args.flatMap (termLines (level + 1) ",") ++ [⟨level, "],"⟩])

/-- The lines between the two parentheses of a term. -/
def innerLines (level : Nat) : Sentence → List TermLine
  | .atom name => [⟨level, quoted name ++ ","⟩]
  | .compound _ args => listLines level args

theorem termLines_eq (level : Nat) (tail : String) (s : Sentence) :
    s.termLines level tail =
      ⟨level, s.kind.name ++ "("⟩ :: (s.innerLines (level + 1) ++ [⟨level, ")" ++ tail⟩]) := by
  match s with
  | .atom name => rfl
  | .compound op [] => rfl
  | .compound op (a :: args) =>
    rw [termLines, argLines_eq_flatMap]
    · simp [innerLines, listLines, kind]
    · simp

/-! ## The text falls into its lines -/

theorem legible_listLines {args : List Sentence} {level : Nat}
    (h : ∀ a ∈ args, ∀ l ∈ a.termLines (level + 1) ",", termStyle.Legible l.text) :
    ∀ l ∈ listLines level args, termStyle.Legible l.text := by
  have hbracket {text : String} (h : text = "[]," ∨ text = "[" ∨ text = "],") :
      termStyle.Legible text := by
    rcases h with rfl | rfl | rfl <;> exact termStyle_legible (by decide) (by decide)
  cases args with
  | nil => exact List.forall_mem_singleton.mpr (hbracket (.inl rfl))
  | cons a args =>
    simp only [listLines, List.forall_mem_cons, List.forall_mem_append]
    refine ⟨hbracket (.inr (.inl rfl)), ?_, hbracket (.inr (.inr rfl)), by simp⟩
    intro l hl
    obtain ⟨b, hb, hl⟩ := List.mem_flatMap.mp hl
    exact h b hb l hl

theorem legible_termLines {s : Sentence} {level : Nat} {tail : String}
    (htail : termStyle.Legible (")" ++ tail)) :
    ∀ l ∈ s.termLines level tail, termStyle.Legible l.text := by
  have hopening (k : Kind) : termStyle.Legible (k.name ++ "(") := by
    cases k <;> exact termStyle_legible (by decide) (by decide)
  induction s generalizing level tail with
  | atom name =>
    have hname : termStyle.Legible (quoted name ++ ",") := by
      apply termStyle_legible
      · rw [String.toList_append, List.mem_append, not_or]
        exact ⟨feed_not_mem_quoted name, by decide⟩
      · rw [String.toList_append, toList_quoted]
        simp
    simp [termLines_eq, innerLines, hopening, hname, htail]
  | compound op args ih =>
    have hcomma : termStyle.Legible (")" ++ ",") := termStyle_legible (by decide) (by decide)
    have hargs : ∀ l ∈ listLines (level + 1) args, termStyle.Legible l.text :=
      legible_listLines fun a ha => ih a ha hcomma
    rw [termLines_eq]
    simp only [List.forall_mem_cons, List.forall_mem_append]
    exact ⟨hopening _, hargs, htail, by simp⟩

/-- The text of the expanded layout determines its lines. -/
theorem termLines_of_expandedTerm {s t : Sentence} (h : s.expandedTerm = t.expandedTerm) :
    s.termLines 0 "" = t.termLines 0 "" := by
  have htext (s : Sentence) : s.expandedTerm.toList ++ ['\n'] =
      ((s.termLines 0 "").map TermLine.drawn).flatMap fun l => l.body termStyle ++ ['\n'] := by
    rw [expandedTerm, String.toList_intercalate, List.map_map, List.flatMap_map]
    show ['\n'].intercalate _ ++ ['\n'] = _
    rw [intercalate_append_sep _ (by simp [termLines_eq]), List.flatMap_map]
    simp only [Function.comp_apply, TermLine.toList_render]
  have hlegible (s : Sentence) :
      ∀ l ∈ (s.termLines 0 "").map TermLine.drawn, termStyle.Legible l.label :=
    List.forall_mem_map.mpr (legible_termLines (termStyle_legible (by decide) (by decide)))
  have hdrawn : Function.Injective TermLine.drawn := by
    intro l m hlm
    cases l
    cases m
    cases hlm
    rfl
  apply hdrawn.list_map
  apply lines_eq_of_flatMap_eq termStyle_clear (hlegible s) (hlegible t)
  rw [← htext, ← htext, h]

/-! ## The sentence from its lines -/

theorem listLines_readsBack {args : List Sentence}
    (h : ∀ a ∈ args, ∀ level tail, ReadsBack (termLines level tail) a) (level : Nat) :
    ReadsBack (listLines level) args := by
  intro args' x y hxy
  cases args with
  | nil =>
    cases args' with
    | nil => exact ⟨rfl, List.tail_eq_of_cons_eq hxy⟩
    | cons b args' => simp [listLines] at hxy
  | cons a args =>
    cases args' with
    | nil => simp [listLines] at hxy
    | cons b args' =>
      -- a member stands one level deeper than the bracket that closes the list
      have hclose (c : Sentence) (x y : List TermLine) :
          c.termLines (level + 1) "," ++ x ≠ ⟨level, "],"⟩ :: y := by
        rw [termLines_eq]
        simp
      simp only [listLines, List.cons_append, List.append_assoc] at hxy
      exact flatMap_append_inj hclose (fun c hc => h c hc _ _) (List.tail_eq_of_cons_eq hxy)

/-- The lines of a term show where they end and what the sentence is. -/
theorem termLines_readsBack (s : Sentence) (level : Nat) (tail : String) :
    ReadsBack (termLines level tail) s := by
  induction s generalizing level tail with
  | atom name =>
    intro t x y h
    simp only [termLines_eq, List.cons_append, List.append_assoc, List.cons.injEq,
      TermLine.mk.injEq, true_and] at h
    obtain ⟨hkind, hbody⟩ := h
    cases t with
    | atom name' =>
      simp only [innerLines, List.cons_append, List.nil_append, List.cons.injEq,
        TermLine.mk.injEq, true_and] at hbody
      obtain ⟨hname, hrest⟩ := hbody
      have htext := congrArg String.toList hname
      rw [String.toList_append, String.toList_append] at htext
      obtain ⟨rfl, -⟩ := quoted_readsBack name name' _ _ htext
      exact ⟨rfl, hrest⟩
    | compound op' args' => exact absurd (Kind.eq_of_opening hkind).symm op'.kind_ne_atom
  | compound op args ih =>
    intro t x y h
    simp only [termLines_eq, List.cons_append, List.append_assoc, List.cons.injEq,
      TermLine.mk.injEq, true_and] at h
    obtain ⟨hkind, hbody⟩ := h
    cases t with
    | atom name' => exact absurd (Kind.eq_of_opening hkind) op.kind_ne_atom
    | compound op' args' =>
      obtain rfl : op = op' := Connective.eq_of_kind (Kind.eq_of_opening hkind)
      obtain ⟨hargs, hrest⟩ := listLines_readsBack ih (level + 1) _ _ _ hbody
      exact ⟨by rw [hargs], List.tail_eq_of_cons_eq hrest⟩

end Sentence

/-- Two sentences have the same term only if they are the same, in either layout.
    So where the compact terms are equal the expanded ones are, and conversely. -/
theorem terms_determine_sentence (s t : Sentence) :
    (s.term = t.term ↔ s = t) ∧ (s.expandedTerm = t.expandedTerm ↔ s = t) ∧
    (s.term = t.term ↔ s.expandedTerm = t.expandedTerm) := by
  have hcompact : s.term = t.term ↔ s = t := by
    refine ⟨fun h => ?_, fun h => by rw [h]⟩
    have htext : s.term.toList ++ [] = t.term.toList ++ [] := by rw [h]
    exact (s.term_readsBack t [] [] htext).1
  have hexpanded : s.expandedTerm = t.expandedTerm ↔ s = t := by
    refine ⟨fun h => ?_, fun h => by rw [h]⟩
    have hlines : s.termLines 0 "" ++ [] = t.termLines 0 "" ++ [] := by
      rw [Sentence.termLines_of_expandedTerm h]
    exact (s.termLines_readsBack 0 "" t [] [] hlines).1
  exact ⟨hcompact, hexpanded, hcompact.trans hexpanded.symm⟩

/-- A name that looks like two names in a list is one name. -/
example : (Sentence.conj [.atom "a\"), Atom(\"b"]).term =
    "And([Atom(\"a\\\"), Atom(\\\"b\")])" := by decide +kernel

end Sentential
