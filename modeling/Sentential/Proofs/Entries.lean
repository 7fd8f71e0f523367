import Mathlib.Data.List.TakeDrop
import Mathlib.Data.List.TakeWhile
import Sentential.Assignment.Entry

/- What an entry of an assignment text looks like. `Spells part entry` says it by
   giving the part: white space, the name, white space, an equals sign, white
   space, the value, white space, where the name has no equals sign and no white
   space at its ends. Reading a part is nothing else (`parseEntry_eq_ok`): the
   first equals sign is the only one that can stand behind the name, and trimming
   finds the one text that is left of a half when the white space around it is
   taken off (`trim_eq_iff`). A part that spells no entry is at fault for its
   value, or for having no equals sign (`parseEntry_eq_error`). -/
namespace Sentential

namespace Text

/-- White space and nothing else. -/
def Blank (cs : List Char) : Prop := ∀ c ∈ cs, isBlank c = true

/-- Neither begins nor ends with white space. -/
def Trimmed (cs : List Char) : Prop :=
  (∀ c ∈ cs.head?, isBlank c = false) ∧ ∀ c ∈ cs.getLast?, isBlank c = false

theorem Blank.reverse {cs : List Char} (h : Blank cs) : Blank cs.reverse :=
  fun c hc => h c (List.mem_reverse.mp hc)

theorem Trimmed.reverse {cs : List Char} (h : Trimmed cs) : Trimmed cs.reverse := by
  refine ⟨?_, ?_⟩
  · rw [List.head?_reverse]
    exact h.2
  · rw [List.getLast?_reverse]
    exact h.1

theorem exists_blank_append (cs : List Char) : ∃ w, Blank w ∧ cs = w ++ cs.dropWhile isBlank :=
  ⟨cs.takeWhile isBlank, fun _ hc => List.mem_takeWhile_imp hc,
    List.takeWhile_append_dropWhile.symm⟩

theorem not_blank_of_head_dropWhile (cs : List Char) :
    ∀ c ∈ (cs.dropWhile isBlank).head?, isBlank c = false := by
  intro c hc
  have hnot := List.head?_dropWhile_not isBlank cs
  rw [hc] at hnot
  exact hnot

theorem dropWhile_blank_append {w cs : List Char} (hw : Blank w)
    (h : ∀ c ∈ cs.head?, isBlank c = false) : (w ++ cs).dropWhile isBlank = cs := by
  rw [List.dropWhile_append_of_pos hw]
  cases cs with
  | nil => rfl
  | cons c cs => rw [List.dropWhile_cons, h c rfl, if_neg (by simp)]

theorem trim_append {w t w' : List Char} (hw : Blank w) (ht : Trimmed t) (hw' : Blank w') :
    trim (w ++ t ++ w') = t := by
  cases t with
  | nil =>
    have hall : (w ++ [] ++ w').dropWhile isBlank = [] := by
      rw [List.dropWhile_eq_nil_iff]
      intro c hc
      rw [List.append_nil, List.mem_append] at hc
      exact hc.elim (hw c) (hw' c)
    rw [trim, hall]
    rfl
  | cons c t =>
    have hfront : (w ++ (c :: t) ++ w').dropWhile isBlank = c :: t ++ w' := by
      rw [List.append_assoc]
      exact dropWhile_blank_append hw ht.1
    have hback : (c :: t ++ w').reverse.dropWhile isBlank = (c :: t).reverse := by
      rw [List.reverse_append]
      exact dropWhile_blank_append hw'.reverse ht.reverse.1
    rw [trim, hfront, hback, List.reverse_reverse]

/-- Trimming leaves the one text that is not bounded by white space and has
    nothing else around it. -/
theorem trim_eq_iff {cs t : List Char} :
    trim cs = t ↔ ∃ w w', Blank w ∧ Trimmed t ∧ Blank w' ∧ cs = w ++ t ++ w' := by
  refine ⟨?_, ?_⟩
  · rintro rfl
    obtain ⟨w, hw, hcs⟩ := exists_blank_append cs
    obtain ⟨w', hw', hback⟩ := exists_blank_append (cs.dropWhile isBlank).reverse
    have hrest : cs.dropWhile isBlank = trim cs ++ w'.reverse := by
      rw [trim, ← List.reverse_append, ← hback, List.reverse_reverse]
    -- the first character left by both cuts is the one that the front cut stopped at
    refine ⟨w, w'.reverse, hw, ⟨?_, ?_⟩, hw'.reverse, ?_⟩
    · intro c hc
      refine not_blank_of_head_dropWhile cs c ?_
      rw [hrest, List.head?_append, hc]
      rfl
    · intro c hc
      rw [trim, List.getLast?_reverse] at hc
      exact not_blank_of_head_dropWhile _ c hc
    · rw [List.append_assoc, ← hrest]
      exact hcs
  · rintro ⟨w, w', hw, ht, hw', rfl⟩
    exact trim_append hw ht hw'

end Text

open Text

/-- The part is the entry's name and value with an equals sign between them, and
    white space around both that does not count. -/
def Spells (part : List Char) (entry : String × Bool) : Prop :=
  ∃ w₁ w₂ w₃ w₄, Blank w₁ ∧ Blank w₂ ∧ Blank w₃ ∧ Blank w₄ ∧
    '=' ∉ entry.1.toList ∧ Trimmed entry.1.toList ∧
    part = w₁ ++ entry.1.toList ++ w₂ ++ '=' :: (w₃ ++ (truthWord entry.2).toList ++ w₄)

theorem trimmed_truthWord (b : Bool) : Trimmed (truthWord b).toList := by
  have hfirst : (truthWord b).toList.head? = some (if b then 't' else 'f') := by
    cases b <;> rfl
  have hlast : (truthWord b).toList.getLast? = some 'e' := by
    cases b <;> rfl
  refine ⟨?_, ?_⟩
  · intro c hc
    obtain rfl := Option.some.inj (hfirst.symm.trans hc)
    cases b <;> decide
  · intro c hc
    obtain rfl := Option.some.inj (hlast.symm.trans hc)
    decide

theorem truthValue?_eq_some {word : List Char} {b : Bool} :
    truthValue? word = some b ↔ word = (truthWord b).toList := by
  refine ⟨?_, ?_⟩
  · intro h
    rw [truthValue?] at h
    split at h
    · next hword =>
      obtain rfl := Option.some.inj h
      exact hword
    · split at h
      · next hword =>
        obtain rfl := Option.some.inj h
        exact hword
      · cases h
  · rintro rfl
    exact truthValue?_truthWord b

theorem ne_equals_of_not_mem {cs : List Char} (h : '=' ∉ cs) : ∀ c ∈ cs, (c != '=') = true := by
  intro c hc
  rw [bne_iff_ne]
  rintro rfl
  exact h hc

theorem parseEntry_of_not_mem {part : List Char} (h : '=' ∉ part) :
    parseEntry part = .error (.noEquals (.ofList part)) := by
  have hall := ne_equals_of_not_mem h
  have hspan : part.span (· != '=') = (part, []) := by
    rw [List.span_eq_takeWhile_dropWhile, List.takeWhile_eq_self_iff.mpr hall,
      List.dropWhile_eq_nil_iff.mpr hall]
  rw [parseEntry, hspan]

theorem parseEntry_append {name value : List Char} (h : '=' ∉ name) :
    parseEntry (name ++ '=' :: value) =
      match truthValue? (trim value) with
      | some b => .ok (.ofList (trim name), b)
      | none => .error .notTruthValue := by
  have hall := ne_equals_of_not_mem h
  have hspan : (name ++ '=' :: value).span (· != '=') = (name, '=' :: value) := by
    rw [List.span_eq_takeWhile_dropWhile, List.takeWhile_append_of_pos hall,
      List.dropWhile_append_of_pos hall, List.takeWhile_cons_of_neg (by simp),
      List.dropWhile_cons_of_neg (by simp), List.append_nil]
  cases htruth : truthValue? (trim value) with
  | some b => simp only [parseEntry, hspan, htruth]
  | none => simp only [parseEntry, hspan, htruth]

theorem parseEntry_eq_ok {part : List Char} {entry : String × Bool} :
    parseEntry part = .ok entry ↔ Spells part entry := by
  refine ⟨?_, ?_⟩
  · intro h
    by_cases hmem : '=' ∈ part
    · obtain ⟨name, value, rfl, hname⟩ := List.eq_append_cons_of_mem hmem
      rw [parseEntry_append hname] at h
      split at h
      · next b hb =>
        obtain rfl := Except.ok.inj h
        obtain ⟨w₁, w₂, hw₁, htrim, hw₂, hsplit⟩ := trim_eq_iff.mp (rfl : trim name = trim name)
        obtain ⟨w₃, w₄, hw₃, -, hw₄, hvalue⟩ := trim_eq_iff.mp (truthValue?_eq_some.mp hb)
        refine ⟨w₁, w₂, w₃, w₄, hw₁, hw₂, hw₃, hw₄, ?_, ?_, ?_⟩
        · rw [String.toList_ofList]
          intro hin
          exact hname (by rw [hsplit]; simp [hin])
        · rw [String.toList_ofList]
          exact htrim
        · rw [String.toList_ofList, ← hsplit, ← hvalue]
      · cases h
    · rw [parseEntry_of_not_mem hmem] at h
      cases h
  · rintro ⟨w₁, w₂, w₃, w₄, hw₁, hw₂, hw₃, hw₄, hname, htrim, rfl⟩
    -- nothing before the sign that divides the part is an equals sign
    have hblank {w : List Char} (hw : Blank w) : '=' ∉ w := by
      intro hmem
      exact absurd (hw '=' hmem) (by decide)
    have hfront : '=' ∉ w₁ ++ entry.1.toList ++ w₂ := by
      simp [hblank hw₁, hblank hw₂, hname]
    rw [parseEntry_append hfront, trim_append hw₃ (trimmed_truthWord entry.2) hw₄,
      truthValue?_truthWord, trim_append hw₁ htrim hw₂, String.ofList_toList]

theorem Spells.unique {part : List Char} {entry entry' : String × Bool} (h : Spells part entry)
    (h' : Spells part entry') : entry = entry' := by
  rw [← parseEntry_eq_ok] at h h'
  rw [h] at h'
  exact Except.ok.inj h'

/-- The fault of a part that spells no entry. -/
def entryFault (part : List Char) : AssignmentError :=
  if '=' ∈ part then .notTruthValue else .noEquals (.ofList part)

theorem parseEntry_eq_error {part : List Char} {e : AssignmentError} :
    parseEntry part = .error e ↔ (¬ ∃ entry, Spells part entry) ∧ e = entryFault part := by
  simp only [← parseEntry_eq_ok]
  by_cases hmem : '=' ∈ part
  · rw [entryFault, if_pos hmem]
    obtain ⟨name, value, rfl, hname⟩ := List.eq_append_cons_of_mem hmem
    rw [parseEntry_append hname]
    cases truthValue? (trim value) with
    | some b => simp
    | none => simp [eq_comm]
  · rw [entryFault, if_neg hmem, parseEntry_of_not_mem hmem]
    simp [eq_comm]

end Sentential
