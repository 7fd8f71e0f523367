import Sentential.Proofs.AssignmentGrammar

/- Assignments written and read back. A name that holds no comma and no equals
   sign and is not bounded by white space stands in an entry as it is, and
   nothing in the entry is taken for a separator or trimmed away
   (`Writable.spells`). So the parts of a text written from entries are these
   entries (`assignmentParts_writeEntries`), and in whatever order they stand,
   reading them gives the assignment that they come from (`parse_of_perm`). The
   names of an assignment that was read are of this kind (`writable_of_parse`):
   a part has no comma, its name ends at the first equals sign and is trimmed.
   Search trees with the same entries need not be the same tree, so assignments
   are compared by their entries in order. -/
namespace Sentential

open Text

/-- A name that a text can assign a value to. -/
structure Writable (name : String) : Prop where
  no_comma : ',' ∉ name.toList
  no_equals : '=' ∉ name.toList
  trimmed : Trimmed name.toList

/-! ## Entries as parts -/

theorem toList_writeEntry (entry : String × Bool) :
    (writeEntry entry).toList = entry.1.toList ++ '=' :: (truthWord entry.2).toList := by
  rw [writeEntry, String.toList_append, String.toList_append, List.append_assoc]
  rfl

theorem Writable.spells {entry : String × Bool} (h : Writable entry.1) :
    Spells (writeEntry entry).toList entry := by
  have hblank : Blank [] := fun _ hc => absurd hc List.not_mem_nil
  refine ⟨[], [], [], [], hblank, hblank, hblank, hblank, h.no_equals, h.trimmed, ?_⟩
  rw [toList_writeEntry, List.nil_append, List.append_nil, List.nil_append, List.append_nil]

theorem Writable.comma_not_mem {entry : String × Bool} (h : Writable entry.1) :
    ',' ∉ (writeEntry entry).toList := by
  have hword : ',' ∉ (truthWord entry.2).toList := by
    cases entry.2 <;> decide
  rw [toList_writeEntry, List.mem_append, List.mem_cons, not_or, not_or]
  exact ⟨h.no_comma, by decide, hword⟩

theorem writeEntry_ne_nil (entry : String × Bool) : (writeEntry entry).toList ≠ [] := by
  rw [toList_writeEntry]
  simp

/-- The parts of a text written from entries are the entries. -/
theorem assignmentParts_writeEntries {entries : List (String × Bool)}
    (h : ∀ entry ∈ entries, Writable entry.1) :
    assignmentParts (writeEntries entries).toList =
      entries.map fun entry => (writeEntry entry).toList := by
  cases entries with
  | nil => rfl
  | cons entry rest =>
    have hcut : CutAtCommas (writeEntries (entry :: rest)).toList
        ((entry :: rest).map fun entry => (writeEntry entry).toList) := by
      refine ⟨by simp, ?_, ?_⟩
      · exact List.forall_mem_map.mpr fun e he => (h e he).comma_not_mem
      · rw [writeEntries, String.toList_intercalate, List.map_map]
        rfl
    -- no entry is empty, so none of the pieces is left out
    rw [assignmentParts, hcut.splitOn_eq, List.filter_eq_self]
    intro part hpart
    obtain ⟨e, -, rfl⟩ := List.mem_map.mp hpart
    simpa using writeEntry_ne_nil e

/-! ## Reading what was written -/

theorem lastSpells_writeEntry {entries : List (String × Bool)}
    (h : ∀ entry ∈ entries, Writable entry.1)
    (hvalue : ∀ name b c, (name, b) ∈ entries → (name, c) ∈ entries → b = c)
    {name : String} {b : Bool} :
    LastSpells (entries.map fun entry => (writeEntry entry).toList) name b ↔
      (name, b) ∈ entries := by
  have hmem (c : Bool)
      (hc : LastSpells (entries.map fun entry => (writeEntry entry).toList) name c) :
      (name, c) ∈ entries := by
    obtain ⟨before, part, behind, hsplit, hpart, -⟩ := hc
    obtain ⟨entry, hentry, rfl⟩ : ∃ entry ∈ entries, (writeEntry entry).toList = part := by
      apply List.mem_map.mp
      rw [hsplit]
      simp
    rwa [← (h entry hentry).spells.unique hpart]
  refine ⟨hmem b, ?_⟩
  intro hb
  -- some entry with this name is the last, and it has this value
  have hpart : ∃ part ∈ entries.map fun entry => (writeEntry entry).toList,
      ∃ c, Spells part (name, c) :=
    ⟨(writeEntry (name, b)).toList, List.mem_map.mpr ⟨_, hb, rfl⟩, b, (h _ hb).spells⟩
  obtain ⟨c, hc⟩ := exists_lastSpells.mpr hpart
  obtain rfl : c = b := hvalue name c b (hmem c hc) hb
  exact hc

namespace Assignment

theorem toList_eq_of_getElem? {m m' : Assignment}
    (h : ∀ (name : String) (b : Bool), m'[name]? = some b ↔ m[name]? = some b) :
    m'.toList = m.toList := by
  have hsame (name : String) : m'[name]? = m[name]? := Option.ext (h name)
  exact (Std.TreeMap.Equiv.of_forall_constGet?_eq hsame).toList_eq

/-- The entries of an assignment, written in any order, are read as the assignment. -/
theorem parse_of_perm {m : Assignment} {entries : List (String × Bool)}
    (hperm : entries.Perm m.toList) (h : ∀ name ∈ m, Writable name) :
    ∃ m', parse (writeEntries entries) = .ok m' ∧ m'.toList = m.toList := by
  have hentry (name : String) (b : Bool) : (name, b) ∈ entries ↔ m[name]? = some b := by
    rw [hperm.mem_iff, Std.TreeMap.mem_toList_iff_getElem?_eq_some]
  have hwritable : ∀ entry ∈ entries, Writable entry.1 := by
    rintro ⟨name, b⟩ he
    apply h
    rw [Std.TreeMap.mem_iff_isSome_getElem?, (hentry name b).mp he]
    rfl
  have hvalue : ∀ name b c, (name, b) ∈ entries → (name, c) ∈ entries → b = c := by
    intro name b c hb hc
    rw [hentry] at hb hc
    exact Option.some.inj (hb.symm.trans hc)
  have hparse : parse (writeEntries entries) =
      (entries.map fun entry => (writeEntry entry).toList).foldlM addPart ∅ := by
    rw [parse, assignmentParts_writeEntries hwritable]
  obtain ⟨m', hm'⟩ := exists_addParts.mpr
    (List.forall_mem_map.mpr fun entry he => ⟨entry, (hwritable entry he).spells⟩)
  refine ⟨m', hparse.trans hm', ?_⟩
  apply toList_eq_of_getElem?
  intro name b
  rw [getElem?_addParts hm', lastSpells_writeEntry hwritable hvalue, hentry]

/-- The names of an assignment that was read can be written. -/
theorem writable_of_parse {text : String} {m : Assignment} (h : parse text = .ok m) :
    ∀ name ∈ m, Writable name := by
  intro name hname
  rw [Std.TreeMap.mem_iff_isSome_getElem?] at hname
  obtain ⟨b, hb⟩ := Option.isSome_iff_exists.mp hname
  obtain ⟨part, hpart, c, w₁, w₂, w₃, w₄, -, -, -, -, hequals, htrimmed, hsplit⟩ :=
    exists_lastSpells.mp ⟨b, (getElem?_addParts h).mp hb⟩
  refine ⟨?_, hequals, htrimmed⟩
  intro hcomma
  have hpiece : part ∈ text.toList.splitOn ',' := (List.mem_filter.mp hpart).1
  apply not_mem_of_mem_splitOn part hpiece
  rw [hsplit]
  simp [hcomma]

end Assignment

/-- An assignment whose names can be written is what reading gives when its
    entries are written in any order with commas between them. The names of every
    assignment that was read can be written, so it is read again when it is
    written. -/
theorem assignment_written_and_read_back :
    (∀ (m : Assignment) (entries : List (String × Bool)), (∀ name ∈ m, Writable name) →
      entries.Perm m.toList →
      ∃ m', Assignment.parse (writeEntries entries) = .ok m' ∧ m'.toList = m.toList) ∧
    ∀ (text : String) (m : Assignment), Assignment.parse text = .ok m →
      (∀ name ∈ m, Writable name) ∧
      ∀ entries : List (String × Bool), entries.Perm m.toList →
        ∃ m', Assignment.parse (writeEntries entries) = .ok m' ∧ m'.toList = m.toList := by
  refine ⟨?_, ?_⟩
  · intro m entries h hperm
    exact Assignment.parse_of_perm hperm h
  · intro text m hm
    have hwritable := Assignment.writable_of_parse hm
    exact ⟨hwritable, fun entries hperm => Assignment.parse_of_perm hperm hwritable⟩

/-- Inside a name white space stays, and a name may be empty. -/
theorem assignment_written_and_read_back_with_an_empty_name :
    let m : Assignment := .ofList [("", true), ("p q", false)]
    let entries := [("p q", false), ("", true)]
    let text := " a = true,,a=false"
    ((∀ name ∈ m, Writable name) ∧ entries.Perm m.toList ∧
      writeEntries entries = "p q=false,=true" ∧
      ∃ m', Assignment.parse (writeEntries entries) = .ok m' ∧ m'.toList = m.toList) ∧
    ∃ m, Assignment.parse text = .ok m ∧ [("a", false)].Perm m.toList ∧
      (∀ name ∈ m, Writable name) ∧
      ∃ m', Assignment.parse (writeEntries [("a", false)]) = .ok m' ∧ m'.toList = m.toList := by
  intro m entries text
  have hlist : m.toList = [("", true), ("p q", false)] := by decide +kernel
  have hnames : ∀ name ∈ m, Writable name := by
    intro name hname
    rw [← Std.TreeMap.mem_keys, ← Std.TreeMap.map_fst_toList_eq_keys, hlist] at hname
    have hall : ∀ name ∈ ["", "p q"], (',' ∉ name.toList ∧ '=' ∉ name.toList) ∧
        trim name.toList = name.toList := by decide
    obtain ⟨⟨hcomma, hequals⟩, htrim⟩ := hall name hname
    obtain ⟨-, -, -, htrimmed, -⟩ := trim_eq_iff.mp htrim
    exact ⟨hcomma, hequals, htrimmed⟩
  have hperm : entries.Perm m.toList := by
    rw [hlist]
    exact .swap _ _ _
  obtain ⟨m₂, hm₂, hlist₂⟩ : ∃ m₂, Assignment.parse text = .ok m₂ ∧ m₂.toList = [("a", false)] :=
    Assignment.exists_parse_of_entries (by decide +kernel)
  have hperm₂ : [("a", false)].Perm m₂.toList := by rw [hlist₂]
  obtain ⟨hwrite, hread⟩ := assignment_written_and_read_back
  obtain ⟨hnames₂, hagain⟩ := hread text m₂ hm₂
  refine ⟨⟨hnames, hperm, by decide +kernel, hwrite m entries hnames hperm⟩, ?_⟩
  exact ⟨m₂, hm₂, hperm₂, hnames₂, hagain _ hperm₂⟩

end Sentential
