import Mathlib.Data.List.Induction
import Mathlib.Order.Defs.LinearOrder
import Sentential.Assignment.Text
import Sentential.Proofs.Entries

/- Assignment texts by their grammar. Cut at every comma and freed of its empty
   parts, a text is an assignment when every part spells an entry. Reading goes
   through the parts from the left: it fails with the first that spells none
   (`addParts_eq_error`), and what it has read so far says of each name what the
   last part with that name says (`getElem?_addParts`). The first is an induction
   from the front of the list, where the faults are met, the second one from its
   end, where the part that decides is. -/
namespace Sentential

/-- The pieces of a text between its commas. -/
structure CutAtCommas (text : List Char) (pieces : List (List Char)) : Prop where
  ne_nil : pieces ≠ []
  no_comma : ∀ piece ∈ pieces, ',' ∉ piece
  joined : text = [','].intercalate pieces

theorem not_mem_of_mem_splitOn {c : Char} {cs : List Char} :
    ∀ piece ∈ cs.splitOn c, c ∉ piece := by
  induction cs with
  | nil => simp
  | cons d cs ih =>
    rw [List.splitOn_cons_eq_if_modifyHead]
    by_cases hd : d = c
    · simpa [hd] using ih
    · -- the first piece of the rest begins with `d` now
      obtain ⟨first, pieces, hsplit⟩ := List.exists_cons_of_ne_nil (List.splitOn_ne_nil c cs)
      rw [hsplit] at ih ⊢
      rw [if_neg (by simpa using hd), List.modifyHead_cons]
      intro piece hpiece
      rcases List.mem_cons.mp hpiece with rfl | hpiece
      · rw [List.mem_cons, not_or]
        exact ⟨Ne.symm hd, ih first (by simp)⟩
      · exact ih piece (by simp [hpiece])

theorem cutAtCommas_splitOn (text : List Char) : CutAtCommas text (text.splitOn ',') :=
  ⟨List.splitOn_ne_nil _ _, not_mem_of_mem_splitOn, (List.intercalate_splitOn _).symm⟩

theorem CutAtCommas.splitOn_eq {text : List Char} {pieces : List (List Char)}
    (h : CutAtCommas text pieces) : text.splitOn ',' = pieces := by
  rw [h.joined]
  exact List.splitOn_intercalate _ h.no_comma h.ne_nil

/-! ## Parts in a row -/

/-- The part spells an entry. -/
def IsEntry (part : List Char) : Prop := ∃ entry, Spells part entry

/-- The part is the first that spells no entry. -/
def FirstMisspelt (parts : List (List Char)) (part : List Char) : Prop :=
  ∃ before behind, parts = before ++ part :: behind ∧ (∀ q ∈ before, IsEntry q) ∧ ¬ IsEntry part

/-- The last part that spells an entry with this name gives it this value. -/
def LastSpells (parts : List (List Char)) (name : String) (b : Bool) : Prop :=
  ∃ before part behind, parts = before ++ part :: behind ∧ Spells part (name, b) ∧
    ∀ q ∈ behind, ∀ c, ¬ Spells q (name, c)

theorem firstMisspelt_cons {p part : List Char} {parts : List (List Char)} :
    FirstMisspelt (p :: parts) part ↔
      ¬ IsEntry p ∧ part = p ∨ IsEntry p ∧ FirstMisspelt parts part := by
  refine ⟨?_, ?_⟩
  · rintro ⟨before, behind, hsplit, hbefore, hpart⟩
    cases before with
    | nil =>
      obtain ⟨rfl, rfl⟩ := List.cons.inj hsplit
      exact .inl ⟨hpart, rfl⟩
    | cons q before =>
      obtain ⟨rfl, hrest⟩ := List.cons.inj hsplit
      exact .inr ⟨hbefore p (by simp), before, behind, hrest,
        fun q hq => hbefore q (by simp [hq]), hpart⟩
  · rintro (⟨hp, rfl⟩ | ⟨hp, before, behind, rfl, hbefore, hpart⟩)
    · exact ⟨[], parts, rfl, by simp, hp⟩
    · exact ⟨p :: before, behind, rfl, by simpa using ⟨hp, hbefore⟩, hpart⟩

theorem exists_firstMisspelt {parts : List (List Char)} :
    (∃ part, FirstMisspelt parts part) ↔ ∃ part ∈ parts, ¬ IsEntry part := by
  refine ⟨?_, ?_⟩
  · rintro ⟨part, before, behind, rfl, -, hpart⟩
    exact ⟨part, by simp, hpart⟩
  · rintro ⟨part, hmem, hpart⟩
    induction parts with
    | nil => cases hmem
    | cons p parts ih =>
      by_cases hp : IsEntry p
      · rcases List.mem_cons.mp hmem with rfl | hmem
        · exact absurd hp hpart
        · obtain ⟨q, hq⟩ := ih hmem
          exact ⟨q, firstMisspelt_cons.mpr (.inr ⟨hp, hq⟩)⟩
      · exact ⟨p, firstMisspelt_cons.mpr (.inl ⟨hp, rfl⟩)⟩

theorem lastSpells_snoc {p : List Char} {parts : List (List Char)} {name : String} {b : Bool} :
    LastSpells (parts ++ [p]) name b ↔
      Spells p (name, b) ∨ (∀ c, ¬ Spells p (name, c)) ∧ LastSpells parts name b := by
  refine ⟨?_, ?_⟩
  · rintro ⟨before, part, behind, hsplit, hpart, hbehind⟩
    rcases List.eq_nil_or_concat behind with rfl | ⟨behind, q, rfl⟩
    · obtain ⟨-, hp⟩ := List.append_inj' hsplit rfl
      obtain rfl : p = part := by simpa using hp
      exact .inl hpart
    · rw [List.concat_eq_append, ← List.cons_append, ← List.append_assoc] at hsplit
      obtain ⟨hparts, hp⟩ := List.append_inj' hsplit rfl
      obtain rfl : p = q := by simpa using hp
      exact .inr ⟨hbehind p (by simp), before, part, behind, hparts, hpart,
        fun q hq => hbehind q (by simp [hq])⟩
  · rintro (hp | ⟨hp, before, part, behind, rfl, hpart, hbehind⟩)
    · exact ⟨parts, p, [], rfl, hp, by simp⟩
    · refine ⟨before, part, behind ++ [p], by simp, hpart, fun q hq => ?_⟩
      rcases List.mem_append.mp hq with hq | hq
      · exact hbehind q hq
      · obtain rfl := List.mem_singleton.mp hq
        exact hp

/-- A name that some part spells has a last part that does. -/
theorem exists_lastSpells {parts : List (List Char)} {name : String} :
    (∃ b, LastSpells parts name b) ↔ ∃ part ∈ parts, ∃ b, Spells part (name, b) := by
  refine ⟨?_, ?_⟩
  · rintro ⟨b, before, part, behind, rfl, hpart, -⟩
    exact ⟨part, by simp, b, hpart⟩
  · rintro ⟨part, hmem, b, hpart⟩
    induction parts using List.reverseRecOn with
    | nil => cases hmem
    | append_singleton parts p ih =>
      by_cases hp : ∃ c, Spells p (name, c)
      · obtain ⟨c, hp⟩ := hp
        exact ⟨c, lastSpells_snoc.mpr (.inl hp)⟩
      · rcases List.mem_append.mp hmem with hmem | hmem
        · obtain ⟨c, hc⟩ := ih hmem
          exact ⟨c, lastSpells_snoc.mpr (.inr ⟨not_exists.mp hp, hc⟩)⟩
        · obtain rfl := List.mem_singleton.mp hmem
          exact absurd ⟨b, hpart⟩ hp

/-! ## Reading the parts -/

namespace Assignment

theorem addPart_eq_ok {m m' : Assignment} {part : List Char} :
    m.addPart part = .ok m' ↔ ∃ entry, Spells part entry ∧ m' = m.insert entry.1 entry.2 := by
  simp only [← parseEntry_eq_ok, addPart]
  cases parseEntry part with
  | ok entry => simp [Except.map, eq_comm]
  | error e => simp [Except.map]

theorem addPart_eq_error {m : Assignment} {part : List Char} {e : AssignmentError} :
    m.addPart part = .error e ↔ ¬ IsEntry part ∧ e = entryFault part := by
  rw [IsEntry, ← parseEntry_eq_error, addPart]
  cases parseEntry part with
  | ok entry => simp [Except.map]
  | error e => simp [Except.map]

theorem addParts_eq_error {m : Assignment} {parts : List (List Char)} {e : AssignmentError} :
    parts.foldlM addPart m = .error e ↔ ∃ part, FirstMisspelt parts part ∧ e = entryFault part := by
  induction parts generalizing m with
  | nil => simp [FirstMisspelt, pure, Except.pure]
  | cons p parts ih =>
    rw [List.foldlM_cons]
    cases hadd : m.addPart p with
    | error d =>
      obtain ⟨hp, rfl⟩ := addPart_eq_error.mp hadd
      simp [firstMisspelt_cons, hp, bind, Except.bind, eq_comm]
    | ok m' =>
      obtain ⟨entry, hentry, -⟩ := addPart_eq_ok.mp hadd
      have hp : IsEntry p := ⟨entry, hentry⟩
      simpa [firstMisspelt_cons, hp, bind, Except.bind] using ih

theorem addParts_snoc (m : Assignment) (parts : List (List Char)) (p : List Char) :
    (parts ++ [p]).foldlM addPart m = (parts.foldlM addPart m).bind (·.addPart p) := by
  simp only [List.foldlM_append, List.foldlM_cons, List.foldlM_nil, bind_pure]
  rfl

theorem exists_addParts {parts : List (List Char)} {m : Assignment} :
    (∃ m', parts.foldlM addPart m = .ok m') ↔ ∀ part ∈ parts, IsEntry part := by
  refine ⟨?_, ?_⟩
  · rintro ⟨m', hm'⟩
    by_contra hall
    obtain ⟨part, hpart⟩ := exists_firstMisspelt.mpr (by simpa using hall)
    rw [addParts_eq_error.mpr ⟨part, hpart, rfl⟩] at hm'
    cases hm'
  · intro hall
    cases h : parts.foldlM addPart m with
    | ok m' => exact ⟨m', rfl⟩
    | error e =>
      obtain ⟨part, ⟨before, behind, hsplit, -, hpart⟩, -⟩ := addParts_eq_error.mp h
      exact absurd (hall part (by simp [hsplit])) hpart

/-- The assignment says of a name what the last part with that name says. -/
theorem getElem?_addParts {parts : List (List Char)} {m : Assignment}
    (h : parts.foldlM addPart ∅ = .ok m) {name : String} {b : Bool} :
    m[name]? = some b ↔ LastSpells parts name b := by
  induction parts using List.reverseRecOn generalizing m with
  | nil =>
    obtain rfl : ∅ = m := Except.ok.inj h
    simp [LastSpells]
  | append_singleton parts p ih =>
    rw [addParts_snoc] at h
    cases hparts : parts.foldlM addPart ∅ with
    | error e =>
      rw [hparts] at h
      cases h
    | ok m' =>
      rw [hparts] at h
      obtain ⟨⟨n, c⟩, hp, rfl⟩ := addPart_eq_ok.mp h
      rw [lastSpells_snoc, Std.TreeMap.getElem?_insert]
      simp only [Std.LawfulEqCmp.compare_eq_iff_eq]
      -- the last part decides if it has this name, and else what stands before it
      by_cases hn : n = name
      · subst hn
        rw [if_pos rfl]
        refine ⟨?_, ?_⟩
        · intro hc
          obtain rfl := Option.some.inj hc
          exact .inl hp
        · intro hlast
          rcases hlast with hb | ⟨hnone, -⟩
          · rw [(Prod.mk.inj (hp.unique hb)).2]
          · exact absurd hp (hnone c)
      · have hother : ∀ d, ¬ Spells p (name, d) := by
          intro d hd
          exact hn (Prod.mk.inj (hp.unique hd)).1
        rw [if_neg hn, ih hparts]
        refine ⟨?_, ?_⟩
        · intro hlast
          exact .inr ⟨hother, hlast⟩
        · intro hlast
          rcases hlast with hb | ⟨-, hlast⟩
          · exact absurd hb (hother b)
          · exact hlast

/-- Search trees cannot be compared, their entries can. -/
theorem exists_parse_of_entries {text : String} {entries : List (String × Bool)}
    (h : (parse text).map (·.toList) = .ok entries) :
    ∃ m, parse text = .ok m ∧ m.toList = entries := by
  cases hm : parse text with
  | error e =>
    rw [hm] at h
    cases h
  | ok m =>
    rw [hm] at h
    exact ⟨m, rfl, Except.ok.inj h⟩

end Assignment

/-- A text is cut at its commas in one way. With the empty pieces left out, it is
    an assignment exactly when every part spells an entry; the assignment then has
    the names that the parts spell, in ascending order, each with the value of the
    last part that spells it. Otherwise the first part that spells no entry is the
    fault: for its value if it has an equals sign, and else for having none. -/
theorem assignment_read_by_its_grammar (text : String) :
    (∃ pieces, CutAtCommas text.toList pieces) ∧
    ∀ pieces, CutAtCommas text.toList pieces →
      let parts := pieces.filter fun piece => !piece.isEmpty
      ((∃ m, Assignment.parse text = .ok m) ↔ ∀ part ∈ parts, ∃ entry, Spells part entry) ∧
      (∀ m, Assignment.parse text = .ok m →
        (∀ name, name ∈ m ↔ ∃ part ∈ parts, ∃ b, Spells part (name, b)) ∧
        (∀ name b, m[name]? = some b ↔ LastSpells parts name b) ∧
        m.keys.Pairwise fun a b => a.toList < b.toList) ∧
      ∀ e, Assignment.parse text = .error e ↔ ∃ part, FirstMisspelt parts part ∧
        if '=' ∈ part then
          e = .notTruthValue ∧ e.message = "provided string was not `true` or `false`"
        else
          e = .noEquals (.ofList part) ∧
            e.message = "expected NAME=VALUE, got '" ++ String.ofList part ++ "'" := by
  refine ⟨⟨_, cutAtCommas_splitOn _⟩, ?_⟩
  intro pieces hpieces parts
  have hparse : Assignment.parse text = parts.foldlM Assignment.addPart ∅ := by
    rw [Assignment.parse, assignmentParts, hpieces.splitOn_eq]
  simp only [hparse]
  refine ⟨Assignment.exists_addParts, ?_, ?_⟩
  · intro m hm
    have hlast (name : String) (b : Bool) : m[name]? = some b ↔ LastSpells parts name b :=
      Assignment.getElem?_addParts hm
    refine ⟨?_, hlast, ?_⟩
    · intro name
      rw [Std.TreeMap.mem_iff_isSome_getElem?, Option.isSome_iff_exists]
      simp only [hlast, exists_lastSpells]
    · refine Std.TreeMap.ordered_keys.imp ?_
      intro a b hab
      have hlt : a < b := Batteries.compareOfLessAndEq_eq_lt.mp hab
      exact hlt
  · intro e
    rw [Assignment.addParts_eq_error]
    refine exists_congr fun part => and_congr_right' ?_
    rw [entryFault]
    split
    · refine ⟨?_, And.left⟩
      rintro rfl
      exact ⟨rfl, rfl⟩
    · refine ⟨?_, And.left⟩
      rintro rfl
      exact ⟨rfl, rfl⟩

theorem assignment_read_by_its_grammar_last_value_counts :
    (∃ m, Assignment.parse " b = true ,,a=false,b=false" = .ok m ∧ m["b"]? = some false) ∧
      Assignment.parse "a=true, ,b=1" = .error (.noEquals " ") := by
  have hcut : CutAtCommas " b = true ,,a=false,b=false".toList
      [" b = true ".toList, [], "a=false".toList, "b=false".toList] :=
    ⟨by decide, by decide, by decide⟩
  have hcut' : CutAtCommas "a=true, ,b=1".toList ["a=true".toList, " ".toList, "b=1".toList] :=
    ⟨by decide, by decide, by decide⟩
  have hb : Spells " b = true ".toList ("b", true) := parseEntry_eq_ok.mp (by decide)
  have ha : Spells "a=false".toList ("a", false) := parseEntry_eq_ok.mp (by decide)
  have hb' : Spells "b=false".toList ("b", false) := parseEntry_eq_ok.mp (by decide)
  have ha' : Spells "a=true".toList ("a", true) := parseEntry_eq_ok.mp (by decide)
  refine ⟨?_, ?_⟩
  · obtain ⟨hok, hread, -⟩ := (assignment_read_by_its_grammar _).2 _ hcut
    have hall : ∀ part ∈ [" b = true ".toList, "a=false".toList, "b=false".toList],
        ∃ entry, Spells part entry := by
      simp only [List.forall_mem_cons]
      exact ⟨⟨_, hb⟩, ⟨_, ha⟩, ⟨_, hb'⟩, by simp⟩
    obtain ⟨m, hm⟩ := hok.mpr hall
    obtain ⟨-, hlast, -⟩ := hread m hm
    have hlastb : LastSpells [" b = true ".toList, "a=false".toList, "b=false".toList] "b" false :=
      ⟨[" b = true ".toList, "a=false".toList], "b=false".toList, [], rfl, hb', by simp⟩
    exact ⟨m, hm, (hlast "b" false).mpr hlastb⟩
  · obtain ⟨-, -, herror⟩ := (assignment_read_by_its_grammar _).2 _ hcut'
    have hfault : parseEntry " ".toList = .error (.noEquals " ") := by decide
    obtain ⟨hnone, -⟩ := parseEntry_eq_error.mp hfault
    refine (herror _).mpr ⟨" ".toList, ⟨["a=true".toList], ["b=1".toList], rfl, ?_, hnone⟩, ?_⟩
    · intro q hq
      obtain rfl := List.mem_singleton.mp hq
      exact ⟨_, ha'⟩
    · rw [if_neg (by decide)]
      exact ⟨rfl, rfl⟩

end Sentential
