import Sentential.Proofs.AssignmentRoundTrip
import Sentential.Text.Copies

/- Assignment texts joined by commas. The parts of the joined text are those of the
   first text and then those of the second (`assignmentParts_join`), so the second is
   read on top of what the first has assigned. What stands there already changes no
   fault, and the names that the parts assign it does not keep (`addParts_over`):
   of each name the last part with that name decides, which is an induction from the
   end of the parts. Commas alone have no parts, however many there are. -/
namespace Sentential

theorem assignmentParts_join (s t : List Char) :
    assignmentParts (s ++ ',' :: t) = assignmentParts s ++ assignmentParts t := by
  rw [assignmentParts, List.splitOn_append_cons_self, List.filter_append]
  rfl

/-- Commas in front have no parts. -/
theorem assignmentParts_behind (n : Nat) (t : List Char) :
    assignmentParts (List.replicate n ',' ++ t) = assignmentParts t := by
  induction n with
  | zero => rfl
  | succ n ih =>
    rw [List.replicate_succ, List.cons_append, ← ih]
    exact assignmentParts_join [] _

theorem assignmentParts_commas (n : Nat) : assignmentParts (List.replicate n ',') = [] := by
  rw [← List.append_nil (List.replicate n ','), assignmentParts_behind]
  rfl

/-- Commas at the end have no parts. -/
theorem assignmentParts_before (n : Nat) (s : List Char) :
    assignmentParts (s ++ List.replicate n ',') = assignmentParts s := by
  cases n with
  | zero => rw [List.replicate_zero, List.append_nil]
  | succ n =>
    rw [List.replicate_succ, assignmentParts_join, assignmentParts_commas, List.append_nil]

theorem toList_commas (n : Nat) : (Text.copies n ",").toList = List.replicate n ',' := by
  rw [Text.copies_eq, String.toList_join, List.flatMap_replicate]
  exact List.flatten_replicate_singleton

namespace Assignment

/-- The faults of parts do not depend on what has been assigned before. -/
theorem addParts_eq_error_over {m n : Assignment} {parts : List (List Char)} {e : AssignmentError} :
    parts.foldlM addPart m = .error e ↔ parts.foldlM addPart n = .error e := by
  rw [addParts_eq_error, addParts_eq_error]

/-- Read on top of an assignment, the parts say of each name what they say by
    themselves, and the assignment what they do not. -/
theorem addParts_over (m : Assignment) {parts : List (List Char)} {n : Assignment}
    (h : parts.foldlM addPart ∅ = .ok n) :
    ∃ k, parts.foldlM addPart m = .ok k ∧ ∀ name : String, k[name]? = n[name]?.or m[name]? := by
  induction parts using List.reverseRecOn generalizing n with
  | nil =>
    obtain rfl : ∅ = n := Except.ok.inj h
    exact ⟨m, rfl, fun name => by simp⟩
  | append_singleton parts p ih =>
    rw [addParts_snoc] at h
    cases hparts : parts.foldlM addPart ∅ with
    | error e =>
      rw [hparts] at h
      cases h
    | ok n' =>
      rw [hparts] at h
      obtain ⟨entry, hentry, rfl⟩ := addPart_eq_ok.mp h
      obtain ⟨k, hk, hover⟩ := ih hparts
      refine ⟨k.insert entry.1 entry.2, ?_, ?_⟩
      · rw [addParts_snoc, hk]
        exact addPart_eq_ok.mpr ⟨entry, hentry, rfl⟩
      · intro name
        rw [Std.TreeMap.getElem?_insert, Std.TreeMap.getElem?_insert]
        split
        · rfl
        · exact hover name

/-- A joined text is read as the first text, and then the second on top of it. -/
theorem parse_join (s t : String) :
    parse (s ++ "," ++ t) =
      (parse s).bind fun m => (assignmentParts t.toList).foldlM addPart m := by
  have hsplit : (s ++ "," ++ t).toList = s.toList ++ ',' :: t.toList := by
    rw [String.toList_append, String.toList_append, List.append_assoc]
    rfl
  rw [parse, hsplit, assignmentParts_join, List.foldlM_append]
  rfl

theorem parse_join_of_error {s : String} {e : AssignmentError} (h : parse s = .error e)
    (t : String) : parse (s ++ "," ++ t) = .error e := by
  rw [parse_join, h]
  rfl

theorem parse_join_of_error_right {s t : String} {m : Assignment} {e : AssignmentError}
    (hs : parse s = .ok m) (ht : parse t = .error e) : parse (s ++ "," ++ t) = .error e := by
  rw [parse_join, hs]
  exact addParts_eq_error_over.mp ht

theorem parse_join_of_ok {s t : String} {m n : Assignment} (hs : parse s = .ok m)
    (ht : parse t = .ok n) :
    ∃ k, parse (s ++ "," ++ t) = .ok k ∧ ∀ name : String, k[name]? = n[name]?.or m[name]? := by
  rw [parse_join, hs]
  exact addParts_over m ht

theorem parse_eq_of_parts {s t : String}
    (h : assignmentParts s.toList = assignmentParts t.toList) : parse s = parse t := by
  rw [parse, parse, h]

theorem parse_between_commas (i j : Nat) (s : String) :
    parse (Text.copies i "," ++ s ++ Text.copies j ",") = parse s := by
  apply parse_eq_of_parts
  rw [String.toList_append, String.toList_append, toList_commas, toList_commas,
    assignmentParts_before, assignmentParts_behind]

theorem parse_join_repeated (i : Nat) (s t : String) :
    parse (s ++ Text.copies (i + 1) "," ++ t) = parse (s ++ "," ++ t) := by
  apply parse_eq_of_parts
  simp only [String.toList_append, toList_commas, List.append_assoc, List.replicate_succ,
    List.cons_append, assignmentParts_join, assignmentParts_behind]
  exact (assignmentParts_join _ _).symm

/-- A text that has a fault for its entries has that fault. -/
theorem parse_eq_error_of_entries {text : String} {e : AssignmentError}
    (h : (parse text).map (·.toList) = .error e) : parse text = .error e := by
  cases hm : parse text with
  | error d =>
    rw [hm] at h
    rw [Except.error.inj h]
  | ok m =>
    rw [hm] at h
    cases h

/-- Of two assignments without a common name it does not matter which overrides
    the other. -/
theorem toList_eq_of_disjoint {m n k k' : Assignment}
    (hdisjoint : ∀ name, ¬ (name ∈ m ∧ name ∈ n))
    (hk : ∀ name : String, k[name]? = n[name]?.or m[name]?)
    (hk' : ∀ name : String, k'[name]? = m[name]?.or n[name]?) : k.toList = k'.toList := by
  apply toList_eq_of_getElem?
  intro name b
  rw [hk, hk']
  by_cases hm : name ∈ m
  · have hn : n[name]? = none :=
      Std.TreeMap.getElem?_eq_none fun hn => hdisjoint name ⟨hm, hn⟩
    rw [hn, Option.none_or, Option.or_none]
  · rw [Std.TreeMap.getElem?_eq_none hm, Option.none_or, Option.or_none]

end Assignment

/-- A joined text has the fault of its first part, or else the fault of its second,
    or else it says of each name what the second part says, and what the first part
    says of the names that the second does not have. Commas that repeat, lead or
    trail change nothing, and parts without a common name may change places. -/
theorem joined_texts_are_read_in_turn (s t : String) :
    (∀ e, Assignment.parse s = .error e → Assignment.parse (s ++ "," ++ t) = .error e) ∧
    (∀ m e, Assignment.parse s = .ok m → Assignment.parse t = .error e →
      Assignment.parse (s ++ "," ++ t) = .error e) ∧
    (∀ m n, Assignment.parse s = .ok m → Assignment.parse t = .ok n →
      ∃ k, Assignment.parse (s ++ "," ++ t) = .ok k ∧
        (∀ name, name ∈ k ↔ name ∈ m ∨ name ∈ n) ∧
        ∀ name : String, k[name]? = n[name]?.or m[name]?) ∧
    (∀ i j, Assignment.parse (Text.copies i "," ++ s ++ Text.copies j ",") =
      Assignment.parse s) ∧
    (∀ i, Assignment.parse (s ++ Text.copies (i + 1) "," ++ t) =
      Assignment.parse (s ++ "," ++ t)) ∧
    ∀ m n, Assignment.parse s = .ok m → Assignment.parse t = .ok n →
      (∀ name, ¬ (name ∈ m ∧ name ∈ n)) →
      ∃ k k', Assignment.parse (s ++ "," ++ t) = .ok k ∧
        Assignment.parse (t ++ "," ++ s) = .ok k' ∧ k.toList = k'.toList := by
  refine ⟨?_, ?_, ?_, ?_, ?_, ?_⟩
  · intro e hs
    exact Assignment.parse_join_of_error hs t
  · intro m e hs ht
    exact Assignment.parse_join_of_error_right hs ht
  · intro m n hs ht
    obtain ⟨k, hk, hover⟩ := Assignment.parse_join_of_ok hs ht
    refine ⟨k, hk, ?_, hover⟩
    intro name
    rw [Std.TreeMap.mem_iff_isSome_getElem?, hover, Option.isSome_or, Bool.or_eq_true, or_comm,
      ← Std.TreeMap.mem_iff_isSome_getElem?, ← Std.TreeMap.mem_iff_isSome_getElem?]
  · intro i j
    exact Assignment.parse_between_commas i j s
  · intro i
    exact Assignment.parse_join_repeated i s t
  · intro m n hs ht hdisjoint
    obtain ⟨k, hk, hover⟩ := Assignment.parse_join_of_ok hs ht
    obtain ⟨k', hk', hover'⟩ := Assignment.parse_join_of_ok ht hs
    exact ⟨k, k', hk, hk', Assignment.toList_eq_of_disjoint hdisjoint hover hover'⟩

/-- The second text takes `b` back, and of two faults the first counts. -/
theorem joined_texts_are_read_in_turn_where_both_name_b :
    (Assignment.parse "a=1" = .error .notTruthValue ∧
      Assignment.parse ("a=1" ++ "," ++ "b") = .error .notTruthValue) ∧
    (∃ m, Assignment.parse "a=true, b=true" = .ok m ∧
      Assignment.parse "b" = .error (.noEquals "b") ∧
      Assignment.parse ("a=true, b=true" ++ "," ++ "b") = .error (.noEquals "b")) ∧
    (∃ m n k, Assignment.parse "a=true, b=true" = .ok m ∧ Assignment.parse "b=false" = .ok n ∧
      Assignment.parse ("a=true, b=true" ++ "," ++ "b=false") = .ok k ∧ "a" ∈ k ∧
      k["b"]? = some false) ∧
    ∃ m n k k', Assignment.parse "a=true" = .ok m ∧ Assignment.parse "b=false" = .ok n ∧
      (∀ name, ¬ (name ∈ m ∧ name ∈ n)) ∧
      Assignment.parse ("a=true" ++ "," ++ "b=false") = .ok k ∧
      Assignment.parse ("b=false" ++ "," ++ "a=true") = .ok k' ∧ k.toList = k'.toList := by
  have hfault : Assignment.parse "a=1" = .error .notTruthValue :=
    Assignment.parse_eq_error_of_entries (by decide +kernel)
  have hfault' : Assignment.parse "b" = .error (.noEquals "b") :=
    Assignment.parse_eq_error_of_entries (by decide +kernel)
  obtain ⟨m, hm, hmlist⟩ : ∃ m, Assignment.parse "a=true, b=true" = .ok m ∧
      m.toList = [("a", true), ("b", true)] :=
    Assignment.exists_parse_of_entries (by decide +kernel)
  obtain ⟨n, hn, hnlist⟩ : ∃ n, Assignment.parse "b=false" = .ok n ∧ n.toList = [("b", false)] :=
    Assignment.exists_parse_of_entries (by decide +kernel)
  obtain ⟨l, hl, hllist⟩ : ∃ l, Assignment.parse "a=true" = .ok l ∧ l.toList = [("a", true)] :=
    Assignment.exists_parse_of_entries (by decide +kernel)
  refine ⟨⟨hfault, ?_⟩, ⟨m, hm, hfault', ?_⟩, ?_, ?_⟩
  · exact (joined_texts_are_read_in_turn "a=1" "b").1 _ hfault
  · exact (joined_texts_are_read_in_turn "a=true, b=true" "b").2.1 m _ hm hfault'
  · obtain ⟨-, -, hok, -⟩ := joined_texts_are_read_in_turn "a=true, b=true" "b=false"
    obtain ⟨k, hk, hnames, hover⟩ := hok m n hm hn
    have ha : m["a"]? = some true := by
      rw [← Std.TreeMap.mem_toList_iff_getElem?_eq_some, hmlist]
      decide
    have hb : n["b"]? = some false := by
      rw [← Std.TreeMap.mem_toList_iff_getElem?_eq_some, hnlist]
      decide
    refine ⟨m, n, k, hm, hn, hk, (hnames "a").mpr (.inl ?_), by rw [hover, hb, Option.some_or]⟩
    rw [Std.TreeMap.mem_iff_isSome_getElem?, ha]
    rfl
  · obtain ⟨-, -, -, -, -, hdisjoint⟩ := joined_texts_are_read_in_turn "a=true" "b=false"
    have hnone : ∀ name, ¬ (name ∈ l ∧ name ∈ n) := by
      intro name ⟨hname, hname'⟩
      rw [← Std.TreeMap.mem_keys, ← Std.TreeMap.map_fst_toList_eq_keys] at hname hname'
      rw [hllist] at hname
      rw [hnlist] at hname'
      obtain rfl : name = "a" := List.mem_singleton.mp hname
      exact absurd hname' (by decide)
    obtain ⟨k, k', hk, hk', hlist⟩ := hdisjoint l n hl hn hnone
    exact ⟨l, n, k, k', hl, hn, hnone, hk, hk', hlist⟩

end Sentential
