/- Sets of code points, as lists of closed ranges. The ranges of a set ascend and
   stand apart, so a search may stop at the first range beyond the code point, and
   it finds the same as a search of the whole list (`Ranges.covers_iff`). The tables
   of this library are those of Unicode 17.0. -/
namespace Sentential.Text

/-- Whether the ranges begin beyond a code point, are not empty and stand apart. -/
def ascendFrom : Nat → List (Nat × Nat) → Bool
  | _, [] => true
  | n, (lo, hi) :: rest => n < lo && lo ≤ hi && ascendFrom (hi + 1) rest

/-- Whether the ranges are not empty, ascend and stand apart. -/
def ascend : List (Nat × Nat) → Bool
  | [] => true
  | (lo, hi) :: rest => lo ≤ hi && ascendFrom (hi + 1) rest

/-- A set of code points: ranges with their ends included, ascending and apart. -/
structure Ranges where
  list : List (Nat × Nat)
  ascends : ascend list = true

instance : Membership Nat Ranges := ⟨fun rs n => ∃ r ∈ rs.list, r.1 ≤ n ∧ n ≤ r.2⟩

/-- Looks a code point up in ascending ranges. -/
def search : List (Nat × Nat) → Nat → Bool
  | [], _ => false
  | (lo, hi) :: rest, n => lo ≤ n && (n ≤ hi || search rest n)

/-- Whether a code point is in one of the ranges. -/
def Ranges.covers (rs : Ranges) (n : Nat) : Bool := search rs.list n

/-- What the search finds is in a range. -/
theorem exists_of_search {rs : List (Nat × Nat)} {n : Nat} (h : search rs n = true) :
    ∃ r ∈ rs, r.1 ≤ n ∧ n ≤ r.2 := by
  induction rs with
  | nil => simp [search] at h
  | cons r rest ih =>
    simp only [search, Bool.and_eq_true, Bool.or_eq_true, decide_eq_true_eq] at h
    obtain ⟨hlo, hhi | hrest⟩ := h
    · exact ⟨r, List.mem_cons_self, hlo, hhi⟩
    · obtain ⟨r', hr', hn⟩ := ih hrest
      exact ⟨r', List.mem_cons_of_mem _ hr', hn⟩

/-- Ranges that ascend from a code point lie beyond it. -/
theorem lt_of_ascendFrom {rs : List (Nat × Nat)} {m : Nat} (h : ascendFrom m rs = true) :
    ∀ r ∈ rs, m < r.1 := by
  induction rs generalizing m with
  | nil => simp
  | cons s rest ih =>
    simp only [ascendFrom, Bool.and_eq_true, decide_eq_true_eq] at h
    intro r hr
    rcases List.mem_cons.mp hr with rfl | hr
    · exact h.1.1
    · have := ih h.2 r hr
      omega

theorem ascend_of_ascendFrom {rs : List (Nat × Nat)} {m : Nat} (h : ascendFrom m rs = true) :
    ascend rs = true := by
  cases rs with
  | nil => rfl
  | cons r rest =>
    simp only [ascendFrom, Bool.and_eq_true, decide_eq_true_eq] at h
    simp [ascend, h.1.2, h.2]

/-- In ascending ranges the search finds every member: stopping early loses nothing. -/
theorem search_of_mem {rs : List (Nat × Nat)} (hrs : ascend rs = true) {r : Nat × Nat} (hr : r ∈ rs)
    {n : Nat} (hlo : r.1 ≤ n) (hhi : n ≤ r.2) : search rs n = true := by
  induction rs with
  | nil => cases hr
  | cons s rest ih =>
    simp only [ascend, Bool.and_eq_true, decide_eq_true_eq] at hrs
    simp only [search, Bool.and_eq_true, Bool.or_eq_true, decide_eq_true_eq]
    rcases List.mem_cons.mp hr with rfl | hr
    · exact ⟨hlo, .inl hhi⟩
    · have := lt_of_ascendFrom hrs.2 r hr
      exact ⟨by omega, .inr (ih (ascend_of_ascendFrom hrs.2) hr)⟩

theorem Ranges.covers_iff {rs : Ranges} {n : Nat} : rs.covers n = true ↔ n ∈ rs :=
  ⟨exists_of_search, fun ⟨_, hr, hlo, hhi⟩ => search_of_mem rs.ascends hr hlo hhi⟩

/-- No code point between `lo` and `hi` is covered by ranges that lie before or behind. -/
theorem Ranges.covers_eq_false {rs : Ranges} {lo hi n : Nat}
    (h : ∀ r ∈ rs.list, r.2 < lo ∨ hi ≤ r.1) (hlo : lo ≤ n) (hhi : n < hi) :
    rs.covers n = false := by
  rw [← Bool.not_eq_true, covers_iff]
  rintro ⟨r, hr, hrlo, hrhi⟩
  have := h r hr
  omega

end Sentential.Text
