import Mathlib.Data.List.Basic
import Sentential.Proofs.Questions
import Sentential.TruthTable

/- Truth tables leave nothing out. A table has a row for every valuation of the names
   that it ranges over (`exists_row`): the digits of the row number are put together
   from what the valuation says of the names, the first name in the lowest digit,
   which is an induction over the names. Evaluation does not mind what a valuation
   says of other names, so the letters of a table are those of all its valuations. -/
namespace Sentential
namespace TruthTable

/-- The table ranges over this valuation of the names: a table of total assignments
    has no row that leaves a name out. -/
def Rows.Admits : Rows → List String → Valuation → Prop
  | .total, names, v => ∀ name ∈ names, v name ≠ none
  | .partials, _, _ => True

/-- The digit for the state of a name. -/
def stateDigit : Option Bool → Nat
  | some false => 0
  | some true => 1
  | none => 2

theorem digitValue_stateDigit (state : Option Bool) : digitValue (stateDigit state) = state := by
  match state with
  | some false | some true | none => rfl

theorem Rows.base_pos (rows : Rows) : 0 < rows.base := by
  cases rows <;> decide

/-- The first name has the lowest digit, and the others have the row of the rest. -/
theorem rowValuation_cons (rows : Rows) (first : String) (names : List String) (row : Nat)
    (name : String) :
    rowValuation rows (first :: names) row name =
      if first = name then digitValue (row % rows.base)
      else rowValuation rows names (row / rows.base) name := by
  rw [rowValuation, List.idxOf?_cons]
  by_cases h : first = name
  · rw [if_pos h, if_pos (beq_iff_eq.mpr h), Option.bind_some]
    have hpow : rows.base.pow 0 = 1 := rfl
    rw [hpow, Nat.div_one]
  · rw [if_neg h, if_neg (by simpa using h), rowValuation, Option.bind_map]
    congr 1
    funext i
    have hpow : rows.base.pow (i + 1) = rows.base * rows.base.pow i := Nat.mul_comm _ _
    rw [Function.comp_apply, hpow, Nat.div_div_eq_div_mul]

theorem admits_rowValuation (rows : Rows) (names : List String) (row : Nat) :
    rows.Admits names (rowValuation rows names row) := by
  cases rows with
  | partials => trivial
  | total =>
    induction names generalizing row with
    | nil => exact fun _ hname => absurd hname List.not_mem_nil
    | cons first names ih =>
      intro name hname
      rw [rowValuation_cons]
      split
      · have hdigit : row % 2 = 0 ∨ row % 2 = 1 := by omega
        rcases hdigit with h | h <;> simp [Rows.base, h, digitValue]
      · next hne =>
        exact ih (row / 2) name ((List.mem_cons.mp hname).resolve_left fun h => hne h.symm)

theorem Rows.Admits.tail {rows : Rows} {first : String} {names : List String} {v : Valuation}
    (h : rows.Admits (first :: names) v) : rows.Admits names v := by
  cases rows with
  | partials => trivial
  | total => exact fun name hname => h name (List.mem_cons_of_mem first hname)

theorem Rows.Admits.stateDigit_lt {rows : Rows} {names : List String} {v : Valuation}
    (h : rows.Admits names v) {name : String} (hname : name ∈ names) :
    stateDigit (v name) < rows.base := by
  cases rows with
  | partials =>
    match v name with
    | some false | some true | none => decide
  | total =>
    obtain ⟨b, hb⟩ := Option.ne_none_iff_exists'.mp (h name hname)
    rw [hb]
    cases b <;> decide

/-- Some row says of the names what the valuation says. -/
theorem exists_row {rows : Rows} {names : List String} {v : Valuation}
    (h : rows.Admits names v) :
    ∃ row < rows.base.pow names.length, ∀ name ∈ names, rowValuation rows names row name = v name := by
  induction names with
  | nil => exact ⟨0, Nat.one_pos, fun _ hname => absurd hname List.not_mem_nil⟩
  | cons first names ih =>
    have hdigit : stateDigit (v first) < rows.base := h.stateDigit_lt List.mem_cons_self
    obtain ⟨row, hrow, hnames⟩ := ih h.tail
    have hmod : (stateDigit (v first) + rows.base * row) % rows.base = stateDigit (v first) := by
      rw [Nat.add_mul_mod_self_left, Nat.mod_eq_of_lt hdigit]
    have hdiv : (stateDigit (v first) + rows.base * row) / rows.base = row := by
      rw [Nat.add_mul_div_left _ _ rows.base_pos, Nat.div_eq_of_lt hdigit, Nat.zero_add]
    refine ⟨stateDigit (v first) + rows.base * row, ?_, ?_⟩
    · have hle : rows.base * (row + 1) ≤ rows.base * rows.base.pow names.length :=
        Nat.mul_le_mul_left _ hrow
      calc stateDigit (v first) + rows.base * row
          < rows.base + rows.base * row := Nat.add_lt_add_right hdigit _
        _ = rows.base * (row + 1) := by rw [Nat.mul_succ, Nat.add_comm]
        _ ≤ rows.base * rows.base.pow names.length := hle
        _ = rows.base.pow (names.length + 1) := Nat.mul_comm _ _
    · intro name hname
      rw [rowValuation_cons, hmod, hdiv]
      split
      · next heq => rw [digitValue_stateDigit, heq]
      · next hne => exact hnames name ((List.mem_cons.mp hname).resolve_left fun h => hne h.symm)

theorem mem_letters {rows : Rows} {m : Method} {s : Sentence} {c : Char} :
    c ∈ (letters rows m s).toList ↔
      ∃ v, rows.Admits s.atoms v ∧ letter (m.run v s).outcome = c := by
  simp only [letters, String.toList_ofList, List.mem_map, List.mem_range]
  refine ⟨fun h => ?_, fun h => ?_⟩
  · obtain ⟨row, -, hc⟩ := h
    exact ⟨_, admits_rowValuation rows s.atoms row, hc⟩
  · obtain ⟨v, hv, hc⟩ := h
    obtain ⟨row, hrow, hnames⟩ := exists_row hv
    refine ⟨row, hrow, ?_⟩
    have heval : s.eval (rowValuation rows s.atoms row) = s.eval v :=
      Sentence.eval_congr fun name hname => (hnames name (Sentence.mem_atoms.mpr hname)).symm
    rw [m.run_eq_eval] at hc ⊢
    rw [heval, hc]

theorem letter_eq_true {o : Except EvalError Bool} : letter o = 'T' ↔ o = .ok true := by
  match o with
  | .ok true | .ok false | .error (.unassigned _) | .error (.arity _) => simp [letter]

/-- A table has a letter for each row, `base` to the power of the number of names. The
    letters are those of the outcomes under the valuations that it ranges over, by
    whichever method, and they are all true just when each of these makes the
    sentence true. -/
theorem table_ranges_over_valuations (rows : Rows) (m : Method) (s : Sentence) :
    (letters rows m s).length = rows.base.pow s.atoms.length ∧
    (∀ m', letters rows m' s = letters rows m s) ∧
    (∀ c, c ∈ (letters rows m s).toList ↔
      ∃ v, rows.Admits s.atoms v ∧ letter (m.run v s).outcome = c) ∧
    ((∀ c ∈ (letters rows m s).toList, c = 'T') ↔
      ∀ v, rows.Admits s.atoms v → (m.run v s).outcome = .ok true) := by
  refine ⟨?_, fun m' => ?_, fun c => mem_letters, fun h v hv => ?_, fun h c hc => ?_⟩
  · rw [letters, String.length_ofList, List.length_map, List.length_range]
  · simp only [letters, Method.run_eq_eval]
  · exact letter_eq_true.mp (h _ (mem_letters.mpr ⟨v, hv, rfl⟩))
  · obtain ⟨v, hv, rfl⟩ := mem_letters.mp hc
    exact letter_eq_true.mpr (h v hv)

/-- A name is true in one row of two, and in a table of partial assignments it has a row
    of its own where it is not assigned. -/
example : letters .total .byStack (.atom "a") = "FT" ∧
    letters .partials .byStack (.atom "a") = "FTM" := by decide +kernel

end TruthTable

end Sentential
