import Mathlib.Data.List.TakeWhile
import Sentential.Text.Quoted

/- Quoted text can be read back, whatever stands behind it. A way of writing
   reads back at `a` (`ReadsBack`) when from the text of `a`, carried on in any
   way, both `a` and what follows can be told. This is kept when texts are put
   one behind the other, and a row of such texts reads back when the character
   that closes the row begins none of them (`flatMap_append_inj`), with a
   separator between them as well (`intercalate_append_inj`). Of an escape it
   holds because there is a reader of escapes (`unescape_escape`): a backslash
   never stands for itself, and no hexadecimal digit is a brace. What quoted text
   consists of can all be seen (`isHidden_of_mem_quoted`). -/
namespace Sentential.Text

/-- From the text of `a` with anything behind it, both can be told. (A text is a
    list of characters or of whole lines.) -/
def ReadsBack {α γ : Type} (write : α → List γ) (a : α) : Prop :=
  ∀ b x y, write a ++ x = write b ++ y → a = b ∧ x = y

section Rows
variable {α β γ : Type}

/-- A text that is always the same may stand in front. -/
theorem ReadsBack.behind {write : α → List γ} {a : α} (h : ReadsBack write a)
    (front : List γ) : ReadsBack (fun a => front ++ write a) a := by
  intro b x y hxy
  simp only [List.append_assoc] at hxy
  exact h b x y (List.append_cancel_left hxy)

variable {write : α → List γ} {close : γ} {as bs : List α} {x y : List γ}

theorem flatMap_append_inj (hclose : ∀ a x y, write a ++ x ≠ close :: y)
    (has : ∀ a ∈ as, ReadsBack write a)
    (h : as.flatMap write ++ close :: x = bs.flatMap write ++ close :: y) : as = bs ∧ x = y := by
  induction as generalizing bs with
  | nil =>
    cases bs with
    | nil => exact ⟨rfl, List.tail_eq_of_cons_eq h⟩
    | cons b bs =>
      rw [List.flatMap_cons, List.append_assoc] at h
      exact absurd h.symm (hclose b _ _)
  | cons a as ih =>
    rw [List.flatMap_cons, List.append_assoc] at h
    cases bs with
    | nil => exact absurd h (hclose a _ _)
    | cons b bs =>
      rw [List.flatMap_cons, List.append_assoc] at h
      obtain ⟨hab, hrest⟩ := has a (by simp) b _ _ h
      obtain ⟨habs, hxy⟩ := ih (fun c hc => has c (by simp [hc])) hrest
      exact ⟨by rw [hab, habs], hxy⟩

theorem intercalate_cons_eq_flatMap (sep : List γ) (a : List γ) (as : List (List γ)) :
    sep.intercalate (a :: as) = a ++ as.flatMap (sep ++ ·) := by
  induction as generalizing a with
  | nil => simp
  | cons b as ih =>
    simp only [List.intercalate_cons_cons, ih b, List.flatMap_cons, List.append_assoc]

theorem intercalate_append_sep (sep : List γ) {as : List (List γ)} (h : as ≠ []) :
    sep.intercalate as ++ sep = as.flatMap (· ++ sep) := by
  induction as with
  | nil => exact absurd rfl h
  | cons a as ih =>
    cases as with
    | nil => rw [List.intercalate_singleton, List.flatMap_singleton]
    | cons b as =>
      rw [List.intercalate_cons_cons, List.append_assoc, ih (by simp)]
      rfl

theorem intercalate_append_inj {sep : List γ} (hsep : ∀ x y, sep ++ x ≠ close :: y)
    (hclose : ∀ a x y, write a ++ x ≠ close :: y) (has : ∀ a ∈ as, ReadsBack write a)
    (h : sep.intercalate (as.map write) ++ close :: x =
      sep.intercalate (bs.map write) ++ close :: y) : as = bs ∧ x = y := by
  cases as with
  | nil =>
    cases bs with
    | nil => exact ⟨rfl, List.tail_eq_of_cons_eq h⟩
    | cons b bs =>
      rw [List.map_cons, intercalate_cons_eq_flatMap, List.append_assoc] at h
      exact absurd h.symm (hclose b _ _)
  | cons a as =>
    rw [List.map_cons, intercalate_cons_eq_flatMap, List.append_assoc] at h
    cases bs with
    | nil => exact absurd h (hclose a _ _)
    | cons b bs =>
      rw [List.map_cons, intercalate_cons_eq_flatMap, List.append_assoc] at h
      obtain ⟨hab, hrest⟩ := has a (by simp) b _ _ h
      -- behind the first member every one has the separator in front
      simp only [List.flatMap_map] at hrest
      obtain ⟨habs, hxy⟩ := flatMap_append_inj
        (fun c x y => by rw [List.append_assoc]; exact hsep _ _)
        (fun c hc => (has c (by simp [hc])).behind sep) hrest
      exact ⟨by rw [hab, habs], hxy⟩

end Rows

/-! ## Hexadecimal numbers -/

/-- The value of a hexadecimal digit. -/
def hexDigit (c : Char) : Nat := "0123456789abcdef".toList.idxOf c

/-- The number that hexadecimal digits spell. -/
def hexValue (cs : List Char) : Nat := cs.foldl (fun n c => 16 * n + hexDigit c) 0

theorem hexDigit_digitChar {n : Nat} (h : n < 16) : hexDigit n.digitChar = n :=
  (by decide : ∀ n < 16, hexDigit n.digitChar = n) n h

theorem hexValue_toDigits (n : Nat) : hexValue (Nat.toDigits 16 n) = n := by
  induction n using Nat.strongRecOn with
  | _ n ih =>
    rw [Nat.toDigits_eq_if (by decide)]
    split
    · rename_i h
      show 16 * 0 + hexDigit n.digitChar = n
      rw [hexDigit_digitChar h]
      omega
    · have hdigit : hexDigit (n % 16).digitChar = n % 16 := hexDigit_digitChar (by omega)
      have hvalue : hexValue (Nat.toDigits 16 (n / 16)) = n / 16 := ih (n / 16) (by omega)
      rw [hexValue, List.foldl_append, ← hexValue, hvalue]
      show 16 * (n / 16) + hexDigit (n % 16).digitChar = n
      rw [hdigit]
      omega

theorem exists_of_mem_toDigits {c : Char} {n : Nat} (h : c ∈ Nat.toDigits 16 n) :
    ∃ k < 16, c = k.digitChar := by
  induction n using Nat.strongRecOn with
  | _ n ih =>
    rw [Nat.toDigits_eq_if (by decide)] at h
    split at h
    · exact ⟨n, by assumption, List.mem_singleton.mp h⟩
    · rcases List.mem_append.mp h with h | h
      · exact ih (n / 16) (by omega) h
      · exact ⟨n % 16, by omega, List.mem_singleton.mp h⟩

/-! ## Reading escapes -/

/-- The character that a backslash and this mark stand for. -/
def markedChar (mark : Char) : Char :=
  if mark = '0' then '\x00'
  else if mark = 't' then '\t'
  else if mark = 'r' then '\r'
  else if mark = 'n' then '\n'
  else mark

/-- Reads one character of quoted text, and gives what is left of the text. -/
def unescape : List Char → Option (Char × List Char)
  | [] => none
  | [c] => some (c, [])
  | c :: mark :: rest =>
    if c ≠ '\\' then some (c, mark :: rest)
    else if mark ≠ 'u' then some (markedChar mark, rest)
    else
      some (.ofNat (hexValue (rest.tail.takeWhile (· != '\x7d'))),
        (rest.tail.dropWhile (· != '\x7d')).tail)

theorem unescape_of_ne {c : Char} (h : c ≠ '\\') (rest : List Char) :
    unescape (c :: rest) = some (c, rest) := by
  cases rest with
  | nil => rfl
  | cons mark rest => rw [unescape, if_pos h]

theorem unescape_code (c : Char) (rest : List Char) :
    unescape (['\\', 'u', '\x7b'] ++ Nat.toDigits 16 c.toNat ++ ['\x7d'] ++ rest) =
      some (c, rest) := by
  have hne : ∀ d ∈ Nat.toDigits 16 c.toNat, (d != '\x7d') = true := by
    intro d hd
    obtain ⟨k, hk, rfl⟩ := exists_of_mem_toDigits hd
    exact (by decide : ∀ k < 16, (k.digitChar != '\x7d') = true) k hk
  have hdigits : (Nat.toDigits 16 c.toNat ++ '\x7d' :: rest).takeWhile (· != '\x7d') =
      Nat.toDigits 16 c.toNat := by
    rw [List.takeWhile_append_of_pos hne, List.takeWhile_cons_of_neg (by simp), List.append_nil]
  have hrest : (Nat.toDigits 16 c.toNat ++ '\x7d' :: rest).dropWhile (· != '\x7d') =
      '\x7d' :: rest := by
    rw [List.dropWhile_append_of_pos hne, List.dropWhile_cons_of_neg (by simp)]
  have htext : ['\\', 'u', '\x7b'] ++ Nat.toDigits 16 c.toNat ++ ['\x7d'] ++ rest =
      '\\' :: 'u' :: '\x7b' :: (Nat.toDigits 16 c.toNat ++ '\x7d' :: rest) := by simp
  rw [htext, unescape, if_neg (by decide), if_neg (by decide), List.tail_cons, hdigits,
    hexValue_toDigits, Char.ofNat_toNat, hrest, List.tail_cons]

/-- Reading undoes escaping, and stops where the escape ends. -/
theorem unescape_escape (c : Char) (rest : List Char) :
    unescape (escape c ++ rest) = some (c, rest) := by
  unfold escape
  split_ifs with h0 ht hr hn hquote hbackslash hhidden
  · rw [h0]; rfl
  · rw [ht]; rfl
  · rw [hr]; rfl
  · rw [hn]; rfl
  · rw [hquote]; rfl
  · rw [hbackslash]; rfl
  · exact unescape_code c rest
  · exact unescape_of_ne hbackslash rest

theorem escape_readsBack (c : Char) : ReadsBack escape c := by
  intro d x y h
  have hread : some (c, x) = some (d, y) := by
    rw [← unescape_escape c x, h, unescape_escape d y]
  cases hread
  exact ⟨rfl, rfl⟩

/-- A quote in a quoted text has a backslash before it. -/
theorem escape_append_ne_quote (c : Char) (x y : List Char) : escape c ++ x ≠ '"' :: y := by
  intro h
  have hread := unescape_escape c x
  rw [h, unescape_of_ne (by decide)] at hread
  cases hread
  -- the character read is the quote itself, whose escape begins with a backslash
  cases h

theorem toList_quoted (s : String) :
    (quoted s).toList = '"' :: (s.toList.flatMap escape ++ ['"']) := by
  rw [quoted, String.toList_ofList, List.cons_append]

/-- Quoted text shows where it ends and what it stands for. -/
theorem quoted_readsBack (s : String) : ReadsBack (fun s => (quoted s).toList) s := by
  intro t x y h
  simp only [toList_quoted, List.cons_append, List.append_assoc] at h
  obtain ⟨hst, hxy⟩ := flatMap_append_inj escape_append_ne_quote (fun c _ => escape_readsBack c)
    (List.tail_eq_of_cons_eq h)
  exact ⟨String.toList_inj.mp hst, hxy⟩

/-! ## Quoted text can be seen -/

theorem isHidden_ascii {c : Char} (h : 0x20 ≤ c.toNat ∧ c.toNat < 0x7f) : isHidden c = false := by
  rw [isHidden, isExtending_ascii (by omega), isUnprintable_ascii h.1 h.2, Bool.or_false]

theorem isHidden_digitChar {k : Nat} (h : k < 16) : isHidden k.digitChar = false :=
  isHidden_ascii ((by decide : ∀ k < 16, 0x20 ≤ k.digitChar.toNat ∧ k.digitChar.toNat < 0x7f) k h)

/-- An escape has only characters that can be seen: what is hidden is written by its
    code point. -/
theorem isHidden_of_mem_escape {c d : Char} (h : d ∈ escape c) : isHidden d = false := by
  have hascii {cs : List Char} (hcs : (cs.all fun d => 0x20 ≤ d.toNat ∧ d.toNat < 0x7f) = true)
      (hd : d ∈ cs) : isHidden d = false :=
    isHidden_ascii (of_decide_eq_true (List.all_eq_true.mp hcs d hd))
  unfold escape at h
  split_ifs at h with h0 ht hr hn hquote hbackslash hhidden
  iterate 6 exact hascii (by decide) h
  · rcases List.mem_append.mp h with h | h
    · rcases List.mem_append.mp h with h | h
      · exact hascii (by decide) h
      · obtain ⟨k, hk, rfl⟩ := exists_of_mem_toDigits h
        exact isHidden_digitChar hk
    · exact hascii (by decide) h
  · obtain rfl : d = c := List.mem_singleton.mp h
    exact Bool.eq_false_iff.mpr hhidden

/-- Every character of a quoted text can be seen. -/
theorem isHidden_of_mem_quoted {s : String} {c : Char} (h : c ∈ (quoted s).toList) :
    isHidden c = false := by
  rw [toList_quoted] at h
  rcases List.mem_cons.mp h with rfl | h
  · exact isHidden_ascii (by decide)
  · rcases List.mem_append.mp h with h | h
    · obtain ⟨d, -, hc⟩ := List.mem_flatMap.mp h
      exact isHidden_of_mem_escape hc
    · obtain rfl : c = '"' := List.mem_singleton.mp h
      exact isHidden_ascii (by decide)

/-- Quoted text stays on one line. -/
theorem feed_not_mem_quoted (s : String) : '\n' ∉ (quoted s).toList := by
  intro h
  have hfeed : isHidden '\n' = true := by decide +kernel
  rw [isHidden_of_mem_quoted h] at hfeed
  cases hfeed

end Sentential.Text
