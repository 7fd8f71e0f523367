import Mathlib.Data.List.Lex
import Mathlib.Data.String.Basic

/- Texts are ordered by the bytes of their UTF-8 form as they are by code points. A
   character is written as a lead byte and up to three bytes behind it, which hold
   six binary digits each (`sextets`). A longer form has a larger lead byte, and of two
   forms of one length the larger code point has the larger byte where they differ
   first, which is an induction on the number of bytes (`sextets_append_lt`). So two
   texts differ in their bytes inside the characters in which they differ first. -/
namespace Sentential.Text

/-! ## The bytes of a character -/

/-- The digits of a number before the last `k` groups of six. -/
def front : Nat → Nat → Nat
  | 0, n => n
  | k + 1, n => front k (n / 64)

/-- A byte for the first digits of a number, added to `base`, and a byte for each of
    the last `k` groups of six. -/
def sextets (base : Nat) : Nat → Nat → List UInt8
  | 0, n => [UInt8.ofNat (base + n)]
  | k + 1, n => sextets base k (n / 64) ++ [UInt8.ofNat (n % 64 + 0x80)]

/-- How many bytes stand behind the lead byte of a code point. -/
def trailing (n : Nat) : Nat :=
  if n ≤ 0x7f then 0 else if n ≤ 0x7ff then 1 else if n ≤ 0xffff then 2 else 3

/-- What the lead byte before `k` bytes begins from. -/
def leadBase : Nat → Nat
  | 0 => 0
  | 1 => 0xc0
  | 2 => 0xe0
  | 3 => 0xf0
  | _ => 0xf8

theorem ofNat_lt_ofNat {a b : Nat} (h : a < b) (hb : b < 256) : UInt8.ofNat a < UInt8.ofNat b :=
  (UInt8.ofNat_lt_iff_lt (h.trans hb) hb).mpr h

theorem codePoint_lt (c : Char) : c.toNat < 0x110000 := by
  rcases c.valid with h | ⟨-, h⟩
  · exact h.trans (by decide)
  · exact h

theorem utf8EncodeChar_eq (c : Char) :
    String.utf8EncodeChar c = sextets (leadBase (trailing c.toNat)) (trailing c.toNat) c.toNat := by
  have hc : c.toNat < 0x110000 := codePoint_lt c
  have hn : c.val.toNat = c.toNat := rfl
  simp only [String.utf8EncodeChar, hn, trailing]
  generalize c.toNat = n at hc
  split_ifs
  · simp [sextets, leadBase]
  · have h1 : n / 64 % 0x20 = n / 64 := by omega
    simp [sextets, leadBase, h1, Nat.add_comm]
  · have h1 : n / 64 / 64 = n / 4096 := by omega
    have h2 : n / 4096 % 0x10 = n / 4096 := by omega
    simp [sextets, leadBase, h1, h2, Nat.add_comm]
  · have h1 : n / 64 / 64 = n / 4096 := by omega
    have h2 : n / 4096 / 64 = n / 262144 := by omega
    have h3 : n / 262144 % 0x08 = n / 262144 := by omega
    simp [sextets, leadBase, h1, h2, h3, Nat.add_comm]

theorem sextets_append_lt {base k m n : Nat} (h : m < n) (hn : base + front k n < 256)
    (as bs : List UInt8) : sextets base k m ++ as < sextets base k n ++ bs := by
  induction k generalizing m n as bs with
  | zero => exact List.cons_lt_cons_iff.mpr (.inl (ofNat_lt_ofNat (by omega) hn))
  | succ k ih =>
    rw [sextets, sextets, List.append_assoc, List.append_assoc]
    by_cases hfront : m / 64 = n / 64
    · rw [hfront]
      exact List.append_left_lt
        (List.cons_lt_cons_iff.mpr (.inl (ofNat_lt_ofNat (by omega) (by omega))))
    · exact ih (by omega) hn _ _

theorem exists_sextets_eq (base k n : Nat) :
    ∃ rest, sextets base k n = UInt8.ofNat (base + front k n) :: rest := by
  induction k generalizing n with
  | zero => exact ⟨[], rfl⟩
  | succ k ih =>
    obtain ⟨rest, hrest⟩ := ih (n / 64)
    exact ⟨rest ++ [UInt8.ofNat (n % 64 + 0x80)], by rw [sextets, hrest]; rfl⟩

/-- The lead byte tells how many bytes are behind it. -/
theorem lead_lt {n : Nat} (h : n < 0x110000) :
    leadBase (trailing n) + front (trailing n) n < leadBase (trailing n + 1) := by
  unfold trailing
  split_ifs <;> simp only [leadBase, front] <;> omega

theorem trailing_mono {m n : Nat} (h : m ≤ n) : trailing m ≤ trailing n := by
  unfold trailing
  split_ifs <;> omega

theorem trailing_le (n : Nat) : trailing n ≤ 3 := by
  unfold trailing
  split_ifs <;> omega

theorem leadBase_mono : Monotone leadBase := by
  apply monotone_nat_of_le_succ
  intro k
  match k with
  | 0 | 1 | 2 | 3 | _ + 4 => simp [leadBase]

theorem utf8EncodeChar_append_lt {c d : Char} (h : c < d) (as bs : List UInt8) :
    String.utf8EncodeChar c ++ as < String.utf8EncodeChar d ++ bs := by
  have hlt : c.toNat < d.toNat := h
  have hc := lead_lt (codePoint_lt c)
  have hd := lead_lt (codePoint_lt d)
  have hbyte : leadBase (trailing d.toNat + 1) ≤ 0xf8 :=
    leadBase_mono (Nat.succ_le_succ (trailing_le _))
  rw [utf8EncodeChar_eq, utf8EncodeChar_eq]
  rcases (trailing_mono hlt.le).eq_or_lt with heq | hless
  · rw [heq]
    exact sextets_append_lt hlt (by omega) as bs
  · -- the shorter form has the smaller lead byte
    have hbase : leadBase (trailing c.toNat + 1) ≤ leadBase (trailing d.toNat) :=
      leadBase_mono hless
    obtain ⟨_, hrest⟩ := exists_sextets_eq (leadBase (trailing c.toNat)) (trailing c.toNat) c.toNat
    obtain ⟨_, hrest'⟩ := exists_sextets_eq (leadBase (trailing d.toNat)) (trailing d.toNat) d.toNat
    rw [hrest, hrest']
    exact List.cons_lt_cons_iff.mpr (.inl (ofNat_lt_ofNat (by omega) (by omega)))

/-! ## The bytes of a text -/

theorem bytes_eq (s : String) :
    s.toUTF8.data.toList = s.toList.flatMap String.utf8EncodeChar := by
  rw [String.toUTF8_eq_toByteArray, ← String.utf8Encode_toList, List.utf8Encode,
    List.toList_data_toByteArray]

theorem encoded_lt {cs ds : List Char} (h : cs < ds) :
    cs.flatMap String.utf8EncodeChar < ds.flatMap String.utf8EncodeChar := by
  induction h with
  | @nil d ds =>
    obtain ⟨b, bs, hd⟩ := List.exists_cons_of_ne_nil (String.utf8EncodeChar_ne_nil (c := d))
    rw [List.flatMap_cons, hd]
    exact .nil
  | rel h =>
    rw [List.flatMap_cons, List.flatMap_cons]
    exact utf8EncodeChar_append_lt h _ _
  | cons _ ih =>
    rw [List.flatMap_cons, List.flatMap_cons]
    exact List.append_left_lt ih

/-- The bytes of texts are ordered as their code points are. -/
theorem bytes_lt_iff {s t : String} :
    s.toUTF8.data.toList < t.toUTF8.data.toList ↔ s.toList < t.toList := by
  rw [bytes_eq, bytes_eq]
  refine ⟨?_, encoded_lt⟩
  intro h
  rcases lt_trichotomy s.toList t.toList with hlt | heq | hgt
  · exact hlt
  · rw [heq] at h
    exact absurd h (List.lt_irrefl _)
  · exact absurd h (List.lt_asymm (encoded_lt hgt))

end Sentential.Text
