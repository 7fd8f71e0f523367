/- A text repeated. The empty text repeated is empty whatever the count, and is
   given at once, so a count far beyond memory costs nothing. -/
namespace Sentential.Text

/-- `n` copies of a text, one after the other. -/
def copies (n : Nat) (s : String) : String :=
  if s.isEmpty then "" else String.join (List.replicate n s)

theorem copies_eq (n : Nat) (s : String) : copies n s = String.join (List.replicate n s) := by
  unfold copies
  split
  · rename_i h
    rw [String.isEmpty_iff] at h
    subst h
    induction n with
    | zero => rfl
    | succ n ih => simp [List.replicate_succ, ← ih]
  · rfl

end Sentential.Text
