import Sentential.Proofs.Drafts

/- Outlines in a sink that has room for so many bytes. What the sink makes of a
   list of pieces depends only on the bytes of all the pieces together: they fit
   (`putAll_bounded_of_le`), or the sink keeps the bytes that do and refuses
   (`putAll_bounded_of_lt`), wherever the limit falls. A fault behind the last
   piece is met in the first case only, so a refusal wins over a missing
   argument. And in any sink whatever, the state in the end is the one that the
   last piece was taken in, or that the refusal of one left (`putAll_eq_error`):
   nothing is written behind a fault. -/
namespace Sentential
namespace Writer

theorem close_eq_error {σ : Type} {fault : Option OutlineError} {e : OutlineError} {state state' : σ} :
    (close fault : Writer σ Unit) state = .error e state' ↔ fault = some e ∧ state = state' := by
  cases fault with
  | none =>
    refine ⟨?_, ?_⟩
    · intro h
      cases h
    · rintro ⟨hf, -⟩
      cases hf
  | some f =>
    refine ⟨?_, ?_⟩
    · intro h
      cases h
      exact ⟨rfl, rfl⟩
    · rintro ⟨hf, rfl⟩
      obtain rfl := Option.some.inj hf
      rfl

/-! ## Any sink -/

section AnySink
variable {σ : Type} [Sink σ]

theorem putAll_cons_of_ok {piece : String} {state next : σ} (h : Sink.put piece state = .ok () next)
    (pieces : List String) (fault : Option OutlineError) :
    putAll (piece :: pieces) fault state = putAll pieces fault next := by
  show EStateM.bind _ _ state = _
  simp only [EStateM.bind, put, EStateM.adaptExcept, h]

theorem putAll_cons_of_error {piece reason : String} {state next : σ}
    (h : Sink.put piece state = .error reason next) (pieces : List String)
    (fault : Option OutlineError) :
    putAll (piece :: pieces) fault state = .error (.refused reason) next := by
  show EStateM.bind _ _ state = _
  simp only [EStateM.bind, put, EStateM.adaptExcept, h]

/-- A run fails behind its last piece, or at the first piece that is refused and
    in the state which that refusal leaves. -/
theorem putAll_eq_error {pieces : List String} {fault : Option OutlineError} {e : OutlineError}
    {state state' : σ} (h : putAll pieces fault state = .error e state') :
    (fault = some e ∧ putAll pieces none state = .ok () state') ∨
      ∃ before piece behind reason mid, pieces = before ++ piece :: behind ∧
        putAll before none state = .ok () mid ∧ Sink.put piece mid = .error reason state' ∧
        e = .refused reason := by
  induction pieces generalizing state with
  | nil =>
    obtain ⟨hfault, rfl⟩ := close_eq_error.mp h
    exact .inl ⟨hfault, rfl⟩
  | cons piece pieces ih =>
    cases hput : Sink.put piece state with
    | error reason next =>
      rw [putAll_cons_of_error hput] at h
      cases h
      exact .inr ⟨[], piece, pieces, reason, state, rfl, rfl, hput, rfl⟩
    | ok _ next =>
      rw [putAll_cons_of_ok hput] at h
      rcases ih h with ⟨hfault, hall⟩ | ⟨before, bad, behind, reason, mid, hsplit, hbefore, hbad, he⟩
      · exact .inl ⟨hfault, by rw [putAll_cons_of_ok hput, hall]⟩
      · refine .inr ⟨piece :: before, bad, behind, reason, mid, ?_, ?_, hbad, he⟩
        · rw [hsplit, List.cons_append]
        · rw [putAll_cons_of_ok hput, hbefore]

end AnySink

end Writer

/-! ## A sink with room for so many bytes -/

theorem extract_append_of_le {a b : ByteArray} {n : Nat} (h : n ≤ a.size) :
    (a ++ b).extract 0 n = a.extract 0 n := by
  have hb : b.extract (0 - a.size) (n - a.size) = ByteArray.empty :=
    ByteArray.extract_eq_empty_iff.mpr (by omega)
  rw [ByteArray.extract_append, hb, ByteArray.append_empty]

theorem extract_append_of_ge {a b : ByteArray} {n : Nat} (h : a.size ≤ n) :
    (a ++ b).extract 0 n = a ++ b.extract 0 (n - a.size) := by
  have ha : a.extract 0 n = a := by
    rw [← Nat.max_eq_left h]
    exact ByteArray.extract_zero_max_size
  rw [ByteArray.extract_append, ha, Nat.zero_sub]

theorem join_cons_toUTF8 (piece : String) (pieces : List String) :
    (String.join (piece :: pieces)).toUTF8 = piece.toUTF8 ++ (String.join pieces).toUTF8 := by
  rw [String.join_cons]
  exact String.toByteArray_append

namespace Bounded
variable {taken : ByteArray} {piece : String} {room : Nat}

theorem put_of_le (h : piece.toUTF8.size ≤ room) (refusal : String) :
    Sink.put piece (⟨taken, room, refusal⟩ : Bounded) =
      .ok () ⟨taken ++ piece.toUTF8, room - piece.toUTF8.size, refusal⟩ :=
  if_pos h

theorem put_of_lt (h : room < piece.toUTF8.size) (refusal : String) :
    Sink.put piece (⟨taken, room, refusal⟩ : Bounded) =
      .error refusal ⟨taken ++ piece.toUTF8.extract 0 room, 0, refusal⟩ :=
  if_neg (Nat.not_le.mpr h)

end Bounded

namespace Writer

/-- Pieces that fit are taken, and the run ends as it would anywhere. -/
theorem putAll_bounded_of_le {pieces : List String} {taken : ByteArray} {room : Nat}
    (h : (String.join pieces).toUTF8.size ≤ room) (refusal : String)
    (fault : Option OutlineError) :
    (putAll pieces fault : Writer Bounded Unit) ⟨taken, room, refusal⟩ =
      close fault ⟨taken ++ (String.join pieces).toUTF8,
        room - (String.join pieces).toUTF8.size, refusal⟩ := by
  induction pieces generalizing taken room with
  | nil => simp [putAll, String.toUTF8]
  | cons piece pieces ih =>
    rw [join_cons_toUTF8, ByteArray.size_append] at h
    rw [putAll_cons_of_ok (Bounded.put_of_le (by omega) refusal), ih (by omega),
      join_cons_toUTF8, ByteArray.size_append, ByteArray.append_assoc, Nat.sub_sub]

/-- Of pieces that do not fit the first bytes are taken, and the run ends with
    the refusal. -/
theorem putAll_bounded_of_lt {pieces : List String} {taken : ByteArray} {room : Nat}
    (h : room < (String.join pieces).toUTF8.size) (refusal : String)
    (fault : Option OutlineError) :
    (putAll pieces fault : Writer Bounded Unit) ⟨taken, room, refusal⟩ =
      .error (.refused refusal)
        ⟨taken ++ (String.join pieces).toUTF8.extract 0 room, 0, refusal⟩ := by
  induction pieces generalizing taken room with
  | nil => exact absurd h (by simp [String.toUTF8])
  | cons piece pieces ih =>
    rw [join_cons_toUTF8, ByteArray.size_append] at h
    rw [join_cons_toUTF8]
    -- the limit falls behind this piece or inside it
    by_cases hfits : piece.toUTF8.size ≤ room
    · rw [putAll_cons_of_ok (Bounded.put_of_le hfits refusal), ih (by omega),
        extract_append_of_ge hfits, ByteArray.append_assoc]
    · have hlt : room < piece.toUTF8.size := by omega
      rw [putAll_cons_of_error (Bounded.put_of_lt hlt refusal),
        extract_append_of_le (Nat.le_of_lt hlt)]

end Writer

/-- Let `full` be the bytes of an outline in the sink that takes everything. A
    sink with room for them takes them all, and the outline ends there as it
    does anywhere; a sink with less room takes the first of them, as many as it
    has room for, and the outline ends with its refusal, also where an argument
    is missing. In every sink the same lines are put one after the other, the
    first fault ends it, and the sink is left as it was then. -/
theorem outline_in_bounded_sink (style : Style) (level : Nat) (s : Sentence) :
    let r := s.rendering style level
    let full := r.text.toUTF8
    (∀ room refusal, full.size ≤ room →
      s.write style level (⟨.empty, room, refusal⟩ : Bounded) =
        Writer.close r.error ⟨full, room - full.size, refusal⟩) ∧
    (∀ room refusal, room < full.size →
      s.write style level (⟨.empty, room, refusal⟩ : Bounded) =
        .error (.refused refusal) ⟨full.extract 0 room, 0, refusal⟩) ∧
    ∃ lines, String.join lines = r.text ∧ ∀ (σ : Type) [Sink σ],
      (s.write style level : Writer σ Unit) = Writer.putAll lines r.error ∧
      ∀ (state state' : σ) e, s.write style level state = .error e state' →
        (r.error = some e ∧ Writer.putAll lines none state = .ok () state') ∨
          ∃ before piece behind reason mid, lines = before ++ piece :: behind ∧
            Writer.putAll before none state = .ok () mid ∧
            Sink.put piece mid = .error reason state' ∧ e = .refused reason := by
  simp only [Sentence.rendering_eq, Sentence.write_eq_put, Draft.put]
  refine ⟨?_, ?_, (s.draft style level).lines.map (·.text style), rfl, ?_⟩
  · intro room refusal h
    rw [Writer.putAll_bounded_of_le h, ByteArray.empty_append]
    rfl
  · intro room refusal h
    rw [Writer.putAll_bounded_of_lt h, ByteArray.empty_append]
    rfl
  · intro σ _
    exact ⟨rfl, fun state state' e h => Writer.putAll_eq_error h⟩

/-- A conjunction with one argument, named by a character of two bytes: the
    limit falls behind the missing argument's place, and inside the character. -/
theorem outline_in_bounded_sink_cut_inside_a_character :
    let s : Sentence := .conj [.atom "é"]
    let full : ByteArray := ⟨#[0x26, 0x0a, 0x20, 0x20, 0xc3, 0xa9, 0x0a]⟩
    (full.size ≤ 7 ∧ s.write {} 0 (⟨.empty, 7, "no room"⟩ : Bounded) =
      .error (.missingChild .conj 1) ⟨full, 0, "no room"⟩) ∧
    5 < full.size ∧ s.write {} 0 (⟨.empty, 5, "no room"⟩ : Bounded) =
      .error (.refused "no room") ⟨⟨#[0x26, 0x0a, 0x20, 0x20, 0xc3]⟩, 0, "no room"⟩ := by
  intro s full
  have hr : s.rendering {} 0 = ⟨"&\n  é\n", some (.missingChild .conj 1)⟩ := by decide +kernel
  have hfull : "&\n  é\n".toUTF8 = full := by decide +kernel
  have hcut : full.extract 0 5 = ⟨#[0x26, 0x0a, 0x20, 0x20, 0xc3]⟩ := by decide +kernel
  obtain ⟨hfits, hcutoff, -⟩ := outline_in_bounded_sink {} 0 s
  rw [hr] at hfits hcutoff
  simp only [hfull] at hfits hcutoff
  refine ⟨⟨by decide, hfits 7 "no room" (by decide)⟩, by decide, ?_⟩
  rw [hcutoff 5 "no room" (by decide), hcut]

end Sentential
