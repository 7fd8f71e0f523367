/- Where an outline is written to. A sink takes text piece by piece and may
   refuse; what it took before it refused stays taken. `String` is the sink that
   takes everything, and `Bounded` one with room for a fixed number of bytes,
   which takes the bytes that still fit of the first piece too long for it. -/
namespace Sentential

/-- A type of states that text can be written to. A refusal is given as a text
    and leaves a state too. -/
class Sink (σ : Type) where
  /-- Writes one piece. -/
  put : String → EStateM String σ Unit

/-- A text takes every piece at its end. -/
instance : Sink String where
  put piece := fun text => .ok () (text ++ piece)

/-- A sink with room for so many bytes. -/
structure Bounded where
  /-- The bytes taken so far. -/
  taken : ByteArray := .empty
  /-- How many bytes it can still take. -/
  room : Nat
  /-- What it says when a piece does not fit. -/
  refusal : String

/-- Takes a piece that fits, or else its first bytes. -/
def Bounded.put (piece : String) : EStateM String Bounded Unit := fun sink =>
  let bytes := piece.toUTF8
  if bytes.size ≤ sink.room then
    .ok () { sink with taken := sink.taken ++ bytes, room := sink.room - bytes.size }
  else
    .error sink.refusal { sink with taken := sink.taken ++ bytes.extract 0 sink.room, room := 0 }

instance : Sink Bounded := ⟨Bounded.put⟩

end Sentential
