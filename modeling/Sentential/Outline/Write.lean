import Sentential.Outline.Sink
import Sentential.Outline.Style
import Sentential.Text.Copies

/- Outlines of sentences. Every node shown has a line of its own: the indent
   once for each level, the label, a line feed; its arguments follow, one level
   deeper. Where the style calls for an argument that the node does not have,
   writing stops there, and so it does at the first refusal of the sink; what
   was written before stays written. Levels are numbers of any size and an indent
   may be as long as it takes: that memory sets a bound to both is left out. -/
namespace Sentential

/-- Why an outline could not be completed. -/
inductive OutlineError where
  /-- A node lacks the argument at this index, which the style calls for. -/
  | missingChild (kind : Kind) (index : Nat)
  /-- The sink refused a line, with this explanation. -/
  | refused (reason : String)
  deriving DecidableEq, Repr

/-- The fault in words. -/
def OutlineError.message : OutlineError → String
  | .missingChild kind index => s!"{kind.label} node has no child at index {index}"
  | .refused reason => s!"Failed to write tree: {reason}"

/-- The line of a node, with its line feed. -/
def Style.line (style : Style) (level : Nat) (s : Sentence) : String :=
  Text.copies level style.indent ++ style.label s ++ "\n"

/-- Writing to a sink of this type, which may fail on the way. -/
abbrev Writer (σ : Type) := EStateM OutlineError σ

variable {σ : Type} [Sink σ]

/-- Writes one piece. -/
def Writer.put (piece : String) : Writer σ Unit :=
  EStateM.adaptExcept .refused (Sink.put piece)

namespace Sentence

mutual

/-- Writes the outline of a sentence whose root stands at the given level. -/
def write (style : Style) (level : Nat) : Sentence → Writer σ Unit
  | .atom name => Writer.put (style.line level (.atom name))
  | .compound op args => do
    Writer.put (style.line level (.compound op args))
    writeArgs style (level + 1) op 0 (style.shown op args.length) args

/-- Writes as many of the arguments as are called for; the first of them has
    the given index under its connective. -/
def writeArgs (style : Style) (level : Nat) (op : Connective) (index : Nat) :
    (wanted : Nat) → List Sentence → Writer σ Unit
  | 0, _ => return
  | _ + 1, [] => throw (.missingChild op.kind index)
  | wanted + 1, arg :: rest => do
    write style level arg
    writeArgs style level op (index + 1) wanted rest

end

end Sentence

/-- What a sink that takes everything has after an outline, complete or not. -/
structure Rendering where
  text : String
  /-- Why the outline stops where the text does, if it is not complete. -/
  error : Option OutlineError
  deriving DecidableEq, Repr

namespace Sentence

/-- The outline of a sentence, as far as it goes. -/
def rendering (style : Style) (level : Nat) (s : Sentence) : Rendering :=
  match (s.write style level : Writer String Unit) "" with
  | .ok _ text => ⟨text, none⟩
  | .error e text => ⟨text, some e⟩

/-- The complete outline of a sentence, or the reason why there is none. What the
    sink has taken is put together from texts, so there is no fault of its bytes. -/
def outline (style : Style) (s : Sentence) : Except OutlineError String :=
  let r := s.rendering style 0
  match r.error with
  | none => .ok r.text
  | some e => .error e

end Sentence

end Sentential
