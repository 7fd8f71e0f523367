import Sentential.Sentence.Basic
import Sentential.Text.Copies
import Sentential.Text.Quoted

/- Sentences written as constructor terms, in two layouts. The compact one is a
   single line, `And([Atom("a"), Not([])])`. The expanded one puts every
   argument and every bracket that opens or closes a list on a line of its own,
   four spaces to the level and a comma behind every argument; the empty list
   stays `[]`. -/
namespace Sentential
namespace Sentence

mutual

/-- The term on one line. -/
def term : Sentence → String
  | .atom name => Kind.atom.name ++ "(" ++ Text.quoted name ++ ")"
  | .compound op args => op.kind.name ++ "([" ++ ", ".intercalate (terms args) ++ "])"

/-- The terms of a list of sentences. -/
def terms : List Sentence → List String
  | [] => []
  | s :: rest => term s :: terms rest

end

/-- A line of the expanded layout, set in by four spaces for each level. -/
structure TermLine where
  level : Nat
  text : String
  deriving DecidableEq, Repr

/-- The line with its indentation. -/
def TermLine.render (l : TermLine) : String := Text.copies l.level "    " ++ l.text

mutual

/-- The lines of a term whose constructor stands at the given level; `tail` is
    what follows its closing parenthesis. -/
def termLines (level : Nat) (tail : String) : Sentence → List TermLine
  | .atom name =>
    [⟨level, Kind.atom.name ++ "("⟩, ⟨level + 1, Text.quoted name ++ ","⟩, ⟨level, ")" ++ tail⟩]
  | .compound op [] =>
    [⟨level, op.kind.name ++ "("⟩, ⟨level + 1, "[],"⟩, ⟨level, ")" ++ tail⟩]
  | .compound op args =>
    [⟨level, op.kind.name ++ "("⟩, ⟨level + 1, "["⟩] ++ argLines (level + 2) args ++
      [⟨level + 1, "],"⟩, ⟨level, ")" ++ tail⟩]

/-- The lines of the members of a list, each with a comma behind it. -/
def argLines (level : Nat) : List Sentence → List TermLine
  | [] => []
  | s :: rest => termLines level "," s ++ argLines level rest

end

/-- The term in the expanded layout; no line feed ends the last line. -/
def expandedTerm (s : Sentence) : String :=
  "\n".intercalate ((s.termLines 0 "").map TermLine.render)

end Sentence

end Sentential
