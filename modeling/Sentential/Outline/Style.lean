import Sentential.Sentence.Basic

/- How an outline is drawn: the text that one level is set in by, the markers
   that stand for the connectives, and whether every argument is shown or only
   as many as the connective has in its usual form, one for a negation and two
   for a junction. -/
namespace Sentential

/-- The look of an outline. -/
structure Style where
  /-- What a line is set in by for each level. -/
  indent : String := "  "
  /-- Stands for a conjunction. -/
  conj : String := "&"
  /-- Stands for a disjunction. -/
  disj : String := "v"
  /-- Stands for a negation. -/
  neg : String := "~"
  /-- Whether every argument is shown. -/
  allChildren : Bool := false
  deriving DecidableEq, Repr

/-- Arguments a connective has in its usual form. -/
def Connective.arity : Connective → Nat
  | .neg => 1
  | .conj => 2
  | .disj => 2

namespace Style

/-- The marker of a connective. -/
def marker (style : Style) : Connective → String
  | .neg => style.neg
  | .conj => style.conj
  | .disj => style.disj

/-- What a node's line says: its name, or its marker. -/
def label (style : Style) : Sentence → String
  | .atom name => name
  | .compound op _ => style.marker op

/-- How many arguments are called for under a connective that has `given`. -/
def shown (style : Style) (op : Connective) (given : Nat) : Nat :=
  if style.allChildren then given else op.arity

end Style

end Sentential
