import Sentential.Assignment.Entry
import Sentential.Evaluation.Run
import Sentential.Outline.Write
import Sentential.Text.Quoted
import Sentential.Text.Record

/- Faults and styles written as terms, the way a developer wants to see them in
   a log: constructor, fields and quoted texts instead of a sentence of prose. -/
namespace Sentential

/-- An evaluation fault as a term. -/
def EvalError.term : EvalError → String
  | .arity found => Text.record "NotArity" [("found", toString found)]
  | .unassigned name => "MissingAtom(" ++ Text.quoted name ++ ")"

/-- An outline fault as a term. A refusal has none: what it holds belongs to the
    sink. -/
def OutlineError.term? : OutlineError → Option String
  | .missingChild kind index =>
    some (Text.record "MissingChild" [("kind", kind.name), ("index", toString index)])
  | .refused _ => none

/-- The sink's explanation behind a fault, if a sink is behind it. -/
def OutlineError.reason? : OutlineError → Option String
  | .missingChild _ _ => none
  | .refused reason => some reason

/-- A style as a term. -/
def Style.term (style : Style) : String :=
  Text.record "TreeStyle"
    [("indent", Text.quoted style.indent),
     ("and_marker", Text.quoted style.conj),
     ("or_marker", Text.quoted style.disj),
     ("not_marker", Text.quoted style.neg),
     ("all_children", truthWord style.allChildren)]

end Sentential
