import Sentential.Sentence.Atoms
import Sentential.Evaluation.Report

/- Truth tables. The rows of a sentence are all the assignments of its names,
   total ones or also partial ones. They are numbered: the digits of the row
   number, the lowest first, say what the names in ascending order are, 0 for
   false, 1 for true and 2 for not assigned. A table shows at once what a sentence
   comes to under any valuation, by one method or the other. -/
namespace Sentential
namespace TruthTable

/-- The assignments that a table ranges over. -/
inductive Rows where
  | total
  | partials
  deriving DecidableEq, Repr

/-- Number of states that a name can be in. -/
def Rows.base : Rows → Nat
  | .total => 2
  | .partials => 3

/-- The state of a name that a digit stands for. -/
def digitValue : Nat → Option Bool
  | 0 => some false
  | 1 => some true
  | _ => none

/-- The valuation of a row; names that are not listed are not assigned. -/
def rowValuation (rows : Rows) (names : List String) (row : Nat) : Valuation := fun name =>
  (names.idxOf? name).bind fun i => digitValue (row / rows.base.pow i % rows.base)

/-- The letter of an outcome: its value, or the kind of its fault. -/
def letter : Except EvalError Bool → Char
  | .ok true => 'T'
  | .ok false => 'F'
  | .error (.unassigned _) => 'M'
  | .error (.arity _) => 'A'

/-- The letters of all rows, in order. -/
def letters (rows : Rows) (m : Method) (s : Sentence) : String :=
  let names := s.atoms
  .ofList ((List.range (rows.base.pow names.length)).map fun row =>
    letter (m.run (rowValuation rows names row) s).outcome)

end TruthTable

end Sentential
