import Sentential.Assignment.Text
import Sentential.Evaluation.Report
import Sentential.Outline.Write
import Sentential.Text.Quoted

/- Four sentences about `a` and `b`, shown one after the other under an
   assignment of the reader's choice: the two negated junctions, their
   disjunction, and a conjunction that no assignment makes true. Each is shown
   by its name, its outline and what it comes to. Evaluation logs, and the logger
   may write to the same output, between the outline and what it comes to. -/
namespace Sentential
namespace Showcase

/-- Not both of `a` and `b`. -/
def notBoth : Sentence := ~~~((.atom "a" : Sentence) &&& .atom "b")

/-- Neither of `a` and `b`. -/
def neither : Sentence := ~~~((.atom "a" : Sentence) ||| .atom "b")

/-- The sentences, each with its name in the usual notation. -/
def sentences : List (String × Sentence) :=
  [("~(a & b)", notBoth),
   ("~(a v b)", neither),
   ("~(a & b) v ~(a v b)", notBoth ||| neither),
   ("a & b & ~a", .conj [.atom "a", .atom "b", ~~~(.atom "a" : Sentence)])]

/-- What a sentence comes to. -/
def verdict : Except EvalError Bool → String
  | .ok value => "=> " ++ truthWord value
  | .error e => "=> error: " ++ e.message

/-- The lines above an outline. -/
def heading (name : String) : String := "\n" ++ name ++ ":\n"

/-- What a logger shows of the evaluation with this number. -/
def logged (logger : Logger) (n : Nat) (report : Report) : String :=
  String.join (report.log.map (logger n))

/-- What is shown of a list of named sentences, whose evaluations are numbered from
    `n`, and why it breaks off if an outline cannot be completed. -/
def pages (style : Style) (v : Valuation) (logger : Logger) (n : Nat) :
    List (String × Sentence) → String × Option OutlineError
  | [] => ("", none)
  | (name, s) :: rest =>
    match s.outline style with
    | .error e => (heading name, some e)
    | .ok text =>
      let report := s.report .recursive v
      let (shown, broken) := pages style v logger (n + 1) rest
      (heading name ++ text ++ logged logger n report ++ verdict report.run.outcome ++ "\n" ++ shown,
        broken)

/-- An assignment as a listing in braces, its names quoted. -/
def listing (m : Assignment) : String :=
  let entries := m.toList.map fun (name, value) => Text.quoted name ++ ": " ++ truthWord value
  "\x7b" ++ ", ".intercalate entries ++ "\x7d"

end Showcase

end Sentential
