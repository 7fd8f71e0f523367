import Sentential.Evaluation.Recursive
import Sentential.Evaluation.Machine

/- The two ways to evaluate under one interface, and the records that an
   evaluation logs: one when it starts, naming the kind of the root, and one
   more, with the fault in words, when it ends without a value. What becomes of
   a record is the business of the logger. -/
namespace Sentential

/-- How a sentence is evaluated. -/
inductive Method where
  | recursive
  | byStack
  deriving DecidableEq, Repr

/-- The run of a sentence by this method. -/
def Method.run : Method → Valuation → Sentence → Run Bool
  | .recursive, v, s => s.eval v
  | .byStack, v, s => s.evalByStack v

/-- The name of the method in log records. -/
def Method.label : Method → String
  | .recursive => "eval"
  | .byStack => "eval_iterative"

/-- How important a log record is. -/
inductive Level where
  | trace
  | debug
  deriving DecidableEq, Repr

/-- The level as log lines show it. -/
def Level.label : Level → String
  | .trace => "TRACE"
  | .debug => "DEBUG"

/-- One log record. -/
structure LogRecord where
  level : Level
  text : String
  deriving DecidableEq, Repr

/-- A record as a line of a log. -/
def LogRecord.line (r : LogRecord) : String := s!"{r.level.label} {r.text}"

/-- The record that opens an evaluation. -/
def LogRecord.opening (m : Method) (s : Sentence) : LogRecord :=
  ⟨.trace, s!"{m.label}(root={s.kind.label})"⟩

/-- The record of an evaluation that ends with a fault. -/
def LogRecord.failure (m : Method) (e : EvalError) : LogRecord :=
  ⟨.debug, s!"{m.label} failed: {e.message}"⟩

/-- An evaluation together with what it logged. -/
structure Report where
  run : Run Bool
  log : List LogRecord

/-- Evaluates a sentence and logs the evaluation. -/
def Sentence.report (m : Method) (v : Valuation) (s : Sentence) : Report :=
  let run := m.run v s
  let failures := match run.outcome with
    | .ok _ => []
    | .error e => [LogRecord.failure m e]
  ⟨run, LogRecord.opening m s :: failures⟩

/-- What a logger puts on standard output for a record of the evaluation with this
    number. A logger may show the time, so equal records need not come out equal. -/
abbrev Logger := Nat → LogRecord → String

/-- The logger that leaves standard output alone. -/
def Logger.silent : Logger := fun _ _ => ""

/-- A logger set to the level debug: a line for each record, behind a stamp, and
    nothing for the records of lower levels. -/
def Logger.debugLines (stamp : Nat → String) : Logger := fun n r =>
  match r.level with
  | .trace => ""
  | .debug => stamp n ++ "[" ++ r.level.label ++ "] " ++ r.text ++ "\n"

end Sentential
