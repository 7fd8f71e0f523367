import Sentential.Evaluation.Report
import Sentential.Outline.Write
import Sentential.Sentence.Atoms
import Sentential.Sentence.Equality
import Sentential.Sentence.Term

/- A workbench on which sentences are built and looked at step by step: a stack
   of sentences, the top one first, and an assignment to evaluate them under. The
   commands are the ways that the library has to make a sentence and to ask about
   one, so a session on the workbench tries them on each other. A command that
   needs more sentences than there are is refused and changes nothing. -/
namespace Sentential

/-- What is on the workbench. -/
structure Workbench where
  stack : List Sentence := []
  assignment : Assignment := ∅

namespace Workbench

/-- What can be done on the workbench. -/
inductive Command where
  /-- Puts an atom on top. -/
  | push (name : String)
  /-- Replaces the topmost `count` sentences by a connective over them, the
      deepest first. -/
  | combine (op : Connective) (count : Nat)
  /-- Replaces the top by its negation. -/
  | negate
  /-- Replaces the two topmost sentences by their conjunction, the top second. -/
  | both
  /-- Replaces the two topmost sentences by their disjunction, the top second. -/
  | either
  /-- Puts the top there once more. -/
  | duplicate
  /-- Takes the top away. -/
  | discard
  /-- Exchanges the two topmost sentences. -/
  | exchange
  /-- Tells whether the two topmost sentences are equal. -/
  | compare
  /-- Replaces the top by its argument at an index. -/
  | child (index : Nat)
  /-- Replaces the top by its first argument. -/
  | left
  /-- Replaces the top by its second argument. -/
  | right
  /-- Assigns a value to a name. -/
  | assign (name : String) (value : Bool)
  /-- Takes the assignment of a name back. -/
  | withdraw (name : String)
  /-- Evaluates the top. -/
  | evaluate (m : Method)
  /-- Gives the outline of the top in the usual style. -/
  | outline
  /-- Gives the top itself. -/
  | top
  /-- Gives the compact term of the top. -/
  | term
  /-- Counts the nodes of the top. -/
  | size
  /-- Counts the levels of the top. -/
  | depth
  /-- Lists the names in the top. -/
  | atoms
  deriving DecidableEq, Repr

/-- What a command says. -/
inductive Reply where
  | nothing
  /-- There are fewer sentences than the command needs. -/
  | tooFew
  /-- The top has no such argument. -/
  | noChild
  | truth (value : Bool)
  /-- What a name was assigned before. -/
  | former (value : Option Bool)
  | value (outcome : Except EvalError Bool)
  | drawing (outcome : Except OutlineError String)
  | sentence (s : Sentence)
  | text (t : String)
  | count (n : Nat)
  | names (ns : List String)

/-- Fewer sentences than needed: nothing changes. -/
def refuse (w : Workbench) : Workbench × Reply := (w, .tooFew)

/-- Replaces the top by one of its parts, if the part exists. -/
def descend (w : Workbench) (part? : Sentence → Option Sentence) : Workbench × Reply :=
  match w.stack with
  | [] => w.refuse
  | s :: rest =>
    match part? s with
    | some part => ({ w with stack := part :: rest }, .nothing)
    | none => (w, .noChild)

/-- Says something about the top and leaves everything as it is. -/
def inspect (w : Workbench) (say : Sentence → Reply) : Workbench × Reply :=
  match w.stack with
  | [] => w.refuse
  | s :: _ => (w, say s)

/-- Replaces the top. -/
def replaceTop (w : Workbench) (f : Sentence → Sentence) : Workbench × Reply :=
  match w.stack with
  | [] => w.refuse
  | s :: rest => ({ w with stack := f s :: rest }, .nothing)

/-- Replaces the two topmost sentences by one; `f` is given the top second. -/
def replaceTwo (w : Workbench) (f : Sentence → Sentence → Sentence) : Workbench × Reply :=
  match w.stack with
  | t :: s :: rest => ({ w with stack := f s t :: rest }, .nothing)
  | _ => w.refuse

/-- Carries out one command. -/
def perform (w : Workbench) : Command → Workbench × Reply
  | .push name => ({ w with stack := .atom name :: w.stack }, .nothing)
  | .combine op count =>
    if count ≤ w.stack.length then
      let args := (w.stack.take count).reverse
      ({ w with stack := .compound op args :: w.stack.drop count }, .nothing)
    else w.refuse
  | .negate => w.replaceTop (~~~ ·)
  | .both => w.replaceTwo (· &&& ·)
  | .either => w.replaceTwo (· ||| ·)
  | .duplicate =>
    match w.stack with
    | [] => w.refuse
    | s :: rest => ({ w with stack := s :: s :: rest }, .nothing)
  | .discard =>
    match w.stack with
    | [] => w.refuse
    | _ :: rest => ({ w with stack := rest }, .nothing)
  | .exchange =>
    match w.stack with
    | t :: s :: rest => ({ w with stack := s :: t :: rest }, .nothing)
    | _ => w.refuse
  | .compare =>
    match w.stack with
    | t :: s :: _ => (w, .truth (s == t))
    | _ => w.refuse
  | .child index => w.descend (Sentence.child? · index)
  | .left => w.descend Sentence.left?
  | .right => w.descend Sentence.right?
  | .assign name value =>
    ({ w with assignment := w.assignment.insert name value }, .former w.assignment[name]?)
  | .withdraw name =>
    ({ w with assignment := w.assignment.erase name }, .former w.assignment[name]?)
  | .evaluate m => w.inspect fun s => .value (s.report m w.assignment.valuation).run.outcome
  | .outline => w.inspect fun s => .drawing (s.outline {})
  | .top => w.inspect .sentence
  | .term => w.inspect fun s => .text s.term
  | .size => w.inspect fun s => .count s.size
  | .depth => w.inspect fun s => .count s.depth
  | .atoms => w.inspect fun s => .names s.atoms

end Workbench

end Sentential
