import Sentential.Showcase
import Sentential.Text.Record

/- The command line and the run. What the words of a command line set is found out
   by a reader of options, and log records are left to a logger: a run takes both as
   they come (`runWith`). It first repeats its settings, then the assignment it has
   read, and then shows the showcase.

   The reader that the program brings along knows at most one `--model ASSIGNMENTS`,
   also written `--model=ASSIGNMENTS`, and at most one `--all-children`, in any
   order; two hyphens alone may close the options, but no word may follow them.
   Anything else it refuses, and so it does a separate value that looks like an
   option itself. -/
namespace Sentential
namespace CommandLine

/-- What the command line sets. -/
structure Settings where
  /-- The text of the assignment to evaluate under. -/
  model : String := "a=true,b=false"
  /-- Whether outlines show every argument. -/
  allChildren : Bool := false
  deriving DecidableEq, Repr

/-- How a run ends. -/
inductive Exit where
  | success
  /-- The assignment could not be read, or an outline not completed. -/
  | failure
  /-- The command line is not in order. -/
  | usage
  deriving DecidableEq, Repr

/-- The exit status. -/
def Exit.code : Exit → Nat
  | .success => 0
  | .failure => 1
  | .usage => 2

/-- A whole run as seen from outside. -/
structure Outcome where
  exit : Exit
  /-- What is on standard output, the lines of the logger included. -/
  shown : String
  /-- What the run has to say about a failure. -/
  complaint : Option String := none
  deriving DecidableEq, Repr

/-! ## Runs -/

/-- The line that repeats the settings. -/
def settingsLine (s : Settings) : String :=
  "args = " ++ Text.record "Cli"
    [("model", Text.quoted s.model), ("all_children", truthWord s.allChildren)] ++ "\n"

/-- The line that repeats the assignment. -/
def modelLine (m : Assignment) : String := "model = " ++ Showcase.listing m ++ "\n"

/-- A run with these settings. -/
def Settings.run (logger : Logger) (s : Settings) : Outcome :=
  match Assignment.parse s.model with
  | .error e => { exit := .failure, shown := settingsLine s, complaint := e.message }
  | .ok m =>
    let style : Style := { allChildren := s.allChildren }
    let (shown, broken) := Showcase.pages style m.valuation logger 0 Showcase.sentences
    let all := settingsLine s ++ modelLine m ++ shown
    match broken with
    | none => { exit := .success, shown := all }
    | some e => { exit := .failure, shown := all, complaint := e.message }

/-- Reads the words of a command line, or ends the run in its own way. -/
abbrev Reader := List String → Except Outcome Settings

/-- A run with this command line. -/
def runWith (reader : Reader) (logger : Logger) (words : List String) : Outcome :=
  match reader words with
  | .error outcome => outcome
  | .ok s => s.run logger

/-! ## The reader of the program -/

/-- The options met so far. -/
structure Given where
  model : Option String := none
  allChildren : Bool := false
  deriving DecidableEq, Repr

/-- Records the model option, which may be given once. -/
def Given.setModel (g : Given) (text : String) : Option Given :=
  if g.model.isSome then none else some { g with model := some text }

/-- Records the flag, which may be given once. -/
def Given.setAllChildren (g : Given) : Option Given :=
  if g.allChildren then none else some { g with allChildren := true }

/-- Whether a word looks like an option; a lone hyphen does not. -/
def looksLikeOption (word : String) : Bool :=
  match word.toList with
  | '-' :: _ :: _ => true
  | _ => false

/-- The value of a model option that is one word with it. -/
def attachedModel? (word : String) : Option String :=
  if "--model=".toList <+: word.toList then some (.ofList (word.toList.drop 8)) else none

/-- Reads the words of a command line. -/
def Given.read (g : Given) : List String → Option Given
  | [] => some g
  | word :: rest =>
    if word = "--all-children" then
      g.setAllChildren.bind fun g => g.read rest
    else if word = "--model" then
      match rest with
      | [] => none
      | value :: rest =>
        if looksLikeOption value then none else (g.setModel value).bind fun g => g.read rest
    else if word = "--" then
      if rest.isEmpty then some g else none
    else
      (attachedModel? word).bind fun text => (g.setModel text).bind fun g => g.read rest

/-- The settings of a command line, if it is in order. -/
def Settings.ofWords? (words : List String) : Option Settings :=
  (Given.read {} words).map fun g =>
    { model := g.model.getD ({} : Settings).model, allChildren := g.allChildren }

/-- Refuses a command line that is not in order and shows nothing. -/
def Reader.builtIn : Reader := fun words =>
  match Settings.ofWords? words with
  | some s => .ok s
  | none => .error
      { exit := .usage, shown := "",
        complaint := "usage: sentential [--model ASSIGNMENTS] [--all-children]" }

/-- The run of the program with these words, without the lines of a logger. -/
def run (words : List String) : Outcome := runWith Reader.builtIn Logger.silent words

end CommandLine

end Sentential
