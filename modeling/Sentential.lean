import Sentential.CommandLine
import Sentential.Diagnostics
import Sentential.Main
import Sentential.Proofs.AskingOrder
import Sentential.Proofs.AssignmentGrammar
import Sentential.Proofs.AssignmentRoundTrip
import Sentential.Proofs.BoundedSink
import Sentential.Proofs.ClassicalTruth
import Sentential.Proofs.CommandLineRuns
import Sentential.Proofs.Indistinguishable
import Sentential.Proofs.Interchange
import Sentential.Proofs.JoinedAssignments
import Sentential.Proofs.NameSearch
import Sentential.Proofs.Nesting
import Sentential.Proofs.OutlineLines
import Sentential.Proofs.PositionOrder
import Sentential.Proofs.Pruning
import Sentential.Proofs.Questions
import Sentential.Proofs.QuotedText
import Sentential.Proofs.ReadingBack
import Sentential.Proofs.ReadingBriefBack
import Sentential.Proofs.ReadingTerms
import Sentential.Proofs.Reordering
import Sentential.Proofs.ShortNodes
import Sentential.Proofs.ShowcasePages
import Sentential.Proofs.StackDiscipline
import Sentential.Proofs.TruthTables
import Sentential.Proofs.Unreached
import Sentential.Proofs.WorkbenchCommands
import Sentential.Sentence.Census
import Sentential.Sentence.Position
