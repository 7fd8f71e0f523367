import Sentential.CommandLine
import Sentential.Proofs.AssignmentGrammar
import Sentential.Proofs.QuotedText
import Sentential.Proofs.ShowcasePages

/- Whole runs. A command line may spell its settings in several ways
   (`Settings.SpelledBy`). Of the reader it is only assumed that it takes such
   command lines for these settings (`Reader.ReadsSettings`), as the one that the
   program brings along does (`builtIn_readsSettings`), and of the logger that it
   drops the records below the level debug. The run is then that of the settings.
   What it shows gives the settings back, since its first line quotes the
   assignment text (`settingsLine_readsBack`), and the second line gives the
   entries of the assignment back (`modelLine_inj`). -/
namespace Sentential
namespace CommandLine

open Text Showcase

/-! ## Command lines that spell settings -/

/-- The words that set the assignment text: none for the usual text, or one
    option, in two words or in one. In two words the text must not begin with a
    hyphen, lest it look like an option itself. -/
inductive SetsModel : String → List String → Prop
  | usual : SetsModel ({} : Settings).model []
  | apart {text : String} : text.toList.head? ≠ some '-' → SetsModel text ["--model", text]
  | attached (text : String) : SetsModel text ["--model=" ++ text]

/-- The words that set the flag. -/
def flagWords (allChildren : Bool) : List String := if allChildren then ["--all-children"] else []

/-- The command line sets the assignment text and the flag, in either order. -/
inductive Settings.SpelledBy (s : Settings) : List String → Prop
  | modelFirst {words : List String} :
      SetsModel s.model words → SpelledBy s (words ++ flagWords s.allChildren)
  | flagFirst {words : List String} :
      SetsModel s.model words → SpelledBy s (flagWords s.allChildren ++ words)

/-- The reader takes every command line that spells settings for these settings. -/
def Reader.ReadsSettings (reader : Reader) : Prop :=
  ∀ (s : Settings) (words : List String), s.SpelledBy words → reader words = .ok s

/-! ## The reader of the program -/

theorem looksLikeOption_of_head {word : String} (h : word.toList.head? ≠ some '-') :
    looksLikeOption word = false := by
  unfold looksLikeOption
  split
  · next hword =>
    rw [hword] at h
    exact absurd rfl h
  · rfl

theorem read_flagWords (g : Given) (h : g.allChildren = false) (allChildren : Bool)
    (rest : List String) :
    g.read (flagWords allChildren ++ rest) = ({ g with allChildren } : Given).read rest := by
  cases allChildren with
  | false =>
    obtain ⟨model, given⟩ := g
    cases h
    rfl
  | true =>
    show g.read ("--all-children" :: rest) = _
    rw [Given.read.eq_def]
    dsimp only
    rw [if_pos rfl, Given.setAllChildren, if_neg (by simp [h])]
    rfl

theorem attachedModel?_append (text : String) : attachedModel? ("--model=" ++ text) = some text := by
  have hprefix : "--model=".toList <+: ("--model=" ++ text).toList := by
    rw [String.toList_append]
    exact List.prefix_append _ _
  rw [attachedModel?, if_pos hprefix, String.toList_append, List.drop_left' (by decide),
    String.ofList_toList]

theorem read_attached {g : Given} (h : g.model = none) (text : String) (rest : List String) :
    g.read (("--model=" ++ text) :: rest) = ({ g with model := some text } : Given).read rest := by
  have hattached := attachedModel?_append text
  -- the word is none of the other options, for it has an assignment attached
  have hne (word : String) (hword : attachedModel? word = none) : "--model=" ++ text ≠ word := by
    intro h
    rw [h, hword] at hattached
    cases hattached
  rw [Given.read.eq_def]
  dsimp only
  rw [if_neg (hne _ (by decide)), if_neg (hne _ (by decide)), if_neg (hne _ (by decide)), hattached,
    Option.bind_some, Given.setModel, if_neg (by simp [h])]
  rfl

theorem read_apart {g : Given} (h : g.model = none) {text : String}
    (htext : looksLikeOption text = false) (rest : List String) :
    g.read ("--model" :: text :: rest) = ({ g with model := some text } : Given).read rest := by
  rw [Given.read, if_neg (by decide), if_pos rfl, if_neg (by simp [htext]), Given.setModel,
    if_neg (by simp [h])]
  rfl

/-- Reading the words that set the assignment text comes to having been given it. -/
theorem SetsModel.read {text : String} {words : List String} (h : SetsModel text words) :
    ∃ given : Option String, given.getD ({} : Settings).model = text ∧
      ∀ (g : Given) (rest : List String), g.model = none →
        g.read (words ++ rest) = ({ g with model := given } : Given).read rest := by
  cases h with
  | usual =>
    refine ⟨none, rfl, ?_⟩
    intro g rest hg
    rw [← hg]
    rfl
  | apart htext =>
    exact ⟨some text, rfl, fun g rest hg => read_apart hg (looksLikeOption_of_head htext) rest⟩
  | attached => exact ⟨some text, rfl, fun g rest hg => read_attached hg text rest⟩

theorem ofWords?_of_spelledBy {s : Settings} {words : List String} (h : s.SpelledBy words) :
    Settings.ofWords? words = some s := by
  cases h with
  | modelFirst hmodel =>
    obtain ⟨given, hgiven, hread⟩ := hmodel.read
    have hwords := hread {} (flagWords s.allChildren) rfl
    have hflag := read_flagWords { model := given } rfl s.allChildren []
    rw [List.append_nil] at hflag
    rw [Settings.ofWords?, hwords, hflag, Given.read, Option.map_some, hgiven]
  | flagFirst hmodel =>
    obtain ⟨given, hgiven, hread⟩ := hmodel.read
    have hwords := hread { allChildren := s.allChildren } [] rfl
    rw [List.append_nil] at hwords
    rw [Settings.ofWords?, read_flagWords {} rfl, hwords, Given.read, Option.map_some, hgiven]

theorem builtIn_readsSettings : Reader.ReadsSettings Reader.builtIn := by
  intro s words h
  rw [Reader.builtIn, ofWords?_of_spelledBy h]

/-! ## What a run with given settings shows -/

theorem runWith_of_spelledBy {reader : Reader} (hreader : reader.ReadsSettings) (logger : Logger)
    {s : Settings} {words : List String} (h : s.SpelledBy words) :
    runWith reader logger words = s.run logger := by
  rw [runWith, hreader s words h]

/-- The program reads what spells settings by the reader that it brings along. -/
theorem run_of_spelledBy {s : Settings} {words : List String} (h : s.SpelledBy words) :
    run words = s.run .silent :=
  runWith_of_spelledBy builtIn_readsSettings .silent h

end CommandLine

end Sentential
