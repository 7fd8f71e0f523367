import Sentential.Outline.Write
import Sentential.Proofs.Positions

/- Outlines as data. A draft is what writing an outline comes to, whatever the
   sink: the lines in order, each with its level and its label, and the fault
   behind the last of them if a node is short of arguments. `Sentence.draft`
   gives it by recursion on the sentence, `Draft.put` writes a draft line by
   line, and the two together are `Sentence.write`, in every sink
   (`write_eq_put`). So nothing later opens `write`: what a sink has in the end
   follows from what it makes of a list of pieces, and what an outline looks
   like from the laws of `draft`. -/
namespace Sentential

/-- A line of an outline: how deep it stands and what it says. -/
structure OutlineLine where
  level : Nat
  label : String
  deriving DecidableEq, Repr

def OutlineLine.text (style : Style) (line : OutlineLine) : String :=
  Text.copies line.level style.indent ++ line.label ++ "\n"

/-- The lines of an outline, and why it stops behind the last of them. -/
structure Draft where
  lines : List OutlineLine := []
  fault : Option OutlineError := none
  deriving DecidableEq, Repr

namespace Draft

def line (level : Nat) (label : String) : Draft := { lines := [⟨level, label⟩] }

/-- No line, and a fault if fewer arguments are given than wanted. -/
def short (op : Connective) (wanted given : Nat) : Draft :=
  { fault := if wanted ≤ given then none else some (.missingChild op.kind given) }

/-- One draft carried on by another, unless a fault has ended it. -/
def andThen (d e : Draft) : Draft :=
  match d.fault with
  | none => ⟨d.lines ++ e.lines, e.fault⟩
  | some _ => d

def concat : List Draft → Draft
  | [] => {}
  | d :: ds => d.andThen (concat ds)

def text (style : Style) (d : Draft) : String := String.join (d.lines.map (·.text style))

/-! ## Laws of drafts -/

theorem short_of_le {op : Connective} {wanted given : Nat} (h : wanted ≤ given) :
    short op wanted given = {} := by
  rw [short, if_pos h]

theorem short_of_lt {op : Connective} {wanted given : Nat} (h : given < wanted) :
    short op wanted given = { fault := some (.missingChild op.kind given) } := by
  rw [short, if_neg (by omega)]

theorem short_fault_eq_none {op : Connective} {wanted given : Nat} :
    (short op wanted given).fault = none ↔ wanted ≤ given := by
  simp [short]

variable {d e : Draft}

theorem andThen_of_none (h : d.fault = none) : d.andThen e = ⟨d.lines ++ e.lines, e.fault⟩ := by
  simp only [andThen, h]

theorem andThen_of_some {f : OutlineError} (h : d.fault = some f) : d.andThen e = d := by
  simp only [andThen, h]

@[simp] theorem andThen_empty : d.andThen {} = d := by
  cases h : d.fault with
  | none => rw [andThen_of_none h, List.append_nil, ← h]
  | some f => rw [andThen_of_some h]

theorem andThen_assoc (d e f : Draft) : (d.andThen e).andThen f = d.andThen (e.andThen f) := by
  -- the first draft with a fault ends the row, however it is bracketed
  cases hd : d.fault with
  | some x => rw [andThen_of_some hd, andThen_of_some hd, andThen_of_some hd]
  | none =>
    rw [andThen_of_none hd, andThen_of_none hd]
    cases he : e.fault with
    | none => simp [andThen, he]
    | some x => simp [andThen, he]

theorem andThen_fault_eq_none :
    (d.andThen e).fault = none ↔ d.fault = none ∧ e.fault = none := by
  cases h : d.fault with
  | none => simp [andThen_of_none h]
  | some f => simp [andThen_of_some h, h]

theorem concat_fault_eq_none {ds : List Draft} :
    (concat ds).fault = none ↔ ∀ d ∈ ds, d.fault = none := by
  induction ds with
  | nil => simp [concat]
  | cons d ds ih => rw [concat, andThen_fault_eq_none, ih, List.forall_mem_cons]

theorem concat_lines {ds : List Draft} (h : ∀ d ∈ ds, d.fault = none) :
    (concat ds).lines = ds.flatMap (·.lines) := by
  induction ds with
  | nil => rfl
  | cons d ds ih =>
    have hd : d.fault = none := h d (by simp)
    have hds : ∀ e ∈ ds, e.fault = none := fun e he => h e (by simp [he])
    rw [concat, andThen_of_none hd, ih hds, List.flatMap_cons]

end Draft

/-! ## Writing piece by piece -/

section Writer
variable {σ : Type} [Sink σ]

def Writer.close : Option OutlineError → Writer σ Unit
  | none => return
  | some e => throw e

/-- Writes pieces in order, up to the first that is refused, and behind the last
    of them ends well or with a fault. -/
def Writer.putAll : List String → Option OutlineError → Writer σ Unit
  | [], fault => close fault
  | piece :: rest, fault => do
    put piece
    putAll rest fault

theorem Writer.putAll_append (before behind : List String) (fault : Option OutlineError) :
    (putAll (before ++ behind) fault : Writer σ Unit) =
      (do putAll before none; putAll behind fault) := by
  induction before with
  | nil => simp [putAll, close]
  | cons piece before ih => simp only [List.cons_append, putAll, ih, bind_assoc]

theorem Writer.putAll_some (pieces : List String) (e : OutlineError) (next : Writer σ Unit) :
    (do putAll pieces (some e); next) = (putAll pieces (some e) : Writer σ Unit) := by
  -- `next` is behind the fault, which is thrown if no piece is refused before
  induction pieces with
  | nil => rfl
  | cons piece pieces ih => simp only [putAll, bind_assoc, ih]

def Draft.put (style : Style) (d : Draft) : Writer σ Unit :=
  Writer.putAll (d.lines.map (·.text style)) d.fault

theorem Draft.put_andThen (style : Style) (d e : Draft) :
    ((d.andThen e).put style : Writer σ Unit) = (do d.put style; e.put style) := by
  cases h : d.fault with
  | none => simp only [put, andThen_of_none h, h, List.map_append, Writer.putAll_append]
  | some f => simp only [put, andThen_of_some h, h, Writer.putAll_some]

theorem Draft.put_line (style : Style) (level : Nat) (label : String) :
    ((line level label).put style : Writer σ Unit) =
      Writer.put (OutlineLine.text style ⟨level, label⟩) := by
  simp [put, line, Writer.putAll, Writer.close]

end Writer

/-! ## The draft of a sentence -/

namespace Sentence

mutual

/-- The line of the root, the arguments that are there, up to as many as the
    style calls for, and a fault if it calls for more. -/
def draft (style : Style) (level : Nat) : Sentence → Draft
  | .atom name => .line level name
  | .compound op args =>
    let wanted := style.shown op args.length
    (Draft.line level (style.marker op)).andThen <|
      (draftFirst style (level + 1) wanted args).andThen (.short op wanted args.length)

/-- The first arguments of a list, so many as wanted. -/
def draftFirst (style : Style) (level : Nat) : Nat → List Sentence → Draft
  | 0, _ => {}
  | _ + 1, [] => {}
  | wanted + 1, arg :: rest => (draft style level arg).andThen (draftFirst style level wanted rest)

end

theorem draftFirst_eq_concat (style : Style) (level wanted : Nat) (args : List Sentence) :
    draftFirst style level wanted args =
      Draft.concat ((args.take wanted).map (draft style level)) := by
  induction args generalizing wanted with
  | nil => cases wanted <;> rw [draftFirst] <;> rfl
  | cons arg rest ih =>
    cases wanted with
    | zero => rw [draftFirst]; rfl
    | succ wanted => rw [draftFirst, ih, List.take_succ_cons, List.map_cons, Draft.concat]

theorem draft_atom (style : Style) (level : Nat) (name : String) :
    draft style level (.atom name) = .line level name := by
  rw [draft]

theorem draft_compound (style : Style) (level : Nat) (op : Connective) (args : List Sentence) :
    draft style level (.compound op args) =
      (Draft.line level (style.marker op)).andThen
        ((Draft.concat ((args.take (style.shown op args.length)).map
            (draft style (level + 1)))).andThen
          (.short op (style.shown op args.length) args.length)) := by
  rw [draft, draftFirst_eq_concat]

theorem draft_compound_fault_eq_none {style : Style} {level : Nat} {op : Connective}
    {args : List Sentence} :
    (draft style level (.compound op args)).fault = none ↔
      style.shown op args.length ≤ args.length ∧
        ∀ a ∈ args.take (style.shown op args.length), (a.draft style (level + 1)).fault = none := by
  rw [draft_compound, Draft.andThen_fault_eq_none, Draft.andThen_fault_eq_none,
    Draft.concat_fault_eq_none, Draft.short_fault_eq_none, List.forall_mem_map]
  refine ⟨?_, ?_⟩
  · intro ⟨_, hargs, hle⟩
    exact ⟨hle, hargs⟩
  · intro ⟨hle, hargs⟩
    exact ⟨rfl, hargs, hle⟩

/-! ## Writing a sentence is writing its draft -/

section Writer
variable {σ : Type} [Sink σ]

theorem writeArgs_eq_put {style : Style} {level : Nat} {op : Connective} {args : List Sentence}
    (ih : ∀ a ∈ args, (a.write style level : Writer σ Unit) = (a.draft style level).put style)
    (index wanted : Nat) :
    (writeArgs style level op index wanted args : Writer σ Unit) =
      ((draftFirst style level wanted args).andThen
        (.short op (index + wanted) (index + args.length))).put style := by
  -- the index only moves along: what counts is how many are wanted and given
  induction args generalizing index wanted with
  | nil =>
    cases wanted with
    | zero =>
      rw [writeArgs, draftFirst, Draft.short_of_le (by simp)]
      rfl
    | succ wanted =>
      rw [writeArgs, draftFirst, Draft.short_of_lt (by simp)]
      rfl
  | cons arg rest ihrest =>
    cases wanted with
    | zero =>
      rw [writeArgs, draftFirst, Draft.short_of_le (by omega)]
      rfl
    | succ wanted =>
      have harg := ih arg (by simp)
      have hrest := ihrest (fun a ha => ih a (by simp [ha])) (index + 1) wanted
      have hwanted : index + 1 + wanted = index + (wanted + 1) := by omega
      have hgiven : index + 1 + rest.length = index + (arg :: rest).length := by
        rw [List.length_cons]
        omega
      rw [hwanted, hgiven] at hrest
      rw [writeArgs, draftFirst, harg, hrest, Draft.andThen_assoc, ← Draft.put_andThen]

/-- In every sink, writing a sentence is writing its draft. -/
theorem write_eq_put (style : Style) (level : Nat) (s : Sentence) :
    (s.write style level : Writer σ Unit) = (s.draft style level).put style := by
  induction s generalizing level with
  | atom name =>
    rw [write, draft_atom, Draft.put_line]
    rfl
  | compound op args ih =>
    have hargs : (writeArgs style (level + 1) op 0 (style.shown op args.length) args :
        Writer σ Unit) = _ := writeArgs_eq_put (fun a ha => ih a ha (level + 1)) 0 _
    rw [write, draft, Draft.put_andThen, Draft.put_line, hargs, Nat.zero_add, Nat.zero_add]
    rfl

end Writer

end Sentence

/-! ## The sink that takes everything -/

theorem Writer.putAll_string (pieces : List String) (fault : Option OutlineError) (text : String) :
    (putAll pieces fault : Writer String Unit) text = close fault (text ++ String.join pieces) := by
  induction pieces generalizing text with
  | nil => rw [putAll, String.join_nil, String.append_empty]
  | cons piece pieces ih =>
    have hstep : (putAll (piece :: pieces) fault : Writer String Unit) text =
        putAll pieces fault (text ++ piece) := rfl
    rw [hstep, ih, String.join_cons, String.append_assoc]

/-- The text of an outline is that of its draft, and so is the fault. -/
theorem Sentence.rendering_eq (style : Style) (level : Nat) (s : Sentence) :
    s.rendering style level = ⟨(s.draft style level).text style, (s.draft style level).fault⟩ := by
  rw [rendering, write_eq_put, Draft.put, Writer.putAll_string, String.empty_append]
  cases (s.draft style level).fault <;> rfl

/-- An outline is complete when its draft has no fault, and is then the text of
    the draft. -/
theorem Sentence.outline_eq_ok {style : Style} {s : Sentence} {text : String} :
    s.outline style = .ok text ↔
      (s.draft style 0).fault = none ∧ (s.draft style 0).text style = text := by
  rw [outline, rendering_eq]
  cases (s.draft style 0).fault <;> simp

end Sentential
