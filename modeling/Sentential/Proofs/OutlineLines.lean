import Sentential.Proofs.Pruning
import Sentential.Proofs.PositionOrder
import Sentential.Proofs.ReadingBack

/- Full outlines without recursion: one line for each position, in order. What
   stands on the line of a position is read off the position and the node there
   (`textAt`): the indents from its length, the label from the node. So the
   queries of a sentence say how large its outline is, `size` the lines and
   `depth` the levels. The levels are unbounded numbers here; `writeUpTo` counts
   them up to a limit only and stops where it would have to go beyond, which it
   never has to when the limit has room for the deepest line
   (`writeUpTo_eq_write`). -/
namespace Sentential

namespace Sentence

/-! ## The line of a position -/

/-- The label of the node at a position. -/
def labelAt (style : Style) (s : Sentence) (p : List Nat) : String :=
  (s.at? p).elim "" style.label

/-- The line of the node at a position, in an outline whose root stands at the
    given level. -/
def lineAt (style : Style) (level : Nat) (s : Sentence) (p : List Nat) : OutlineLine :=
  ⟨level + p.length, s.labelAt style p⟩

/-- The same line as text: an indent for each level, the label, a line feed. -/
def textAt (style : Style) (level : Nat) (s : Sentence) (p : List Nat) : String :=
  String.join (List.replicate (level + p.length) style.indent) ++ s.labelAt style p ++ "\n"

theorem text_lineAt (style : Style) (level : Nat) (s : Sentence) (p : List Nat) :
    (s.lineAt style level p).text style = s.textAt style level p := by
  rw [lineAt, OutlineLine.text, textAt, Text.copies_eq]

theorem lineAt_nil (style : Style) (level : Nat) (s : Sentence) :
    s.lineAt style level [] = ⟨level, style.label s⟩ := by
  rw [lineAt, labelAt, at?_nil]
  rfl

/-- A line below an argument is a line of that argument, one level deeper. -/
theorem lineAt_cons {op : Connective} {args : List Sentence} {i : Nat} {a : Sentence}
    (h : args[i]? = some a) (style : Style) (level : Nat) (p : List Nat) :
    (compound op args).lineAt style level (i :: p) = a.lineAt style (level + 1) p := by
  have hchild : (compound op args).child? i = some a := h
  have hat : (compound op args).at? (i :: p) = a.at? p := at?_cons_of_child? hchild p
  rw [lineAt, lineAt, labelAt, labelAt, hat, List.length_cons]
  congr 1
  omega

variable {style : Style}

theorem draft_full_lines_eq (hall : style.allChildren = true) (level : Nat) (s : Sentence) :
    (s.draft style level).lines = s.positions.map (s.lineAt style level) := by
  induction s generalizing level with
  | atom name =>
    rw [draft_full_lines hall, positions_atom, List.map_singleton, lineAt_nil]
    rfl
  | compound op args ih =>
    rw [draft_full_lines hall, positions_compound, List.map_cons, lineAt_nil, List.map_flatMap]
    congr 1
    symm
    calc args.zipIdx.flatMap (fun arg =>
          (arg.1.positions.map (arg.2 :: ·)).map ((compound op args).lineAt style level))
        = args.flatMap fun a => a.positions.map (a.lineAt style (level + 1)) := by
          apply flatMap_zipIdx
          intro i a ha
          rw [List.map_map]
          exact List.map_congr_left fun p _ => lineAt_cons ha style level p
      _ = args.flatMap fun a => (a.draft style (level + 1)).lines :=
          List.flatMap_congr fun a ha => (ih a ha (level + 1)).symm

end Sentence

/-! ## Levels with a limit -/

/-- Why an outline stops when its levels are counted up to a limit. -/
inductive LevelError where
  /-- A node was to be written at a level beyond the limit. -/
  | beyond
  | outline (e : OutlineError)
  deriving DecidableEq, Repr

theorem adaptExcept_bind {ε ε' σ α β : Type} (f : ε → ε') (x : EStateM ε σ α)
    (g : α → EStateM ε σ β) :
    EStateM.adaptExcept f (x >>= g) =
      (do let a ← EStateM.adaptExcept f x; EStateM.adaptExcept f (g a)) := by
  funext s
  simp only [EStateM.adaptExcept, bind, EStateM.bind]
  cases x s <;> rfl

section Writer
variable {σ : Type} [Sink σ]

namespace Sentence

mutual

/-- Writes an outline whose levels are counted up to `limit`: an argument is
    written only where there is one more level for it. -/
def writeUpTo (limit : Nat) (style : Style) (level : Nat) : Sentence → EStateM LevelError σ Unit
  | .atom name => EStateM.adaptExcept .outline (Writer.put (style.line level (.atom name)))
  | .compound op args => do
    EStateM.adaptExcept .outline (Writer.put (style.line level (.compound op args)))
    writeArgsUpTo limit style level op 0 (style.shown op args.length) args

/-- Writes as many of the arguments as are called for, one level below `level`. -/
def writeArgsUpTo (limit : Nat) (style : Style) (level : Nat) (op : Connective) (index : Nat) :
    (wanted : Nat) → List Sentence → EStateM LevelError σ Unit
  | 0, _ => return
  | _ + 1, [] => throw (.outline (.missingChild op.kind index))
  | wanted + 1, arg :: rest =>
    if level < limit then do
      writeUpTo limit style (level + 1) arg
      writeArgsUpTo limit style level op (index + 1) wanted rest
    else throw .beyond

end

theorem writeArgsUpTo_eq_writeArgs {limit level : Nat} {style : Style} {op : Connective}
    {args : List Sentence}
    (ih : ∀ a ∈ args, (a.writeUpTo limit style (level + 1) : EStateM LevelError σ Unit) =
      EStateM.adaptExcept .outline (a.write style (level + 1)))
    (hroom : args ≠ [] → level < limit) (index wanted : Nat) :
    (writeArgsUpTo limit style level op index wanted args : EStateM LevelError σ Unit) =
      EStateM.adaptExcept .outline (writeArgs style (level + 1) op index wanted args) := by
  induction args generalizing index wanted with
  | nil => cases wanted <;> rw [writeArgsUpTo, writeArgs] <;> rfl
  | cons arg rest ihrest =>
    cases wanted with
    | zero =>
      rw [writeArgsUpTo, writeArgs]
      rfl
    | succ wanted =>
      have hlt : level < limit := hroom (by simp)
      have hrest := ihrest (fun a ha => ih a (by simp [ha])) (fun _ => hlt) (index + 1) wanted
      rw [writeArgsUpTo, writeArgs, if_pos hlt, ih arg (by simp), hrest, adaptExcept_bind]

/-- Where the limit has room for the last level of a sentence, counting up to the
    limit makes no difference. -/
theorem writeUpTo_eq_write {limit level : Nat} {s : Sentence} (style : Style)
    (h : level + s.depth ≤ limit + 1) :
    (s.writeUpTo limit style level : EStateM LevelError σ Unit) =
      EStateM.adaptExcept .outline (s.write style level) := by
  induction s generalizing level with
  | atom name => rw [writeUpTo, write]
  | compound op args ih =>
    rw [depth] at h
    have hargs (index wanted : Nat) :
        (writeArgsUpTo limit style level op index wanted args : EStateM LevelError σ Unit) =
          EStateM.adaptExcept .outline (writeArgs style (level + 1) op index wanted args) := by
      refine writeArgsUpTo_eq_writeArgs (fun a ha => ih a ha ?_) ?_ index wanted
      · have hle : a.depth ≤ depths args := depth_le_depths ha
        omega
      · intro hne
        obtain ⟨a, -, hdepth⟩ := exists_depth_eq_depths hne
        have hpos : 0 < a.depth := a.depth_pos
        omega
    rw [writeUpTo, write, hargs, adaptExcept_bind]

end Sentence

end Writer

open Sentence in
/-- In a style that shows every argument, writing is putting the line of every
    position in order, and a sink that takes everything has them all in the end.
    There are as many lines as the sentence has nodes. The deepest stands as many
    levels below the first as the sentence has levels besides the root's, and
    where the levels up to there can be counted no other is called for. -/
theorem full_outline_by_positions (style : Style) (hall : style.allChildren = true) (level : Nat)
    (s : Sentence) :
    InOrder (fun p => ∃ node, s.at? p = some node) s.positions ∧
    s.rendering style level = ⟨String.join (s.positions.map (s.textAt style level)), none⟩ ∧
    (∀ (σ : Type) [Sink σ], (s.write style level : Writer σ Unit) =
      Writer.putAll (s.positions.map (s.textAt style level)) none) ∧
    s.positions.length = s.size ∧
    (∀ p ∈ s.positions, level + p.length ≤ level + (s.depth - 1)) ∧
    (∃ p ∈ s.positions, level + p.length = level + (s.depth - 1)) ∧
    ∀ limit, level + (s.depth - 1) ≤ limit → ∀ (σ : Type) [Sink σ],
      (s.writeUpTo limit style level : EStateM LevelError σ Unit) =
        EStateM.adaptExcept .outline (s.write style level) := by
  have hlines : (s.draft style level).lines.map (·.text style) =
      s.positions.map (s.textAt style level) := by
    rw [draft_full_lines_eq hall, List.map_map]
    exact List.map_congr_left fun p _ => text_lineAt style level s p
  have hdepth : 0 < s.depth := s.depth_pos
  refine ⟨s.inOrder_positions, ?_, ?_, s.length_positions, ?_, ?_, ?_⟩
  · rw [rendering_eq, Draft.text, hlines, draft_full_fault hall]
  · intro σ _
    rw [write_eq_put, Draft.put, hlines, draft_full_fault hall]
  · intro p hp
    obtain ⟨node, hnode⟩ := mem_positions.mp hp
    have hlt : p.length < s.depth := length_lt_depth hnode
    omega
  · obtain ⟨p, node, hnode, hlength⟩ := s.exists_length_eq_depth
    refine ⟨p, mem_positions.mpr ⟨node, hnode⟩, ?_⟩
    omega
  · intro limit hlimit σ _
    apply writeUpTo_eq_write
    omega

/-- Six nodes on three levels, the last at level 4: the outline needs levels up
    to 4 and no other. -/
theorem full_outline_by_positions_at_level_two :
    let style : Style := { indent := "é ", allChildren := true }
    let s : Sentence := .disj [.conj [], .negAll [.atom "a", .atom ""], .atom "v"]
    style.allChildren = true ∧
    s.positions = [[], [0], [1], [1, 0], [1, 1], [2]] ∧
    String.join (s.positions.map (s.textAt style 2)) =
      "é é v\né é é &\né é é ~\né é é é a\né é é é \né é é v\n" ∧
    s.rendering style 2 = ⟨"é é v\né é é &\né é é ~\né é é é a\né é é é \né é é v\n", none⟩ ∧
    2 + (s.depth - 1) ≤ 4 ∧
    (s.writeUpTo 4 style 2 : EStateM LevelError String Unit) =
      EStateM.adaptExcept .outline (s.write style 2) := by
  intro style s
  obtain ⟨-, hrendering, -, -, -, -, hlimit⟩ := full_outline_by_positions style rfl 2 s
  have htext : String.join (s.positions.map (s.textAt style 2)) =
      "é é v\né é é &\né é é ~\né é é é a\né é é é \né é é v\n" := by decide +kernel
  have hlast : 2 + (s.depth - 1) ≤ 4 := by decide
  rw [htext] at hrendering
  exact ⟨rfl, rfl, htext, hrendering, hlast, hlimit 4 hlast String⟩

/-- With levels up to 3 the outline stops before the first line at level 4. -/
example :
    let style : Style := { allChildren := true }
    let s : Sentence := .disj [.conj [], .negAll [.atom "a", .atom ""], .atom "v"]
    (match (s.writeUpTo 3 style 2 : EStateM LevelError String Unit) "" with
      | .ok _ _ => none
      | .error e text => some (e, text)) =
        some (.beyond, "    v\n      &\n      ~\n") := by
  decide +kernel

end Sentential
