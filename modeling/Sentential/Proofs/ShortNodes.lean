import Sentential.Proofs.OutlineLines
import Sentential.Proofs.ReadingBriefBack

/- Where a brief outline stops. A brief outline shows some of the positions of a
   sentence (`Shown`), and a node it shows may be short of arguments (`ShortAt`).
   Lines are written on the way down and a missing argument is noticed on the way
   up, when the arguments that are there have been written. So the outline stops
   at the short node that comes first in post-order (`FirstShort`), and its lines
   are in pre-order: those before that node, its own and those below it
   (`UpTo`). Both proofs follow the sentence, `draft_of_noShort` where no shown
   node is short and `draft_of_firstShort` along the position of the first one;
   `noShort_or_firstShort` says that there is no third case. -/
namespace Sentential

/-- Post-order of positions: what stands below a node comes before the node, and
    of two arguments the first with all that is below it. -/
def BeforeInPostOrder : List Nat → List Nat → Prop
  | i :: p, j :: q => i < j ∨ i = j ∧ BeforeInPostOrder p q
  | _ :: _, [] => True
  | [], _ => False

/-- What a walk in order has come to when it is through with `p` and all that is
    below `p`. -/
def UpTo (p q : List Nat) : Prop := Before q p ∨ p <+: q

instance : DecidableRel UpTo := fun p q => inferInstanceAs (Decidable (Before q p ∨ p <+: q))

@[simp] theorem upTo_nil (q : List Nat) : UpTo [] q := .inr (List.nil_prefix)

@[simp] theorem upTo_cons_nil (i : Nat) (p : List Nat) : UpTo (i :: p) [] :=
  .inl (before_nil_cons i p)

theorem upTo_cons {i j : Nat} {p q : List Nat} :
    UpTo (i :: p) (j :: q) ↔ j < i ∨ j = i ∧ UpTo p q := by
  rw [UpTo, UpTo, before_cons, List.cons_prefix_cons, and_or_left, or_assoc, eq_comm (a := i)]

namespace Sentence

/-! ## Shown positions -/

/-- Of a node that it shows, a brief outline shows the arguments of the usual
    form, as far as they are there. -/
def Shows : Sentence → Nat → Prop
  | .atom _, _ => False
  | .compound op args, i => i < args.length ∧ i < op.arity

/-- The root is shown, and the arguments that a shown node shows. -/
def Shown (s : Sentence) (p : List Nat) : Prop := Reached Shows s p

theorem Shown.root (s : Sentence) : Shown s [] := Reached.root

theorem Shows.exists_child {s : Sentence} {i : Nat} (h : Shows s i) : ∃ c, s.child? i = some c := by
  cases s with
  | atom name => cases h
  | compound op args => exact ⟨_, List.getElem?_eq_getElem h.1⟩

theorem not_shown_atom_cons (name : String) (i : Nat) (p : List Nat) :
    ¬ Shown (.atom name) (i :: p) :=
  fun h => ((reached_cons Shows.exists_child).mp h).1

theorem shown_cons {op : Connective} {args : List Sentence} {i : Nat} {p : List Nat} :
    Shown (compound op args) (i :: p) ↔ i < op.arity ∧ ∃ c, args[i]? = some c ∧ Shown c p := by
  rw [Shown, reached_cons Shows.exists_child]
  refine ⟨?_, ?_⟩
  · intro ⟨⟨_, hi⟩, c, hc, hshown⟩
    exact ⟨hi, c, hc, hshown⟩
  · intro ⟨hi, c, hc, hshown⟩
    exact ⟨⟨(List.getElem?_eq_some_iff.mp hc).1, hi⟩, c, hc, hshown⟩

/-- The shown positions are those of the pruned sentence. -/
theorem mem_positions_prune {s : Sentence} {p : List Nat} :
    p ∈ s.prune.positions ↔ Shown s p := by
  rw [mem_positions]
  induction p generalizing s with
  | nil => simp [Shown.root s]
  | cons i p ih =>
    cases s with
    | atom name =>
      rw [prune, at?_atom_cons]
      refine ⟨fun h => ?_, fun h => absurd h (not_shown_atom_cons name i p)⟩
      obtain ⟨node, hnode⟩ := h
      cases hnode
    | compound op args =>
      simp only [shown_cons, ← ih, prune_compound, at?_cons_eq_some, child?_compound,
        List.getElem?_map, Option.map_eq_some_iff, getElem?_take_eq_some]
      refine ⟨?_, ?_⟩
      · intro h
        obtain ⟨node, -, ⟨a, ⟨hi, ha⟩, rfl⟩, hnode⟩ := h
        exact ⟨hi, a, ha, node, hnode⟩
      · intro h
        obtain ⟨hi, a, ha, node, hnode⟩ := h
        exact ⟨node, a.prune, ⟨a, ⟨hi, ha⟩, rfl⟩, hnode⟩

theorem inOrder_shown (s : Sentence) : InOrder (Shown s) s.prune.positions :=
  ⟨s.prune.pairwise_positions, fun _ => mem_positions_prune⟩

/-! ## Short nodes -/

/-- A shown node that has fewer arguments than the usual form of its connective. -/
def ShortAt (s : Sentence) (p : List Nat) (op : Connective) (given : Nat) : Prop :=
  Shown s p ∧ ∃ args, s.at? p = some (.compound op args) ∧ args.length = given ∧ given < op.arity

/-- The short node that comes before all others in post-order. -/
def FirstShort (s : Sentence) (p : List Nat) (op : Connective) (given : Nat) : Prop :=
  ShortAt s p op given ∧
    ∀ q op' given', ShortAt s q op' given' → q = p ∨ BeforeInPostOrder p q

def NoShort (s : Sentence) : Prop := ∀ p op given, ¬ ShortAt s p op given

theorem noShort_atom (name : String) : NoShort (.atom name) := by
  intro p op given ⟨_, args, hnode, _⟩
  cases p with
  | nil => cases hnode
  | cons i p =>
    rw [at?_atom_cons] at hnode
    cases hnode

section Compound
variable {op : Connective} {args : List Sentence}

theorem shortAt_nil {op' : Connective} {given : Nat} :
    ShortAt (compound op args) [] op' given ↔
      op' = op ∧ given = args.length ∧ args.length < op.arity := by
  refine ⟨?_, ?_⟩
  · intro ⟨_, args', hnode, hlength, hlt⟩
    cases hnode
    exact ⟨rfl, hlength.symm, hlength ▸ hlt⟩
  · intro h
    obtain ⟨rfl, rfl, hlt⟩ := h
    exact ⟨.root _, args, at?_nil _, rfl, hlt⟩

theorem shortAt_cons {i : Nat} {p : List Nat} {op' : Connective} {given : Nat} :
    ShortAt (compound op args) (i :: p) op' given ↔
      i < op.arity ∧ ∃ c, args[i]? = some c ∧ ShortAt c p op' given := by
  rw [ShortAt, shown_cons]
  refine ⟨?_, ?_⟩
  · intro ⟨⟨hi, c, hc, hshown⟩, args', hnode, hlength⟩
    have hchild : (compound op args).child? i = some c := hc
    rw [at?_cons_of_child? hchild] at hnode
    exact ⟨hi, c, hc, hshown, args', hnode, hlength⟩
  · intro ⟨hi, c, hc, hshown, args', hnode, hlength⟩
    have hchild : (compound op args).child? i = some c := hc
    rw [← at?_cons_of_child? hchild] at hnode
    exact ⟨⟨hi, c, hc, hshown⟩, args', hnode, hlength⟩

/-- The shown arguments have no short node in them. -/
theorem noShort_args {n : Nat} (hn : n ≤ op.arity) :
    (∀ a ∈ args.take n, NoShort a) ↔
      ∀ i p op' given, i < n → ¬ ShortAt (compound op args) (i :: p) op' given := by
  refine ⟨?_, ?_⟩
  · intro h i p op' given hi hshort
    obtain ⟨-, c, hc, hshort'⟩ := shortAt_cons.mp hshort
    have hmem : c ∈ args.take n :=
      List.mem_of_getElem? (getElem?_take_eq_some.mpr ⟨hi, hc⟩)
    exact h c hmem p op' given hshort'
  · intro h a ha p op' given hshort
    obtain ⟨i, hi⟩ := List.getElem?_of_mem ha
    obtain ⟨hlt, hia⟩ := getElem?_take_eq_some.mp hi
    exact h i p op' given hlt (shortAt_cons.mpr ⟨by omega, a, hia, hshort⟩)

theorem noShort_compound :
    NoShort (.compound op args) ↔
      op.arity ≤ args.length ∧ ∀ a ∈ args.take op.arity, NoShort a := by
  rw [noShort_args (Nat.le_refl _)]
  refine ⟨?_, ?_⟩
  · intro h
    refine ⟨?_, fun i p op' given _ => h _ op' given⟩
    by_contra hlt
    exact h [] op args.length (shortAt_nil.mpr ⟨rfl, rfl, by omega⟩)
  · intro ⟨hle, hargs⟩ p op' given hshort
    cases p with
    | nil =>
      obtain ⟨-, -, hlt⟩ := shortAt_nil.mp hshort
      omega
    | cons i p => exact hargs i p op' given (shortAt_cons.mp hshort).1 hshort

/-- The root comes last, so it is the first short node when no other is short. -/
theorem firstShort_nil {op' : Connective} {given : Nat} :
    FirstShort (compound op args) [] op' given ↔
      (op' = op ∧ given = args.length ∧ args.length < op.arity) ∧
        ∀ a ∈ args.take op.arity, NoShort a := by
  rw [FirstShort, shortAt_nil, noShort_args (Nat.le_refl _)]
  refine and_congr_right fun _ => ⟨?_, ?_⟩
  · intro h i p op' given _ hshort
    rcases h _ op' given hshort with heq | hbefore
    · cases heq
    · exact hbefore
  · intro h q op' given hshort
    cases q with
    | nil => exact .inl rfl
    | cons i p => exact absurd hshort (h i p op' given (shortAt_cons.mp hshort).1)

/-- The first short node stands in the first argument that has one. -/
theorem firstShort_cons {i : Nat} {p : List Nat} {op' : Connective} {given : Nat} :
    FirstShort (compound op args) (i :: p) op' given ↔
      i < op.arity ∧ (∃ c, args[i]? = some c ∧ FirstShort c p op' given) ∧
        ∀ a ∈ args.take i, NoShort a := by
  refine ⟨?_, ?_⟩
  · intro ⟨hshort, hfirst⟩
    obtain ⟨hi, c, hc, hshort'⟩ := shortAt_cons.mp hshort
    refine ⟨hi, ⟨c, hc, hshort', ?_⟩, (noShort_args (Nat.le_of_lt hi)).mpr ?_⟩
    · intro q op'' given'' hq
      have hbefore := hfirst (i :: q) op'' given'' (shortAt_cons.mpr ⟨hi, c, hc, hq⟩)
      simpa [BeforeInPostOrder] using hbefore
    · intro j q op'' given'' hj hq
      have hbefore := hfirst (j :: q) op'' given'' hq
      simp only [List.cons.injEq, BeforeInPostOrder] at hbefore
      omega
  · intro ⟨hi, ⟨c, hc, hshort, hfirst⟩, hpre⟩
    refine ⟨shortAt_cons.mpr ⟨hi, c, hc, hshort⟩, ?_⟩
    intro q op'' given'' hq
    cases q with
    | nil => exact .inr trivial
    | cons j q =>
      rcases Nat.lt_trichotomy j i with hlt | rfl | hgt
      · exact absurd hq ((noShort_args (Nat.le_of_lt hi)).mp hpre j q op'' given'' hlt)
      · obtain ⟨-, c', hc', hq'⟩ := shortAt_cons.mp hq
        obtain rfl : c = c' := by simpa [hc] using hc'
        rcases hfirst q op'' given'' hq' with rfl | hbefore
        · exact .inl rfl
        · exact .inr (.inr ⟨rfl, hbefore⟩)
      · exact .inr (.inl hgt)

end Compound

theorem noShort_or_firstShort (s : Sentence) :
    NoShort s ∨ ∃ p op given, FirstShort s p op given := by
  induction s with
  | atom name => exact .inl (noShort_atom name)
  | compound op args ih =>
    rcases forall_or_first fun a ha => ih a (List.mem_of_mem_take ha) with
      hargs | ⟨i, a, ha, hpre, p, op', given, hfirst⟩
    · by_cases hle : op.arity ≤ args.length
      · exact .inl (noShort_compound.mpr ⟨hle, hargs⟩)
      · exact .inr ⟨[], op, args.length, firstShort_nil.mpr ⟨⟨rfl, rfl, by omega⟩, hargs⟩⟩
    · obtain ⟨hi, hia⟩ := getElem?_take_eq_some.mp ha
      rw [List.take_take, Nat.min_eq_left (Nat.le_of_lt hi)] at hpre
      exact .inr ⟨i :: p, op', given, firstShort_cons.mpr ⟨hi, ⟨a, hia, hfirst⟩, hpre⟩⟩

/-! ## The lines of shown positions -/

/-- The lines of the shown positions that are wanted. -/
def shownLines (style : Style) (level : Nat) (s : Sentence) (keep : List Nat → Bool) :
    List OutlineLine :=
  (s.prune.positions.filter keep).map (s.lineAt style level)

variable {style : Style}

theorem shownLines_congr {level : Nat} {s : Sentence} {keep keep' : List Nat → Bool}
    (h : ∀ p, keep p = keep' p) :
    s.shownLines style level keep = s.shownLines style level keep' := by
  rw [funext h]

/-- The line of the root is one of them if it is wanted, and behind it there are
    those of the shown arguments. -/
theorem shownLines_compound (style : Style) (level : Nat) (op : Connective)
    (args : List Sentence) {keep : List Nat → Bool} (hroot : keep [] = true) :
    (compound op args).shownLines style level keep =
      ⟨level, style.marker op⟩ :: (args.take op.arity).zipIdx.flatMap fun arg =>
        arg.1.shownLines style (level + 1) fun p => keep (arg.2 :: p) := by
  rw [shownLines, prune_compound, filter_positions_compound, if_pos hroot, List.singleton_append,
    List.map_cons, lineAt_nil, List.zipIdx_map, List.flatMap_map, List.map_flatMap]
  congr 1
  apply List.flatMap_congr
  intro arg harg
  have ha : args[arg.2]? = some arg.1 :=
    (getElem?_take_eq_some.mp (List.mem_zipIdx_iff_getElem?.mp harg)).2
  rw [List.map_map]
  exact List.map_congr_left fun p _ => lineAt_cons ha style level p

/-- Every line of the shown arguments is among them. -/
theorem shownLines_compound_all (style : Style) (level : Nat) (op : Connective)
    (args : List Sentence) {keep : List Nat → Bool} (hkeep : ∀ p, keep p = true) :
    (compound op args).shownLines style level keep =
      ⟨level, style.marker op⟩ :: (args.take op.arity).flatMap fun a =>
        a.shownLines style (level + 1) fun _ => true := by
  rw [shownLines_compound style level op args (hkeep [])]
  congr 1
  apply flatMap_zipIdx
  intro i a _
  exact shownLines_congr fun p => hkeep (i :: p)

theorem take_arity_split {op : Connective} {args : List Sentence} {i : Nat} {c : Sentence}
    (hi : i < op.arity) (hc : args[i]? = some c) :
    args.take op.arity = args.take i ++ c :: (args.take op.arity).drop (i + 1) := by
  have hsplit := split_at (getElem?_take_eq_some.mpr ⟨hi, hc⟩)
  rwa [List.take_take, Nat.min_eq_left (Nat.le_of_lt hi)] at hsplit

/-- Of a walk that ends in one argument, there are all lines of the arguments
    before it and none of those behind it. -/
theorem shownLines_compound_upTo (style : Style) (level : Nat) (op : Connective)
    {args : List Sentence} {i : Nat} {c : Sentence} (hi : i < op.arity)
    (hc : args[i]? = some c) (p : List Nat) :
    (compound op args).shownLines style level (fun q => decide (UpTo (i :: p) q)) =
      ⟨level, style.marker op⟩ ::
        ((args.take i).flatMap (fun a => a.shownLines style (level + 1) fun _ => true) ++
          c.shownLines style (level + 1) fun q => decide (UpTo p q)) := by
  have htake : (args.take op.arity).take i = args.take i := by
    rw [List.take_take, Nat.min_eq_left (Nat.le_of_lt hi)]
  have hinside : c.shownLines style (level + 1) (fun q => decide (UpTo (i :: p) (i :: q))) =
      c.shownLines style (level + 1) fun q => decide (UpTo p q) := by
    apply shownLines_congr
    intro q
    simp [upTo_cons]
  rw [shownLines_compound style level op args (by simp), ← htake, ← hinside]
  congr 1
  apply flatMap_zipIdx_upTo (getElem?_take_eq_some.mpr ⟨hi, hc⟩)
  · intro j a hj _
    exact shownLines_congr fun q => decide_eq_true (upTo_cons.mpr (.inl hj))
  · intro j a hj
    have hnot (q : List Nat) : ¬ UpTo (i :: p) (j :: q) := by
      rw [upTo_cons]
      omega
    simp [shownLines, hnot]

end Sentence

/-! ## Where a brief outline stops -/

/-- A row of drafts ends with the first fault. -/
theorem Draft.concat_of_fault {before behind : List Draft} {d : Draft} {e : OutlineError}
    (hbefore : ∀ f ∈ before, f.fault = none) (hd : d.fault = some e) :
    concat (before ++ d :: behind) = ⟨before.flatMap (·.lines) ++ d.lines, some e⟩ := by
  induction before with
  | nil =>
    rw [List.nil_append, concat, andThen_of_some hd, ← hd]
    rfl
  | cons f before ih =>
    rw [List.cons_append, concat, ih fun g hg => hbefore g (by simp [hg]),
      andThen_of_none (hbefore f (by simp)), List.flatMap_cons, List.append_assoc]

namespace Sentence
variable {style : Style}

theorem drafts_of_complete {level : Nat} {ss : List Sentence}
    (h : ∀ a ∈ ss, a.draft style.brief level = ⟨a.shownLines style level fun _ => true, none⟩) :
    (∀ d ∈ ss.map (draft style.brief level), d.fault = none) ∧
    (ss.map (draft style.brief level)).flatMap (·.lines) =
      ss.flatMap fun a => a.shownLines style level fun _ => true := by
  refine ⟨List.forall_mem_map.mpr fun a ha => ?_, ?_⟩
  · rw [h a ha]
  · rw [List.flatMap_map]
    exact List.flatMap_congr fun a ha => by rw [h a ha]

/-- Without a short node the outline has all lines. -/
theorem draft_of_noShort {s : Sentence} (h : NoShort s) (level : Nat) :
    s.draft style.brief level = ⟨s.shownLines style level fun _ => true, none⟩ := by
  induction s generalizing level with
  | atom name =>
    rw [draft_atom, shownLines, prune, positions_atom, List.filter_true, List.map_singleton,
      lineAt_nil]
    rfl
  | compound op args ih =>
    obtain ⟨hle, hargs⟩ := noShort_compound.mp h
    obtain ⟨hfaults, hlines⟩ := drafts_of_complete fun a ha =>
      ih a (List.mem_of_mem_take ha) (hargs a ha) (level + 1)
    rw [draft_compound, Style.brief_shown, Style.brief_marker, Draft.short_of_le hle,
      Draft.andThen_empty, Draft.andThen_of_none rfl, Draft.concat_lines hfaults, hlines,
      Draft.concat_fault_eq_none.mpr hfaults,
      shownLines_compound_all style level op args fun _ => rfl]
    rfl

/-- The outline ends with the first short node, and has the lines up to it. -/
theorem draft_of_firstShort {s : Sentence} {p : List Nat} {op : Connective} {given : Nat}
    (h : FirstShort s p op given) (level : Nat) :
    s.draft style.brief level =
      ⟨s.shownLines style level fun q => decide (UpTo p q),
        some (.missingChild op.kind given)⟩ := by
  induction s generalizing p level with
  | atom name => exact absurd h.1 (noShort_atom name p op given)
  | compound op' args ih =>
    rw [draft_compound, Style.brief_shown, Style.brief_marker, Draft.andThen_of_none rfl]
    cases p with
    | nil =>
      -- all arguments that are there have been written when one is found missing
      obtain ⟨⟨rfl, rfl, hlt⟩, hargs⟩ := firstShort_nil.mp h
      obtain ⟨hfaults, hlines⟩ := drafts_of_complete fun a ha =>
        draft_of_noShort (hargs a ha) (level + 1)
      rw [Draft.andThen_of_none (Draft.concat_fault_eq_none.mpr hfaults),
        Draft.concat_lines hfaults, hlines, Draft.short_of_lt hlt, List.append_nil,
        shownLines_compound_all style level op args (by simp)]
      rfl
    | cons i p =>
      -- the argument with the short node ends the row, complete ones are in front of it
      obtain ⟨hi, ⟨c, hc, hfirst⟩, hargs⟩ := firstShort_cons.mp h
      obtain ⟨hfaults, hlines⟩ := drafts_of_complete fun a ha =>
        draft_of_noShort (hargs a ha) (level + 1)
      have hdraft := ih c (List.mem_of_getElem? hc) hfirst (level + 1)
      have hfault : (c.draft style.brief (level + 1)).fault =
          some (.missingChild op.kind given) := by
        rw [hdraft]
      rw [take_arity_split hi hc, List.map_append, List.map_cons,
        Draft.concat_of_fault hfaults hfault, Draft.andThen_of_some rfl, hlines, hdraft,
        shownLines_compound_upTo style level op' hi hc]
      rfl

theorem text_shownLines (level : Nat) (s : Sentence) (keep : List Nat → Bool)
    (fault : Option OutlineError) :
    Draft.text style ⟨s.shownLines style level keep, fault⟩ =
      String.join ((s.prune.positions.filter keep).map (s.textAt style level)) := by
  rw [Draft.text, shownLines, List.map_map]
  congr 1
  exact List.map_congr_left fun p _ => text_lineAt style level s p

end Sentence

open Sentence in
/-- A brief outline with a short node stops at the one that comes first in
    post-order, and says of which kind it is and how many arguments it has. The
    text has the lines of the nodes before it in pre-order, of the node itself
    and of the nodes below it, as far as they are shown. Without a short node it
    has all shown lines. What is missing is the first argument of a connective
    or the second of a junction. The complete outline is this text, or else
    there is none for the same reason. -/
theorem brief_outline_stops_at_first_short_node (style : Style)
    (hbrief : style.allChildren = false) (level : Nat) (s : Sentence) :
    (∀ p op given, FirstShort s p op given →
      (s.rendering style level).error = some (.missingChild op.kind given) ∧
      ∃ ps, InOrder (fun q => Shown s q ∧ (Before q p ∨ p <+: q)) ps ∧
        (s.rendering style level).text = String.join (ps.map (s.textAt style level))) ∧
    ((∃ p op given, ShortAt s p op given) → ∃ p op given, FirstShort s p op given) ∧
    ((¬ ∃ p op given, ShortAt s p op given) →
      (s.rendering style level).error = none ∧
      ∃ ps, InOrder (Shown s) ps ∧
        (s.rendering style level).text = String.join (ps.map (s.textAt style level))) ∧
    (∀ kind index, (s.rendering style level).error = some (.missingChild kind index) →
      kind ≠ .atom ∧ (kind = .neg → index = 0) ∧ (kind = .conj ∨ kind = .disj → index ≤ 1)) ∧
    (∀ e, (s.rendering style 0).error = some e → s.outline style = .error e) ∧
    ((s.rendering style 0).error = none → s.outline style = .ok (s.rendering style 0).text) := by
  have hstyle : style.brief = style := Style.brief_eq hbrief
  have hfirst {p : List Nat} {op : Connective} {given : Nat} (h : FirstShort s p op given) :
      s.rendering style level =
        ⟨String.join ((s.prune.positions.filter fun q => decide (UpTo p q)).map
          (s.textAt style level)), some (.missingChild op.kind given)⟩ := by
    have hdraft : s.draft style.brief level = _ := draft_of_firstShort h level
    rw [hstyle] at hdraft
    rw [rendering_eq, hdraft, text_shownLines]
  have hnone (h : NoShort s) :
      s.rendering style level =
        ⟨String.join ((s.prune.positions.filter fun _ => true).map (s.textAt style level)),
          none⟩ := by
    have hdraft : s.draft style.brief level = _ := draft_of_noShort h level
    rw [hstyle] at hdraft
    rw [rendering_eq, hdraft, text_shownLines]
  refine ⟨?_, ?_, ?_, ?_, ?_, ?_⟩
  · intro p op given h
    rw [hfirst h]
    exact ⟨rfl, _, s.inOrder_shown.filter _ fun q => by rw [decide_eq_true_iff, UpTo], rfl⟩
  · intro ⟨p, op, given, hshort⟩
    exact s.noShort_or_firstShort.resolve_left fun h => h p op given hshort
  · intro h
    have hno : NoShort s := fun p op given hshort => h ⟨p, op, given, hshort⟩
    rw [hnone hno]
    exact ⟨rfl, _, s.inOrder_shown.filter _ fun q => by simp, rfl⟩
  · intro kind index herror
    rcases s.noShort_or_firstShort with hno | ⟨p, op, given, h⟩
    · rw [hnone hno] at herror
      cases herror
    · rw [hfirst h] at herror
      cases herror
      obtain ⟨-, -, -, -, hlt⟩ := h.1
      cases op <;> simp [Connective.kind, Connective.arity] at hlt ⊢ <;> omega
  · intro e he
    rw [outline, he]
  · intro h
    rw [outline, h]

open Sentence in
/-- The inner disjunction lacks its second argument and the negation its only one.
    The disjunction is the first in post-order: its argument is shown, the name
    behind it and the negation are not. In the other sentence no node is short. -/
theorem brief_outline_stops_at_first_short_node_inside_an_argument :
    let s : Sentence := .disj [.conj [.disj [.atom "x"], .atom "a"], .negAll []]
    let t : Sentence := ~~~((.atom "a" : Sentence) &&& .atom "b")
    ({} : Style).allChildren = false ∧
    (∃ p op given, ShortAt s p op given) ∧ FirstShort s [0, 0] .disj 1 ∧
    s.rendering {} 0 = ⟨"v\n  &\n    v\n      x\n", some (.missingChild .disj 1)⟩ ∧
    (∃ ps, InOrder (fun q => Shown s q ∧ (Before q [0, 0] ∨ [0, 0] <+: q)) ps ∧
      "v\n  &\n    v\n      x\n" = String.join (ps.map (s.textAt {} 0))) ∧
    s.outline {} = .error (.missingChild .disj 1) ∧
    (¬ ∃ p op given, ShortAt t p op given) ∧ (t.rendering {} 0).error = none ∧
    t.outline {} = .ok (t.rendering {} 0).text := by
  intro s t
  have hfirst : FirstShort s [0, 0] .disj 1 := by
    refine firstShort_cons.mpr ⟨by decide, ⟨_, rfl, ?_⟩, by simp⟩
    refine firstShort_cons.mpr ⟨by decide, ⟨_, rfl, ?_⟩, by simp⟩
    refine firstShort_nil.mpr ⟨⟨rfl, rfl, by decide⟩, ?_⟩
    simpa [Connective.arity] using noShort_atom "x"
  have htext : s.rendering {} 0 =
      ⟨"v\n  &\n    v\n      x\n", some (.missingChild .disj 1)⟩ := by decide +kernel
  have hno : NoShort t := by
    refine noShort_compound.mpr ⟨by decide, ?_⟩
    have hand : NoShort ((.atom "a" : Sentence) &&& .atom "b") :=
      noShort_compound.mpr ⟨by decide, by simp [Connective.arity, noShort_atom]⟩
    simpa [Connective.arity] using hand
  have hnone : ¬ ∃ p op given, ShortAt t p op given :=
    fun ⟨p, op, given, hshort⟩ => hno p op given hshort
  obtain ⟨hstop, -, -, -, herror, -⟩ :=
    brief_outline_stops_at_first_short_node {} rfl 0 s
  obtain ⟨-, -, hcomplete, -, -, houtline⟩ :=
    brief_outline_stops_at_first_short_node {} rfl 0 t
  obtain ⟨hmissing, hlines⟩ := hstop [0, 0] .disj 1 hfirst
  have hall : (t.rendering {} 0).error = none := (hcomplete hnone).1
  rw [htext] at hlines
  exact ⟨rfl, ⟨_, _, _, hfirst.1⟩, hfirst, htext, hlines, herror _ hmissing, hnone, hall,
    houtline hall⟩

end Sentential
