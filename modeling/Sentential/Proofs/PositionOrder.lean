import Mathlib.Data.List.Basic
import Mathlib.Data.List.Flatten
import Sentential.Proofs.Positions
import Sentential.Sentence.Measure

/- The list of positions. `positions` goes through a sentence as an outline
   does, a node before its arguments and those from left to right, which is the
   lexicographic order of positions (`Before`). It has every position once
   (`inOrder_positions`), as many as the sentence has nodes, and the longest is
   one shorter than the sentence has levels. What is said of the positions with
   some property is said of the one list that has them in this order
   (`InOrder`, `InOrder.filter`); such a list is followed from a compound
   sentence into its arguments by `filter_positions_compound`. -/
namespace Sentential

/-- Lexicographic order of positions: what stands at a node comes before what
    stands below it, and of two arguments the first with all that is below it. -/
def Before (p q : List Nat) : Prop := List.Lex (· < ·) p q

instance : DecidableRel Before := fun p q => inferInstanceAs (Decidable (List.Lex (· < ·) p q))

theorem before_cons {i j : Nat} {p q : List Nat} :
    Before (i :: p) (j :: q) ↔ i < j ∨ i = j ∧ Before p q := List.cons_lex_cons_iff

theorem before_nil_cons (i : Nat) (p : List Nat) : Before [] (i :: p) := .nil

/-- The list has the positions with property `P`, each once and in order. -/
structure InOrder (P : List Nat → Prop) (ps : List (List Nat)) : Prop where
  ascends : ps.Pairwise Before
  mem_iff : ∀ p, p ∈ ps ↔ P p

theorem InOrder.filter {P Q : List Nat → Prop} {ps : List (List Nat)} (h : InOrder P ps)
    (keep : List Nat → Bool) (hkeep : ∀ p, Q p ↔ P p ∧ keep p = true) :
    InOrder Q (ps.filter keep) := by
  refine ⟨h.ascends.filter keep, fun p => ?_⟩
  rw [List.mem_filter, h.mem_iff, hkeep]

namespace Sentence

/-! ## Arguments in order -/

theorem getElem?_take_eq_some {args : List Sentence} {n i : Nat} {a : Sentence} :
    (args.take n)[i]? = some a ↔ i < n ∧ args[i]? = some a := by
  rw [List.getElem?_take, Option.ite_none_right_eq_some]

/-- If every member of a list is good or bad, all are good or there is a first bad
    one. -/
theorem forall_or_first {good bad : Sentence → Prop} {args : List Sentence}
    (h : ∀ a ∈ args, good a ∨ bad a) :
    (∀ a ∈ args, good a) ∨
      ∃ i a, args[i]? = some a ∧ (∀ b ∈ args.take i, good b) ∧ bad a := by
  induction args with
  | nil => exact .inl (by simp)
  | cons a rest ih =>
    rcases h a (by simp) with ha | ha
    · rcases ih fun b hb => h b (by simp [hb]) with hrest | ⟨i, b, hb, hpre, hbad⟩
      · exact .inl (by simpa using ⟨ha, hrest⟩)
      · exact .inr ⟨i + 1, b, hb, by simpa using ⟨ha, hpre⟩, hbad⟩
    · exact .inr ⟨0, a, rfl, by simp, ha⟩

/-- What is gathered from each argument with its index, but does not depend on
    the index, is gathered from the arguments. -/
theorem flatMap_zipIdx {β : Type} {args : List Sentence} {f : Sentence × Nat → List β}
    {g : Sentence → List β} (h : ∀ i a, args[i]? = some a → f (a, i) = g a) :
    args.zipIdx.flatMap f = args.flatMap g :=
  calc args.zipIdx.flatMap f = args.zipIdx.flatMap fun arg => g arg.1 :=
        List.flatMap_congr fun arg harg => h arg.2 arg.1 (List.mem_zipIdx_iff_getElem?.mp harg)
    _ = (args.zipIdx.map Prod.fst).flatMap g := (List.flatMap_map Prod.fst g _).symm
    _ = args.flatMap g := by rw [List.zipIdx_map_fst]

/-- What is gathered up to one argument and not behind it. -/
theorem flatMap_zipIdx_upTo {β : Type} {args : List Sentence} {i : Nat} {c : Sentence}
    (hc : args[i]? = some c) {f : Sentence × Nat → List β} {g : Sentence → List β}
    (hbefore : ∀ j a, j < i → args[j]? = some a → f (a, j) = g a)
    (hbehind : ∀ j a, i < j → f (a, j) = []) :
    args.zipIdx.flatMap f = (args.take i).flatMap g ++ f (c, i) := by
  have hlength : (args.take i).length = i := by
    have hlt : i < args.length := (List.getElem?_eq_some_iff.mp hc).1
    rw [List.length_take]
    omega
  have hfront : (args.take i).zipIdx.flatMap f = (args.take i).flatMap g := by
    apply flatMap_zipIdx
    intro j a ha
    obtain ⟨hlt, ha'⟩ := getElem?_take_eq_some.mp ha
    exact hbefore j a hlt ha'
  have hback : ((args.drop (i + 1)).zipIdx (i + 1)).flatMap f = [] := by
    rw [List.flatMap_eq_nil_iff]
    intro arg harg
    exact hbehind arg.2 arg.1 (List.le_snd_of_mem_zipIdx harg)
  calc args.zipIdx.flatMap f
      = (args.take i ++ c :: args.drop (i + 1)).zipIdx.flatMap f := by rw [← split_at hc]
    _ = (args.take i).flatMap g ++ f (c, i) := by
      rw [List.zipIdx_append, hlength, List.zipIdx_cons, List.flatMap_append, List.flatMap_cons,
        Nat.zero_add, hfront, hback, List.append_nil]

/-! ## Positions of a compound sentence -/

theorem at?_atom_cons (name : String) (i : Nat) (p : List Nat) :
    (atom name).at? (i :: p) = none := by
  simp [at?_cons, child?, children]

theorem positions_atom (name : String) : (atom name).positions = [[]] := by
  rw [positions]

theorem positionsFrom_eq_flatMap (index : Nat) (ss : List Sentence) :
    positionsFrom index ss =
      (ss.zipIdx index).flatMap fun arg => arg.1.positions.map (arg.2 :: ·) := by
  induction ss generalizing index with
  | nil => rw [positionsFrom]; rfl
  | cons s rest ih => rw [positionsFrom, ih, List.zipIdx_cons, List.flatMap_cons]

theorem positions_compound (op : Connective) (args : List Sentence) :
    (compound op args).positions =
      [] :: args.zipIdx.flatMap fun arg => arg.1.positions.map (arg.2 :: ·) := by
  rw [positions, positionsFrom_eq_flatMap]

/-- Some of the positions of a compound sentence: maybe the root, and then of
    each argument those that are wanted below its index. -/
theorem filter_positions_compound (op : Connective) (args : List Sentence)
    (keep : List Nat → Bool) :
    (compound op args).positions.filter keep =
      (if keep [] then [[]] else []) ++ args.zipIdx.flatMap fun arg =>
        (arg.1.positions.filter fun p => keep (arg.2 :: p)).map (arg.2 :: ·) := by
  have hargs : (args.zipIdx.flatMap fun arg => arg.1.positions.map (arg.2 :: ·)).filter keep =
      args.zipIdx.flatMap fun arg =>
        (arg.1.positions.filter fun p => keep (arg.2 :: p)).map (arg.2 :: ·) := by
    rw [List.filter_flatMap]
    congr 1
    funext arg
    rw [List.filter_map]
    rfl
  rw [positions_compound, List.filter_cons, hargs]
  split <;> rfl

/-! ## Every position once and in order -/

theorem mem_positions {s : Sentence} {p : List Nat} :
    p ∈ s.positions ↔ ∃ node, s.at? p = some node := by
  induction s generalizing p with
  | atom name =>
    rw [positions_atom, List.mem_singleton]
    cases p with
    | nil => simp
    | cons i p => simp [at?_atom_cons]
  | compound op args ih =>
    rw [positions_compound]
    cases p with
    | nil => simp
    | cons i p =>
      have hargs : (i :: p ∈ args.zipIdx.flatMap fun arg => arg.1.positions.map (arg.2 :: ·)) ↔
          ∃ a, args[i]? = some a ∧ p ∈ a.positions := by
        simp only [List.mem_flatMap, List.mem_map, List.cons.injEq, Prod.exists,
          List.mk_mem_zipIdx_iff_getElem?]
        refine ⟨?_, ?_⟩
        · intro h
          obtain ⟨a, j, ha, q, hq, rfl, rfl⟩ := h
          exact ⟨a, ha, hq⟩
        · intro ⟨a, ha, hp⟩
          exact ⟨a, i, ha, p, hp, rfl, rfl⟩
      simp only [List.mem_cons, reduceCtorEq, false_or, hargs, at?_cons_eq_some,
        child?_compound]
      refine ⟨?_, ?_⟩
      · intro ⟨a, ha, hp⟩
        obtain ⟨node, hnode⟩ := (ih a (List.mem_of_getElem? ha)).mp hp
        exact ⟨node, a, ha, hnode⟩
      · intro ⟨node, a, ha, hnode⟩
        exact ⟨a, ha, (ih a (List.mem_of_getElem? ha)).mpr ⟨node, hnode⟩⟩

theorem pairwise_positions (s : Sentence) : s.positions.Pairwise Before := by
  induction s with
  | atom name =>
    rw [positions_atom]
    exact List.pairwise_singleton _ _
  | compound op args ih =>
    rw [positions_compound, List.pairwise_cons, List.pairwise_flatMap]
    refine ⟨?_, ?_, ?_⟩
    · intro p hp
      obtain ⟨arg, -, hp⟩ := List.mem_flatMap.mp hp
      obtain ⟨q, -, rfl⟩ := List.mem_map.mp hp
      exact before_nil_cons arg.2 q
    · intro arg harg
      have hmem : arg.1 ∈ args := List.mem_of_getElem? (List.mem_zipIdx_iff_getElem?.mp harg)
      exact List.pairwise_map.mpr
        ((ih arg.1 hmem).imp fun h => before_cons.mpr (.inr ⟨rfl, h⟩))
    · -- the indices ascend, and they decide between two arguments
      have hindices : (args.zipIdx.map Prod.snd).Pairwise (· < ·) := by
        rw [List.zipIdx_map_snd]
        exact List.pairwise_lt_range'
      refine (List.pairwise_map.mp hindices).imp ?_
      intro arg later hlt p hp q hq
      obtain ⟨p, -, rfl⟩ := List.mem_map.mp hp
      obtain ⟨q, -, rfl⟩ := List.mem_map.mp hq
      exact before_cons.mpr (.inl hlt)

theorem inOrder_positions (s : Sentence) :
    InOrder (fun p => ∃ node, s.at? p = some node) s.positions :=
  ⟨s.pairwise_positions, fun _ => mem_positions⟩

/-! ## How many positions, and how long -/

theorem length_positions (s : Sentence) : s.positions.length = s.size := by
  induction s with
  | atom name => rw [positions_atom]; rfl
  | compound op args ih =>
    have hargs (index : Nat) : (positionsFrom index args).length = sizes args := by
      induction args generalizing index with
      | nil => rw [positionsFrom]; rfl
      | cons a rest ihrest =>
        rw [positionsFrom, List.length_append, List.length_map, sizes, ih a (by simp),
          ihrest fun b hb => ih b (by simp [hb])]
    rw [positions, List.length_cons, hargs, size, Nat.add_comm]

/-- Below a position there are no more levels than the position leaves. -/
theorem length_lt_depth {s node : Sentence} {p : List Nat} (h : s.at? p = some node) :
    p.length < s.depth := by
  induction p generalizing s with
  | nil => exact s.depth_pos
  | cons i p ih =>
    obtain ⟨c, hc, hnode⟩ := at?_cons_eq_some.mp h
    have hlt : p.length < c.depth := ih hnode
    have hle : c.depth ≤ depths s.children := depth_le_depths (List.mem_of_getElem? hc)
    rw [List.length_cons, depth_eq]
    omega

theorem exists_depth_eq_depths {ss : List Sentence} (h : ss ≠ []) :
    ∃ s ∈ ss, s.depth = depths ss := by
  induction ss with
  | nil => exact absurd rfl h
  | cons s rest ih =>
    rw [depths]
    by_cases hrest : rest = []
    · refine ⟨s, by simp, ?_⟩
      rw [hrest, depths, Nat.max_zero]
    · obtain ⟨t, ht, hdepth⟩ := ih hrest
      rcases Nat.le_total s.depth (depths rest) with hle | hle
      · exact ⟨t, by simp [ht], by rw [hdepth, Nat.max_eq_right hle]⟩
      · exact ⟨s, by simp, by rw [Nat.max_eq_left hle]⟩

/-- Some position goes down to the last level. -/
theorem exists_length_eq_depth (s : Sentence) :
    ∃ p node, s.at? p = some node ∧ p.length + 1 = s.depth := by
  induction s with
  | atom name => exact ⟨[], _, at?_nil _, rfl⟩
  | compound op args ih =>
    by_cases hargs : args = []
    · refine ⟨[], _, at?_nil _, ?_⟩
      rw [hargs, depth, depths]
      rfl
    · obtain ⟨a, ha, hdepth⟩ := exists_depth_eq_depths hargs
      obtain ⟨p, node, hnode, hlength⟩ := ih a ha
      obtain ⟨i, hi⟩ := exists_child?_of_mem op ha
      refine ⟨i :: p, node, at?_cons_eq_some.mpr ⟨a, hi, hnode⟩, ?_⟩
      rw [List.length_cons, depth, ← hdepth]
      omega

end Sentence

end Sentential
