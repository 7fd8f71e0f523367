import Sentential.Proofs.PositionOrder
import Sentential.Proofs.Questions

/- The order of questions. Evaluation asks once at every live atom and nowhere
   else, and it takes them in the order of positions (`asked_eval`). The proof
   follows the sentence: the live nodes of a compound sentence are the root and
   those of the arguments it enters (`liveNodes_compound`), and a junction enters
   its arguments up to the first that does not pass (`flatMap_enters`). Where the
   questions end is a matter of runs alone (`AsksOnAnswer`): behind each but the
   last there is an answer, and a run that goes without one fails with the name
   it asked last. -/
namespace Sentential

/-- A run that goes on only behind an answer, and fails with a name exactly when
    it has asked for that name last and has had no answer. -/
structure AsksOnAnswer (v : Valuation) (r : Run Bool) : Prop where
  answered : ∀ name ∈ r.asked.dropLast, ∃ b, v name = some b
  stops : ∀ x, r.outcome = .error (.unassigned x) ↔ r.asked.getLast? = some x ∧ v x = none

namespace AsksOnAnswer
variable {v : Valuation} {r : Run Bool}

theorem pure (b : Bool) : AsksOnAnswer v (.pure b) where
  answered _ h := absurd h List.not_mem_nil
  stops x := by simp [Run.pure]

theorem arity (n : Nat) : AsksOnAnswer v (.fail (.arity n)) where
  answered _ h := absurd h List.not_mem_nil
  stops x := by simp [Run.fail]

theorem ask (name : String) : AsksOnAnswer v (.ask v name) := by
  refine ⟨?_, ?_⟩
  · intro n hn
    rw [Run.asked_ask] at hn
    exact absurd hn List.not_mem_nil
  · intro x
    rw [Run.asked_ask, Run.ask_eq_error, List.getLast?_singleton, Option.some.injEq,
      EvalError.unassigned.injEq]
    refine ⟨?_, ?_⟩
    · intro ⟨hv, hx⟩
      exact ⟨hx.symm, hx ▸ hv⟩
    · intro ⟨hx, hv⟩
      exact ⟨hx ▸ hv, hx.symm⟩

/-- A run with a value has had an answer to every question. -/
theorem answered_of_ok (h : AsksOnAnswer v r) {b : Bool} (ho : r.outcome = .ok b) :
    ∀ name ∈ r.asked, ∃ b, v name = some b := by
  intro name hname
  obtain ⟨last, hlast⟩ : ∃ last, r.asked.getLast? = some last :=
    ⟨_, List.getLast?_eq_some_getLast (List.ne_nil_of_mem hname)⟩
  rw [← List.dropLast_append_getLast? last hlast, List.mem_append, List.mem_singleton] at hname
  rcases hname with hfront | rfl
  · exact h.answered name hfront
  · cases hv : v name with
    | some b => exact ⟨b, rfl⟩
    | none =>
      have herror := (h.stops name).mpr ⟨hlast, hv⟩
      rw [ho] at herror
      cases herror

theorem bind {f : Bool → Run Bool} (hr : AsksOnAnswer v r) (hf : ∀ b, AsksOnAnswer v (f b)) :
    AsksOnAnswer v (r.bind f) := by
  cases ho : r.outcome with
  | error e =>
    rw [Run.bind_of_error ho, ← ho]
    exact hr
  | ok b =>
    rw [Run.bind_of_ok ho]
    have hall : ∀ name ∈ r.asked, ∃ b, v name = some b := hr.answered_of_ok ho
    by_cases hnext : (f b).asked = []
    · -- no question is added, so the last one is still among those of `r`
      have hstops (x : String) : (f b).outcome ≠ .error (.unassigned x) := by
        intro he
        have hlast := ((hf b).stops x).mp he
        rw [hnext] at hlast
        cases hlast.1
      rw [hnext, List.append_nil]
      refine ⟨fun name hname => hall name (List.dropLast_subset _ hname), fun x => ?_⟩
      refine ⟨fun he => absurd he (hstops x), fun ⟨hlast, hv⟩ => ?_⟩
      obtain ⟨b, hb⟩ := hall x (List.mem_of_getLast? hlast)
      rw [hv] at hb
      cases hb
    · refine ⟨?_, ?_⟩
      · intro name hname
        rw [List.dropLast_append_of_ne_nil hnext] at hname
        rcases List.mem_append.mp hname with hfirst | hlater
        · exact hall name hfirst
        · exact (hf b).answered name hlater
      · intro x
        rw [List.getLast?_append_of_ne_nil _ hnext]
        exact (hf b).stops x

end AsksOnAnswer

namespace Sentence

theorem eval_asksOnAnswer (v : Valuation) (s : Sentence) : AsksOnAnswer v (s.eval v) :=
  eval_composes (P := fun r => ∀ v, AsksOnAnswer v (r v))
    ⟨fun b _ => .pure b, fun n _ => .arity n, fun name _ => .ask name,
      fun _ _ hr hf v => (hr v).bind fun b => hf b v⟩ s v

/-! ## Names at live positions -/

variable {v : Valuation}

instance (v : Valuation) (s : Sentence) (i : Nat) : Decidable (Enters v s i) :=
  match s with
  | .atom _ => .isFalse id
  | .compound .neg args => inferInstanceAs (Decidable (args.length = 1 ∧ i = 0))
  | .compound .conj args => inferInstanceAs
      (Decidable (i < args.length ∧ ∀ a ∈ args.take i, (a.eval v).outcome = .ok true))
  | .compound .disj args => inferInstanceAs
      (Decidable (i < args.length ∧ ∀ a ∈ args.take i, (a.eval v).outcome = .ok false))

instance (v : Valuation) (stop : Bool) (a : Sentence) : Decidable (Passes v stop a) :=
  inferInstanceAs (Decidable ((eval v a).outcome = .ok !stop))

instance decidableLive (v : Valuation) : ∀ s p, Decidable (Live v s p)
  | _, [] => .isTrue .root
  | s, i :: p =>
    match hc : s.child? i with
    | none => .isFalse fun h => by
        obtain ⟨-, c, hc', -⟩ := live_cons.mp h
        rw [hc] at hc'
        cases hc'
    | some c =>
      have := decidableLive v c p
      decidable_of_iff (Enters v s i ∧ Live v c p) (by
        rw [live_cons, hc]
        simp)

theorem Live.exists_at? {s : Sentence} {p : List Nat} (h : Live v s p) :
    ∃ node, s.at? p = some node := by
  induction h with
  | root => exact ⟨s, at?_nil s⟩
  | @argument p node i _ hnode henters _ =>
    obtain ⟨c, hc⟩ := henters.exists_child
    refine ⟨c, ?_⟩
    rw [at?_append, hnode, Option.bind_some, at?_cons_of_child? hc, at?_nil]

theorem inOrder_live (v : Valuation) (s : Sentence) :
    InOrder (Live v s) (s.positions.filter fun p => decide (Live v s p)) := by
  apply s.inOrder_positions.filter
  intro p
  rw [decide_eq_true_iff]
  exact ⟨fun h => ⟨h.exists_at?, h⟩, fun h => h.2⟩

/-- The name of the atom at a position, if an atom stands there. -/
def nameAt (s : Sentence) (p : List Nat) : Option String := (s.at? p).bind name?

theorem nameAt_eq_some {s : Sentence} {p : List Nat} {name : String} :
    s.nameAt p = some name ↔ s.at? p = some (.atom name) := by
  rw [nameAt, Option.bind_eq_some_iff]
  refine ⟨?_, ?_⟩
  · intro ⟨node, hnode, hname⟩
    cases node with
    | atom n =>
      cases hname
      exact hnode
    | compound op args => cases hname
  · intro h
    exact ⟨_, h, rfl⟩

theorem nameAt_isSome {s : Sentence} {p : List Nat} :
    (s.nameAt p).isSome = true ↔ ∃ name, s.at? p = some (.atom name) := by
  rw [Option.isSome_iff_exists]
  simp only [nameAt_eq_some]

/-- The nodes at live positions, in the order of positions. -/
def liveNodes (v : Valuation) (s : Sentence) : List Sentence :=
  (s.positions.filter fun p => decide (Live v s p)).filterMap s.at?

theorem liveNodes_atom (name : String) : (atom name).liveNodes v = [atom name] := by
  have hroot : decide (Live v (atom name) []) = true := decide_eq_true .root
  rw [liveNodes, positions_atom, List.filter_cons, if_pos hroot]
  rfl

/-- Live are the root and the live nodes of the arguments that are entered. -/
theorem liveNodes_compound (op : Connective) (args : List Sentence) :
    (compound op args).liveNodes v = compound op args :: args.zipIdx.flatMap fun arg =>
      if Enters v (.compound op args) arg.2 then arg.1.liveNodes v else [] := by
  have hroot : decide (Live v (compound op args) []) = true := decide_eq_true .root
  rw [liveNodes, filter_positions_compound, if_pos hroot, List.singleton_append,
    List.filterMap_cons_some (at?_nil _), List.filterMap_flatMap]
  congr 1
  apply List.flatMap_congr
  intro arg harg
  have hchild : (compound op args).child? arg.2 = some arg.1 :=
    List.mem_zipIdx_iff_getElem?.mp harg
  have hat : (compound op args).at? ∘ (arg.2 :: ·) = arg.1.at? := by
    funext p
    exact at?_cons_of_child? hchild p
  have hlive (p : List Nat) : Live v (compound op args) (arg.2 :: p) ↔
      Enters v (.compound op args) arg.2 ∧ Live v arg.1 p := by
    rw [live_cons, hchild]
    simp
  rw [List.filterMap_map, hat]
  simp only [hlive]
  by_cases henters : Enters v (.compound op args) arg.2
  · simp only [henters, true_and, if_true, liveNodes]
  · simp only [henters, false_and, if_false, decide_false, List.filter_false, List.filterMap_nil]

theorem liveNodes_neg (arg : Sentence) :
    (compound .neg [arg]).liveNodes v = compound .neg [arg] :: arg.liveNodes v := by
  have henters : Enters v (.compound .neg [arg]) 0 := ⟨rfl, rfl⟩
  simp [liveNodes_compound, henters]

/-- The root at least is live. -/
theorem length_liveNodes_pos (v : Valuation) (s : Sentence) : 0 < (s.liveNodes v).length := by
  cases s with
  | atom name => simp [liveNodes_atom]
  | compound op args => simp [liveNodes_compound]

/-- There is one live node for each live position. -/
theorem length_liveNodes (v : Valuation) (s : Sentence) :
    (s.liveNodes v).length = (s.positions.filter fun p => decide (Live v s p)).length := by
  apply List.filterMap_length_eq_length.mpr
  intro p hp
  obtain ⟨node, hnode⟩ := mem_positions.mp (List.mem_of_mem_filter hp)
  rw [hnode]
  rfl

/-- The names of the live atoms, from left to right. -/
def liveNames (v : Valuation) (s : Sentence) : List String :=
  (s.positions.filter fun p => decide (Live v s p)).filterMap s.nameAt

theorem liveNames_eq (v : Valuation) (s : Sentence) :
    s.liveNames v = (s.liveNodes v).filterMap name? := by
  rw [liveNodes, List.filterMap_filterMap]
  rfl

theorem liveNames_atom (name : String) : (atom name).liveNames v = [name] := by
  rw [liveNames_eq, liveNodes_atom]
  rfl

/-- Live are the names of the arguments that are entered. -/
theorem liveNames_compound (op : Connective) (args : List Sentence) :
    (compound op args).liveNames v = args.zipIdx.flatMap fun arg =>
      if Enters v (.compound op args) arg.2 then arg.1.liveNames v else [] := by
  rw [liveNames_eq, liveNodes_compound, List.filterMap_cons_none rfl, List.filterMap_flatMap]
  congr 1
  funext arg
  split
  · exact (liveNames_eq v arg.1).symm
  · rfl

/-! ## The arguments that a junction enters -/

/-- The members of a list that are entered when it is read up to a value: those
    that pass, and the first that does not. -/
def entered (v : Valuation) (stop : Bool) : List Sentence → List Sentence
  | [] => []
  | a :: rest => a :: if Passes v stop a then entered v stop rest else []

theorem entered_of_passes {stop : Bool} {a : Sentence} (h : Passes v stop a)
    (rest : List Sentence) : entered v stop (a :: rest) = a :: entered v stop rest := by
  rw [entered, if_pos h]

theorem entered_of_not_passes {stop : Bool} {a : Sentence} (h : ¬ Passes v stop a)
    (rest : List Sentence) : entered v stop (a :: rest) = [a] := by
  rw [entered, if_neg h]

theorem entered_subset (v : Valuation) (stop : Bool) (args : List Sentence) :
    entered v stop args ⊆ args := by
  induction args with
  | nil => exact List.Subset.refl []
  | cons a rest ih =>
    by_cases ha : Passes v stop a
    · rw [entered_of_passes ha]
      exact List.cons_subset_cons a ih
    · rw [entered_of_not_passes ha]
      simp

/-- Behind arguments that all pass, those of the rest are entered that reading
    the rest enters. -/
theorem flatMap_enters_behind {op : Connective} {stop : Bool} (hop : op.stop? = some stop)
    {β : Type} (g : Sentence → List β) (pre rest : List Sentence)
    (hpre : ∀ a ∈ pre, Passes v stop a) :
    ((rest.zipIdx pre.length).flatMap fun arg =>
      if Enters v (.compound op (pre ++ rest)) arg.2 then g arg.1 else []) =
      (entered v stop rest).flatMap g := by
  induction rest generalizing pre with
  | nil => rfl
  | cons a rest ih =>
    have henters : Enters v (.compound op (pre ++ a :: rest)) pre.length := by
      rw [enters_junction hop, List.take_left]
      exact ⟨by simp, hpre⟩
    rw [List.zipIdx_cons, List.flatMap_cons, if_pos henters]
    by_cases ha : Passes v stop a
    · have hpre' : ∀ b ∈ pre ++ [a], Passes v stop b := by
        simpa [or_imp, forall_and] using ⟨hpre, ha⟩
      have hrest := ih (pre ++ [a]) hpre'
      rw [List.append_assoc, List.singleton_append, List.length_append,
        List.length_singleton] at hrest
      rw [entered_of_passes ha, List.flatMap_cons, hrest]
    · -- no argument behind `a` is entered
      rw [entered_of_not_passes ha, List.flatMap_singleton, List.append_right_eq_self,
        List.flatMap_eq_nil_iff]
      intro arg harg
      have hlt : pre.length < arg.2 := List.le_snd_of_mem_zipIdx harg
      have hmem : a ∈ (pre ++ a :: rest).take arg.2 := by
        refine List.mem_of_getElem? (i := pre.length) ?_
        rw [getElem?_take_eq_some]
        exact ⟨hlt, by simp⟩
      exact if_neg fun henters => ha (((enters_junction hop).mp henters).2 a hmem)

/-- What is gathered from the arguments that a junction enters. -/
theorem flatMap_enters {op : Connective} {stop : Bool} (hop : op.stop? = some stop) {β : Type}
    (g : Sentence → List β) (args : List Sentence) :
    (args.zipIdx.flatMap fun arg =>
      if Enters v (.compound op args) arg.2 then g arg.1 else []) =
      (entered v stop args).flatMap g :=
  flatMap_enters_behind hop g [] args (by simp)

/-! ## Evaluation asks for them in turn -/

theorem asked_evalUntil (stop : Bool) (args : List Sentence) :
    (evalUntil v stop args).asked =
      (entered v stop args).flatMap fun a => (a.eval v).asked := by
  induction args with
  | nil => rw [evalUntil_nil]; rfl
  | cons a rest ih =>
    by_cases ha : Passes v stop a
    · rw [evalUntil_cons_of_passes ha, entered_of_passes ha, List.flatMap_cons, ih]
    · rw [evalUntil_cons_of_not_passes ha, entered_of_not_passes ha, List.flatMap_singleton]

/-- A junction asks what the arguments ask that it enters. -/
theorem asked_junction {op : Connective} {stop : Bool} (hop : op.stop? = some stop)
    {args : List Sentence} (h : ∀ a ∈ args, (a.eval v).asked = a.liveNames v) :
    (evalUntil v stop args).asked = (compound op args).liveNames v := by
  rw [liveNames_compound, flatMap_enters hop, asked_evalUntil]
  exact List.flatMap_congr fun a ha => h a (entered_subset v stop args ha)

/-- Evaluation asks at the live atoms, from left to right and once at each. -/
theorem asked_eval (v : Valuation) (s : Sentence) : (s.eval v).asked = s.liveNames v := by
  induction s with
  | atom name => rw [eval_atom, Run.asked_ask, liveNames_atom]
  | compound op args ih =>
    rcases op.neg_or_junction with rfl | ⟨stop, hop⟩
    · by_cases hl : args.length = 1
      · obtain ⟨arg, rfl⟩ := List.length_eq_one_iff.mp hl
        have henters : Enters v (.compound .neg [arg]) 0 := ⟨rfl, rfl⟩
        rw [eval_neg, Run.asked_bind_pure, ih arg (by simp), liveNames_compound]
        simp [henters]
      · have henters (i : Nat) : ¬ Enters v (.compound .neg args) i := fun h => hl h.1
        rw [eval_neg_of_length hl, liveNames_compound]
        simp [henters, Run.fail]
    · rw [eval_junction hop]
      exact asked_junction hop ih

end Sentence

open Sentence in
/-- By either method, a sentence is asked for the names at its live atoms, from
    left to right and once at each. They are some of the names at all its atoms
    in this order, hence names of the sentence. All but the last are assigned,
    and evaluation fails with a name exactly when it asks for this name last and
    the name is not assigned. -/
theorem asks_at_live_atoms (m : Method) (v : Valuation) (s : Sentence) :
    (∃ ps, InOrder (fun p => Live v s p ∧ ∃ name, s.at? p = some (.atom name)) ps ∧
      (m.run v s).asked.map some = ps.map s.nameAt) ∧
    (∃ ps, InOrder (fun p => ∃ name, s.at? p = some (.atom name)) ps ∧
      ((m.run v s).asked.map some).Sublist (ps.map s.nameAt)) ∧
    (∀ name ∈ (m.run v s).asked, name ∈ s.atoms) ∧
    (∀ name ∈ (m.run v s).asked.dropLast, ∃ b, v name = some b) ∧
    ∀ x, (m.run v s).outcome = .error (.unassigned x) ↔
      (m.run v s).asked.getLast? = some x ∧ v x = none := by
  have hanswer : AsksOnAnswer v (s.eval v) := eval_asksOnAnswer v s
  have hasked : (s.eval v).asked.map some =
      ((s.positions.filter fun p => decide (Live v s p)).filter fun p =>
        (s.nameAt p).isSome).map s.nameAt := by
    rw [asked_eval, liveNames, List.map_filterMap_some_eq_filter_map_isSome, List.filter_map]
    rfl
  rw [m.run_eq_eval]
  refine ⟨⟨_, ?_, hasked⟩, ⟨s.positions.filter fun p => (s.nameAt p).isSome, ?_, ?_⟩, ?_,
    hanswer.answered, hanswer.stops⟩
  · apply (s.inOrder_positions.filter (fun p => decide (Live v s p)) fun p => Iff.rfl).filter
    intro p
    rw [nameAt_isSome, decide_eq_true_iff]
    refine ⟨?_, ?_⟩
    · intro ⟨hlive, name, hname⟩
      exact ⟨⟨⟨_, hname⟩, hlive⟩, name, hname⟩
    · intro ⟨⟨_, hlive⟩, hname⟩
      exact ⟨hlive, hname⟩
  · apply s.inOrder_positions.filter
    intro p
    rw [nameAt_isSome]
    exact ⟨fun ⟨name, hname⟩ => ⟨⟨_, hname⟩, name, hname⟩, fun h => h.2⟩
  · rw [hasked]
    exact (List.filter_sublist.filter _).map _
  · intro name hname
    exact mem_atoms.mpr (occurs_of_asked hname)

open Sentence in
/-- Both names are asked for twice, at different positions. The negation settles
    the disjunction, so `x` is skipped, and evaluation stops at `y`. -/
theorem asks_at_live_atoms_up_to_an_unassigned_one :
    let s : Sentence := .conj [.atom "a",
      .disj [.atom "b", ~~~((.atom "a" : Sentence) &&& .atom "b"), .atom "x"], .atom "y", .atom "a"]
    (Method.byStack.run .aNotB s).asked = ["a", "b", "a", "b", "y"] ∧
    (∃ ps, InOrder (fun p => Live .aNotB s p ∧ ∃ name, s.at? p = some (.atom name)) ps ∧
      [some "a", some "b", some "a", some "b", some "y"] = ps.map s.nameAt) ∧
    ("y" ∈ (Method.byStack.run .aNotB s).asked ∧ "y" ∈ s.atoms) ∧
    ("b" ∈ (Method.byStack.run .aNotB s).asked.dropLast ∧ ∃ b, Valuation.aNotB "b" = some b) ∧
    (Method.byStack.run .aNotB s).outcome = .error (.unassigned "y") := by
  intro s
  have hasked : (Method.byStack.run .aNotB s).asked = ["a", "b", "a", "b", "y"] := by
    rw [Method.run_eq_eval]
    decide
  obtain ⟨hlive, -, hatoms, hanswered, hstops⟩ := asks_at_live_atoms .byStack .aNotB s
  rw [hasked] at hlive hatoms hanswered hstops ⊢
  exact ⟨rfl, hlive, ⟨by decide, hatoms "y" (by decide)⟩,
    ⟨by decide, hanswered "b" (by decide)⟩, (hstops "y").mpr ⟨rfl, rfl⟩⟩

end Sentential
