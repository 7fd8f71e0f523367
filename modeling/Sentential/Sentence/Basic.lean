/- Sentences of propositional logic as finite trees. A sentence is an atom, or
   a connective over an ordered list of sentences. Every connective takes any
   number of arguments, so `neg` over none or over two arguments is a sentence
   like any other: whether it has a value is a question for evaluation, and
   how it looks on paper is one for the outline. Nothing here simplifies,
   flattens or reorders: two sentences are the same when they are the same
   tree. -/
namespace Sentential

/-- The three connectives. -/
inductive Connective where
  | neg
  | conj
  | disj
  deriving DecidableEq, Repr, Hashable

/-- What stands at the root of a sentence. -/
inductive Kind where
  | atom
  | neg
  | conj
  | disj
  deriving DecidableEq, Repr, Hashable

/-- The kind of a sentence whose root is this connective. -/
def Connective.kind : Connective → Kind
  | .neg => .neg
  | .conj => .conj
  | .disj => .disj

theorem Connective.kind_ne_atom (op : Connective) : op.kind ≠ .atom := by
  cases op <;> decide

theorem Connective.eq_of_kind {op op' : Connective} (h : op.kind = op'.kind) : op = op' := by
  cases op <;> cases op' <;> simp [kind] at h ⊢

/-- The kind as messages show it. -/
def Kind.label : Kind → String
  | .atom => "ATOM"
  | .neg => "NOT"
  | .conj => "AND"
  | .disj => "OR"

/-- The kind as constructor terms spell it. -/
def Kind.name : Kind → String
  | .atom => "Atom"
  | .neg => "Not"
  | .conj => "And"
  | .disj => "Or"

instance : ToString Kind := ⟨Kind.label⟩

/-- A sentence: an atom, or a connective over the list of its arguments. -/
inductive Sentence where
  | atom (name : String)
  | compound (op : Connective) (args : List Sentence)
  deriving Repr, Inhabited

namespace Sentence

/-! ## Building sentences -/

/-- Negation of one sentence. -/
def neg (s : Sentence) : Sentence := .compound .neg [s]

/-- Negation over any list; it has a value only when the list has one member. -/
def negAll (args : List Sentence) : Sentence := .compound .neg args

/-- Conjunction of a list. -/
def conj (args : List Sentence) : Sentence := .compound .conj args

/-- Disjunction of a list. -/
def disj (args : List Sentence) : Sentence := .compound .disj args

instance : Coe String Sentence := ⟨.atom⟩

/-- `~~~s` is the negation of `s`. -/
instance : Complement Sentence := ⟨neg⟩

/-- `s &&& t` is the conjunction of the two, in this order. -/
instance : AndOp Sentence := ⟨fun s t => conj [s, t]⟩

/-- `s ||| t` is the disjunction of the two, in this order. -/
instance : OrOp Sentence := ⟨fun s t => disj [s, t]⟩

theorem complement_eq (s : Sentence) : ~~~s = .compound .neg [s] := rfl

theorem and_eq (s t : Sentence) : s &&& t = .compound .conj [s, t] := rfl

theorem or_eq (s t : Sentence) : s ||| t = .compound .disj [s, t] := rfl

/-! ## Looking at the root -/

/-- What stands at the root. -/
def kind : Sentence → Kind
  | .atom _ => .atom
  | .compound op _ => op.kind

/-- The arguments, in order; an atom has none. -/
def children : Sentence → List Sentence
  | .atom _ => []
  | .compound _ args => args

/-- The argument at an index counted from zero, if there is one. -/
def child? (s : Sentence) (index : Nat) : Option Sentence := s.children[index]?

/-- The first argument, if there is one. -/
def left? (s : Sentence) : Option Sentence := s.child? 0

/-- The second argument, if there is one. -/
def right? (s : Sentence) : Option Sentence := s.child? 1

/-- The name, if the sentence is an atom. -/
def name? : Sentence → Option String
  | .atom name => some name
  | .compound _ _ => none

end Sentence

end Sentential
