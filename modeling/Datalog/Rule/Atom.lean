import Datalog.Collection.Record
import Datalog.Rule.Term

/-!
# Atoms

An atom applies a relation to arguments, which are given by position or by field name.
Either way they have positions: named arguments stand in ascending order of their fields,
and so do the values of the facts of that relation. The shape of an atom is what remains
when its terms are forgotten.
-/

namespace Datalog

/-- The way a relation addresses its arguments. -/
inductive Shape where
  | ordered (arity : Nat)
  | named (fields : List String)
  deriving DecidableEq, Inhabited

/-- How many arguments a shape has. -/
def Shape.arity : Shape → Nat
  | ordered arity => arity
  | named fields => fields.length

/-- What a shape feeds to a hasher. -/
def Shape.feed : Shape → Feed
  | ordered arity => [.variant 0, .size arity]
  | named fields => .variant 1 :: .size fields.length :: fields.map .text

/-- Arguments by position or by field name. -/
inductive Args (τ : Type) where
  | ordered (terms : List τ)
  | named (fields : Record τ)
  deriving DecidableEq

namespace Args

variable {τ σ : Type}

/-- The arguments in order of position. -/
def terms : Args τ → List τ
  | ordered terms => terms
  | named fields => fields.values

/-- The shape of the arguments. -/
def shape : Args τ → Shape
  | ordered terms => .ordered terms.length
  | named fields => .named fields.fields

/-- The arguments with a function applied to each of them. -/
def map (function : τ → σ) : Args τ → Args σ
  | ordered terms => ordered (terms.map function)
  | named fields => named (fields.map function)

/-- What arguments feed to a hasher: their number, and each of them behind its field. -/
def feed [Canonical τ] [HashFeed τ] : Args τ → Feed
  | ordered terms => .variant 0 :: HashFeed.feedList terms
  | named fields => .variant 1 :: .size fields.entries.length ::
      fields.entries.flatMap fun entry => .text entry.1 :: HashFeed.feed entry.2

/-- What arguments feed does not depend on their representation. -/
theorem feed_map_canonical [Canonical τ] [HashFeed τ] (args : Args τ) :
    (args.map canonical).feed = args.feed := by
  cases args with
  | ordered terms => exact congrArg (.variant 0 :: ·) (HashFeed.feedList_map_canonical terms)
  | named fields =>
      simp only [map, feed, Record.map, List.length_map, List.flatMap_map, HashFeed.feed_canonical]

/-- A shape has one place for each argument. -/
theorem arity_shape (args : Args τ) : args.shape.arity = args.terms.length := by
  cases args <;> simp [shape, terms, Shape.arity, Record.fields, Record.values]

/-- Mapping the arguments keeps their shape. -/
@[simp] theorem shape_map (function : τ → σ) (args : Args τ) :
    (args.map function).shape = args.shape := by
  cases args <;> simp [map, shape]

/-- The terms of mapped arguments are the mapped terms. -/
@[simp] theorem terms_map (function : τ → σ) (args : Args τ) :
    (args.map function).terms = args.terms.map function := by
  cases args <;> simp [map, terms]

end Args

/-- A relation applied to arguments. -/
structure AtomOf (τ : Type) where
  relation : String
  args : Args τ
  deriving DecidableEq

/-- An atom of a rule body. -/
abbrev Atom := AtomOf Term

/-- The atom that a rule derives. -/
abbrev HeadAtom := AtomOf HeadTerm

namespace AtomOf

variable {τ : Type}

/-- The arguments in order of position. -/
def terms (atom : AtomOf τ) : List τ :=
  atom.args.terms

/-- How many arguments the atom has. -/
def arity (atom : AtomOf τ) : Nat :=
  atom.terms.length

/-- The shape in which the atom uses its relation. -/
def shape (atom : AtomOf τ) : Shape :=
  atom.args.shape

/-- Atoms are equal up to the representation of their terms. -/
instance [Canonical τ] : Canonical (AtomOf τ) where
  canonical atom := ⟨atom.relation, atom.args.map canonical⟩

instance [Canonical τ] [HashFeed τ] : HashFeed (AtomOf τ) where
  feed atom := .text atom.relation :: atom.args.feed
  feed_canonical atom := congrArg (.text atom.relation :: ·) atom.args.feed_map_canonical

end AtomOf

/-- The variables of an atom, once for each occurrence. -/
def Atom.variables (atom : Atom) : List String :=
  atom.terms.filterMap Term.var?

/-- The variables of a head, once for each occurrence. -/
def HeadAtom.variables (head : HeadAtom) : List String :=
  head.terms.filterMap HeadTerm.var?

end Datalog
