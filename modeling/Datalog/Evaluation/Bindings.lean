import Datalog.Rule.Basic

/-!
# Bindings and matching

Bindings give values to variables in the order in which matching found them. Matching an
atom against a fact goes through the positions from left to right: a constant and a variable
that already has a value must agree with the value of the fact, a new variable takes it, a
wildcard ignores it. Values agree when they are equal by value, and a variable keeps the
representation that it met first.
-/

namespace Datalog

/-- Values of variables in the order in which they were found. -/
structure Bindings where
  pairs : List (String × Value)
  deriving DecidableEq, Inhabited

namespace Bindings

/-- No bindings. -/
def empty : Bindings := ⟨[]⟩

instance : EmptyCollection Bindings := ⟨empty⟩

/-- The value of a variable, if it has one. -/
def get? (bindings : Bindings) (name : String) : Option Value :=
  bindings.pairs.lookup name

/-- Give a value to one more variable. -/
def bind (bindings : Bindings) (name : String) (value : Value) : Bindings :=
  ⟨bindings.pairs ++ [(name, value)]⟩

/-- How many variables have values. -/
def size (bindings : Bindings) : Nat :=
  bindings.pairs.length

/-- A further binding answers only for its own variable, and only if that had no value. -/
theorem get?_bind (bindings : Bindings) (name other : String) (value : Value) :
    (bindings.bind name value).get? other =
      (bindings.get? other <|> if other = name then some value else none) := by
  simp only [get?, bind, List.lookup_append, List.lookup_cons, List.lookup_nil]
  by_cases same : other = name
  · simp [same]
  · simp [same, beq_eq_false_iff_ne.2 same]

end Bindings

/-- Match a term against a value; the bindings after a match, if there is one. -/
def Term.unify (value : Value) (bindings : Bindings) : Term → Option Bindings
  | wildcard _ => some bindings
  | constant expected => if expected == value then some bindings else none
  | var name =>
      match bindings.get? name with
      | some bound => if bound == value then some bindings else none
      | none => some (bindings.bind name value)

/-- Match terms against as many values, from left to right. -/
def unifyTerms : List Term → List Value → Bindings → Option Bindings
  | [], [], bindings => some bindings
  | term :: terms, value :: values, bindings =>
      match term.unify value bindings with
      | some extended => unifyTerms terms values extended
      | none => none
  | _, _, _ => none

/-- Match an atom against a fact of the same relation and arity. -/
def Atom.unify (atom : Atom) (fact : Fact) (bindings : Bindings) : Option Bindings :=
  if fact.relation = atom.relation then unifyTerms atom.terms fact.values bindings else none

/-- The value of a term under bindings; wildcards and unbound variables have none. -/
def Term.resolve? (bindings : Bindings) : Term → Option Value
  | constant value => some value
  | var name => bindings.get? name
  | wildcard _ => none

/-- The value of a head term under bindings. -/
def HeadTerm.resolve? (bindings : Bindings) : HeadTerm → Option Value
  | constant value => some value
  | var name => bindings.get? name

/-- The fact an atom denotes under bindings, if all its terms have values. -/
def Atom.ground? (atom : Atom) (bindings : Bindings) : Option Fact :=
  (atom.terms.mapM (Term.resolve? bindings)).map (⟨atom.relation, ·⟩)

/-- The fact a head denotes under bindings, if all its variables have values. -/
def HeadAtom.ground? (head : HeadAtom) (bindings : Bindings) : Option Fact :=
  (head.terms.mapM (HeadTerm.resolve? bindings)).map (⟨head.relation, ·⟩)

/-- Whether both operands of a constraint have values that its operator accepts. -/
def Constraint.holds (constraint : Constraint) (bindings : Bindings) : Bool :=
  match bindings.get? constraint.left, constraint.right.resolve? bindings with
  | some left, some right => constraint.operator.accepts (left.relate? right)
  | _, _ => false

end Datalog
