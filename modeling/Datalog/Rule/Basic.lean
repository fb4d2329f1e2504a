import Datalog.Collection.Members
import Datalog.Rule.Atom
import Datalog.Value.Comparison
import Datalog.Value.Equality

/-!
# Facts and rules

A rule derives its head for every match of its positive atoms that no negated atom and no
constraint refuses. The three parts of its body are collections without an order: two rules
are equal when each part of the one is a rearrangement of that of the other, up to the
representation of terms.
-/

namespace Datalog

/-- A relation applied to values. Field names are not part of a fact; the shape of its
relation supplies them. -/
structure Fact where
  relation : String
  values : List Value
  deriving DecidableEq, Inhabited

namespace Fact

/-- The fact of a named relation, with its values in the order of their fields. -/
def ofRecord (relation : String) (fields : Record Value) : Fact :=
  ⟨relation, fields.values⟩

instance : Canonical Fact where
  canonical fact := ⟨fact.relation, fact.values.map canonical⟩

instance : HashFeed Fact where
  feed fact := .text fact.relation :: HashFeed.feedList fact.values
  feed_canonical fact :=
    congrArg (.text fact.relation :: ·) (HashFeed.feedList_map_canonical fact.values)

/-- The order of facts: by relation, then lexicographically by values. -/
def cmp : Fact → Fact → Ordering :=
  compareLex (compareOn Fact.relation)
    fun left right => List.compareLex Value.cmp left.values right.values

instance : Std.TransCmp fun left right : Fact =>
    List.compareLex Value.cmp left.values right.values where
  eq_swap := Std.OrientedCmp.eq_swap
  isLE_trans := Std.TransCmp.isLE_trans

instance : Std.TransCmp cmp :=
  inferInstanceAs (Std.TransCmp (compareLex _ _))

/-- Facts in ascending order; equal ones keep the order in which they were given. -/
def sort (facts : List Fact) : List Fact :=
  facts.mergeSort fun left right => (cmp left right).isLE

/-- Facts are equal exactly when their order does not tell them apart. -/
theorem beq_iff_cmp_eq {left right : Fact} :
    (left == right) = true ↔ left.cmp right = .eq := by
  rw [Canonical.beq_iff]
  obtain ⟨leftRelation, leftValues⟩ := left
  obtain ⟨rightRelation, rightValues⟩ := right
  simp [canonical, cmp, compareLex, compareOn, Ordering.then_eq_eq, compareLex_cmp_eq_iff]

end Fact

/-- A comparison between a variable and a term. -/
structure Constraint where
  left : String
  operator : Comparison
  right : Term
  deriving DecidableEq, Inhabited

instance : Canonical Constraint where
  canonical constraint := { constraint with right := canonical constraint.right }

instance : HashFeed Constraint where
  feed constraint :=
    .text constraint.left :: .variant constraint.operator.place :: feed constraint.right
  feed_canonical constraint :=
    congrArg (.text constraint.left :: .variant constraint.operator.place :: ·)
      (HashFeed.feed_canonical constraint.right)

/-- The variables of a constraint, the left operand first. -/
def Constraint.variables (constraint : Constraint) : List String :=
  constraint.left :: constraint.right.var?.toList

/-- A head and the three parts of a body. -/
structure Rule where
  head : HeadAtom
  positive : List Atom
  negative : List Atom
  constraints : List Constraint
  deriving DecidableEq

namespace Rule

/-- Rules are equal up to the order within the three parts of their bodies. The relations of
the heads settle most comparisons and go first. -/
instance : BEq Rule where
  beq left right :=
    left.head.relation == right.head.relation && left.head == right.head &&
      sameMembers left.positive right.positive && sameMembers left.negative right.negative &&
      sameMembers left.constraints right.constraints

/-- What a rule feeds to a hasher: its head and the three parts of its body, each sorted by a
key. -/
def feedBy (key : Feed → UInt64) (rule : Rule) : Feed :=
  feed rule.head ++ feedMembers key feed rule.positive ++ feedMembers key feed rule.negative ++
    feedMembers key feed rule.constraints

instance : Hashable Rule where
  hash rule := (rule.feedBy Feed.digest).digest

/-- The atoms of a rule in the order head, positive atoms, negated atoms, by relation and
shape. -/
def usages (rule : Rule) : List (String × Shape) :=
  (rule.head.relation, rule.head.shape) ::
    (rule.positive ++ rule.negative).map fun atom => (atom.relation, atom.shape)

end Rule

end Datalog
