/-!
# Equality up to representation

Some types write one thing in several ways: `1` and `1.0`, or a wildcard under two names.
`Canonical` picks one representation of each thing. Its `==` compares the picked
representations, so it is an equivalence. The relation `=` still tells representations apart.

`HashFeed` says what a thing feeds to a hasher, item by item. That does not depend on the
representation either, so equal things hash alike whatever the hasher does with the items.
-/

namespace Datalog

/-- A choice of one representation. -/
class Canonical (α : Type) where
  canonical : α → α

export Canonical (canonical)

namespace Canonical

variable {α : Type} [DecidableEq α] [Canonical α]

instance : BEq α where
  beq left right := canonical left = canonical right

/-- Equality up to representation is equality of the canonical representations. -/
theorem beq_iff {left right : α} : (left == right) = true ↔ canonical left = canonical right :=
  decide_eq_true_iff

instance : EquivBEq α where
  rfl := beq_iff.2 rfl
  symm equal := beq_iff.2 (beq_iff.1 equal).symm
  trans first second := beq_iff.2 ((beq_iff.1 first).trans (beq_iff.1 second))

end Canonical

/-- One item for a hasher. A size is the number of the items or elements that follow, a
variant the place of an alternative among those of its type. -/
inductive HashItem where
  | byte (byte : UInt8)
  | integer (integer : Int64)
  | word (word : UInt64)
  | text (text : String)
  | size (size : Nat)
  | variant (place : Nat)
  deriving DecidableEq, Hashable

/-- The items that a hasher gets, one after the other. -/
abbrev Feed := List HashItem

/-- The hash of the items. -/
def Feed.digest (items : Feed) : UInt64 :=
  items.foldl (fun sum item => mixHash sum (hash item)) 7

/-- What a thing feeds to a hasher, which depends on the canonical representation only. -/
class HashFeed (α : Type) [Canonical α] where
  feed : α → Feed
  feed_canonical : ∀ element, feed (canonical element) = feed element

export HashFeed (feed)

namespace HashFeed

variable {α : Type} [Canonical α] [HashFeed α]

instance : Hashable α where
  hash element := (feed element).digest

/-- Equal things feed a hasher alike. -/
theorem feed_congr [DecidableEq α] {left right : α} (equal : (left == right) = true) :
    feed left = feed right := by
  rw [← feed_canonical left, Canonical.beq_iff.1 equal, feed_canonical]

/-- The items of a list: its length and those of its elements. -/
def feedList (elements : List α) : Feed :=
  .size elements.length :: elements.flatMap feed

/-- The items of a list do not depend on the representation of its elements. -/
theorem feedList_map_canonical (elements : List α) :
    feedList (elements.map canonical) = feedList elements := by
  simp only [feedList, List.length_map, List.flatMap_map, feed_canonical]

end HashFeed

end Datalog
