import Std.Data.TreeSet.Lemmas

/-!
# Sets that keep the order of insertion

An `OrderedSet` lists its elements in the order in which they were first inserted and finds
them through a search tree. Elements that `cmp` does not tell apart count as one, and the
first representation stays. Two invariants are part of the type: the tree answers exactly
for the listed elements, and no element is listed twice.
-/

namespace Datalog

/-- A set under an order, listed in order of first insertion. -/
structure OrderedSet (α : Type) (cmp : α → α → Ordering) where
  items : Array α
  index : Std.TreeSet α cmp
  index_contains : ∀ element,
    index.contains element = items.toList.any fun item => cmp item element == .eq
  distinct : items.toList.Pairwise fun earlier later => cmp earlier later ≠ .eq

namespace OrderedSet

variable {α : Type} {cmp : α → α → Ordering}

/-- The set without elements. -/
def empty : OrderedSet α cmp where
  items := #[]
  index := ∅
  index_contains _ := Std.TreeSet.contains_emptyc
  distinct := .nil

instance : EmptyCollection (OrderedSet α cmp) := ⟨empty⟩

instance : Inhabited (OrderedSet α cmp) := ⟨empty⟩

/-- Whether an element equal to this one was inserted. -/
def contains (set : OrderedSet α cmp) (element : α) : Bool :=
  set.index.contains element

/-- How many distinct elements there are. -/
def size (set : OrderedSet α cmp) : Nat :=
  set.items.size

/-- The elements in order of first insertion. -/
def toList (set : OrderedSet α cmp) : List α :=
  set.items.toList

/-- Append an element that is not present yet. -/
def push [Std.TransCmp cmp] (set : OrderedSet α cmp) (element : α)
    (isNew : set.contains element = false) : OrderedSet α cmp where
  items := set.items.push element
  index := set.index.insert element
  index_contains other := by
    rw [Std.TreeSet.contains_insert, set.index_contains, Array.toList_push, List.any_append,
      Bool.or_comm]
    simp
  distinct := by
    rw [contains, set.index_contains, List.any_eq_false] at isNew
    rw [Array.toList_push, List.pairwise_append]
    refine ⟨set.distinct, List.pairwise_singleton .., fun item member last isLast => ?_⟩
    rw [List.mem_singleton.1 isLast]
    simpa using isNew item member

/-- Insert an element and say whether it was new; an element already present keeps its place
and its representation. -/
def add [Std.TransCmp cmp] (set : OrderedSet α cmp) (element : α) : OrderedSet α cmp × Bool :=
  if isNew : set.contains element = false then (set.push element isNew, true) else (set, false)

/-- Insert an element. -/
def insert [Std.TransCmp cmp] (set : OrderedSet α cmp) (element : α) : OrderedSet α cmp :=
  (set.add element).1

/-- Insert elements one after the other. -/
def insertMany [Std.TransCmp cmp] (set : OrderedSet α cmp) (elements : List α) :
    OrderedSet α cmp :=
  elements.foldl insert set

/-- The set of the elements of a list, each at its first occurrence. -/
def ofList [Std.TransCmp cmp] (elements : List α) : OrderedSet α cmp :=
  empty.insertMany elements

/-- The texts of the elements between brackets. -/
def text (itemText : α → String) (set : OrderedSet α cmp) : String :=
  "[" ++ ", ".intercalate (set.toList.map itemText) ++ "]"

/-- Sets are equal when they list equal elements in the same order. -/
instance [BEq α] : BEq (OrderedSet α cmp) where
  beq left right := left.toList == right.toList

/-- An element is in the set exactly when it is equal to a listed one. -/
theorem contains_iff {set : OrderedSet α cmp} {element : α} :
    set.contains element = true ↔ ∃ item ∈ set.toList, cmp item element = .eq := by
  rw [contains, set.index_contains, List.any_eq_true]
  simp only [beq_iff_eq, toList]

/-- A new element is listed last, and one that is present changes nothing. -/
theorem toList_insert [Std.TransCmp cmp] (set : OrderedSet α cmp) (element : α) :
    (set.insert element).toList =
      if set.contains element then set.toList else set.toList ++ [element] := by
  by_cases present : set.contains element = true
  · simp [insert, add, present]
  · simp [insert, add, present, push, toList]

/-- An element that is present changes nothing. -/
theorem insert_of_contains [Std.TransCmp cmp] {set : OrderedSet α cmp} {element : α}
    (present : set.contains element = true) : set.insert element = set := by
  simp [insert, add, present]

/-- After an insertion the set contains the new element and what it contained before. -/
theorem contains_insert [Std.TransCmp cmp] (set : OrderedSet α cmp) (element other : α) :
    (set.insert element).contains other = (set.contains other || cmp element other == .eq) := by
  by_cases present : set.contains element = true
  · rw [insert_of_contains present]
    by_cases equal : cmp element other = .eq
    · have congruent : set.contains other = set.contains element :=
        (Std.TreeSet.contains_congr equal).symm
      simp [congruent, present]
    · simp [equal]
  · rw [Bool.or_comm]
    simp [insert, add, present, push]
    exact Std.TreeSet.contains_insert

end OrderedSet

end Datalog
