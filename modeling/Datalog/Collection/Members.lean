import Datalog.Value.Canonical

/-!
# Lists without an order

The parts of a rule body and the contents of a rule set are lists whose order does not count
but whose repetitions do. Two of them have the same members if the elements of the one can
cross off those of the other; `sameMembers_iff_perm_map` says that this finds every
rearrangement, for an equality that compares images. For hashing, the elements are first
sorted by a key that each of them determines.
-/

namespace Datalog

variable {α β : Type}

/-- A list without the element at a place, which the last element takes. -/
def swapRemove (elements : List α) (place : Nat) : List α :=
  match elements.getLast? with
  | some last => (elements.set place last).dropLast
  | none => []

/-- Whether each element in turn finds an equal one among those not yet crossed off. -/
def crossOff [BEq α] : List α → List α → Bool
  | [], _ => true
  | first :: rest, unmatched =>
      match unmatched.findIdx? (first == ·) with
      | some place => crossOff rest (swapRemove unmatched place)
      | none => false

/-- Whether two lists have the same members, equally often. -/
def sameMembers [BEq α] (left right : List α) : Bool :=
  left.length == right.length && crossOff left right

/-- The items that a list without an order feeds to a hasher: its size and the items of its
members, which are sorted by a key for these items. -/
def feedMembers (key : Feed → UInt64) (feedOf : α → Feed) (members : List α) : Feed :=
  let sorted := members.mergeSort fun first second => key (feedOf first) ≤ key (feedOf second)
  .size members.length :: sorted.flatMap feedOf

/-- Removing an element from a list leaves the others, in some order. -/
theorem perm_swapRemove {elements : List α} {place : Nat} {element : α}
    (atPlace : elements[place]? = some element) :
    elements.Perm (element :: swapRemove elements place) := by
  obtain ⟨inBounds, rfl⟩ := List.getElem?_eq_some_iff.1 atPlace
  obtain ⟨before, after, split, isPlace, _⟩ :=
    @List.exists_of_set _ _ elements[place] _ inBounds
  generalize elements[place] = element at split
  subst split isPlace
  obtain rfl | ⟨middle, last, rfl⟩ := after.eq_nil_or_concat
  · have removed : swapRemove (before ++ [element]) before.length = before := by
      simp [swapRemove]
    rw [removed]
    exact List.perm_append_singleton element before
  · have removed : swapRemove (before ++ element :: middle.concat last) before.length =
        before ++ last :: middle := by
      have withoutLast : (last :: (middle ++ [last])).dropLast = last :: middle := by
        rw [← List.cons_append, List.dropLast_concat]
      simp [swapRemove, List.getLast?_cons, withoutLast]
    rw [removed, List.concat_eq_append]
    refine List.perm_middle.trans (.cons element (.append_left before ?_))
    exact List.perm_append_singleton last middle

section Rearrangement

variable [BEq α] {image : α → β}
  (beq_iff : ∀ first second : α, (first == second) = true ↔ image first = image second)
include beq_iff

/-- Elements can be crossed off if their images are among those of the other list. -/
theorem crossOff_iff {left right : List α} :
    crossOff left right = true ↔
      ∃ others, (left.map image ++ others).Perm (right.map image) := by
  induction left generalizing right with
  | nil => exact iff_of_true rfl ⟨_, .refl _⟩
  | cons first left inductionHypothesis =>
      rw [crossOff]
      split
      next place isPlace =>
        obtain ⟨inBounds, equal, _⟩ := List.findIdx?_eq_some_iff_getElem.1 isPlace
        have perm := (perm_swapRemove (List.getElem?_eq_getElem inBounds)).map image
        rw [List.map_cons, ← (beq_iff _ _).1 equal] at perm
        rw [inductionHypothesis]
        refine exists_congr fun others => ?_
        rw [List.map_cons, List.cons_append]
        exact ⟨fun rest => (rest.cons _).trans perm.symm, fun all => (all.trans perm).cons_inv⟩
      next absent =>
        refine iff_of_false Bool.false_ne_true ?_
        rintro ⟨others, perm⟩
        obtain ⟨second, member, same⟩ := List.mem_map.1 (perm.subset List.mem_cons_self)
        have different := List.findIdx?_eq_none_iff.1 absent second member
        exact Bool.eq_false_iff.1 different ((beq_iff first second).2 same.symm)

/-- Lists have the same members if their images are rearrangements of each other. -/
theorem sameMembers_iff_perm_map {left right : List α} :
    sameMembers left right = true ↔ (left.map image).Perm (right.map image) := by
  rw [sameMembers, Bool.and_eq_true, beq_iff_eq, crossOff_iff beq_iff]
  constructor
  · rintro ⟨sameLength, others, perm⟩
    have lengths := perm.length_eq
    rw [List.length_append, List.length_map, List.length_map, sameLength] at lengths
    obtain rfl : others = [] := List.eq_nil_of_length_eq_zero (by omega)
    rwa [List.append_nil] at perm
  · intro perm
    have sameLength := perm.length_eq
    rw [List.length_map, List.length_map] at sameLength
    exact ⟨sameLength, [], by rwa [List.append_nil]⟩

end Rearrangement

/-- Lists have the same members when one is a permutation of the other up to representation. -/
theorem sameMembers_iff [DecidableEq α] [Canonical α] {left right : List α} :
    sameMembers left right = true ↔ (left.map canonical).Perm (right.map canonical) :=
  sameMembers_iff_perm_map fun _ _ => Canonical.beq_iff

end Datalog
