import Mathlib.Data.List.Forall2

/-!
# Lists paired one by one

Atoms are paired with the places of facts, components with their strata, edges with the
dependencies they stand for. These are the steps between such a pairing and its members.
-/

namespace Datalog

variable {α β : Type} {relation : α → β → Prop} {left : List α} {right : List β}

/-- What is related to the elements of a list one by one is related to each of them. -/
theorem exists_mem_of_forall₂ (related : List.Forall₂ relation left right) {first : α}
    (member : first ∈ left) : ∃ second ∈ right, relation first second := by
  induction related with
  | nil => simp at member
  | cons head _ inductionHypothesis =>
      rcases List.mem_cons.1 member with rfl | inRest
      · exact ⟨_, List.mem_cons_self, head⟩
      · obtain ⟨second, inRight, holds⟩ := inductionHypothesis inRest
        exact ⟨second, List.mem_cons_of_mem _ inRight, holds⟩

/-- Of paired lists one has an element with some property if the other has one with a property
that comes to the same for partners. -/
theorem exists_mem_iff_of_forall₂ (related : List.Forall₂ relation left right) {ofLeft : α → Prop}
    {ofRight : β → Prop} (same : ∀ ⦃first second⦄, relation first second →
      (ofLeft first ↔ ofRight second)) :
    (∃ first ∈ left, ofLeft first) ↔ ∃ second ∈ right, ofRight second := by
  induction related with
  | nil => simp
  | cons head _ inductionHypothesis =>
      rw [List.exists_mem_cons_iff, List.exists_mem_cons_iff, same head, inductionHypothesis]

/-- Elements that all have partners can be paired with a list of them. -/
theorem exists_forall₂ (partners : ∀ first ∈ left, ∃ second, relation first second) :
    ∃ right, List.Forall₂ relation left right := by
  induction left with
  | nil => exact ⟨[], .nil⟩
  | cons first left inductionHypothesis =>
      obtain ⟨⟨second, related⟩, others⟩ := List.forall_mem_cons.1 partners
      obtain ⟨right, paired⟩ := inductionHypothesis others
      exact ⟨second :: right, .cons related paired⟩

/-- Elements that are all images of things with some property are the images of a list of
them. -/
theorem exists_map_eq {image : β → α} {holds : β → Prop}
    (each : ∀ first ∈ left, ∃ second, image second = first ∧ holds second) :
    ∃ right : List β, right.map image = left ∧ ∀ second ∈ right, holds second := by
  induction left with
  | nil => exact ⟨[], rfl, fun _ member => by cases member⟩
  | cons first left inductionHypothesis =>
      obtain ⟨⟨second, isImage, isSecond⟩, others⟩ := List.forall_mem_cons.1 each
      obtain ⟨right, areImages, areOthers⟩ := inductionHypothesis others
      exact ⟨second :: right, List.cons_eq_cons.2 ⟨isImage, areImages⟩,
        List.forall_mem_cons.2 ⟨isSecond, areOthers⟩⟩

/-- Lists that are related to one list have the same images if related elements do. -/
theorem map_eq_map_of_forall₂ {γ : Type} {image : β → γ} {sources : List α} {others : List β}
    (same : ∀ ⦃source first second⦄, relation source first → relation source second →
      image first = image second)
    (areFirst : List.Forall₂ relation sources right)
    (areSecond : List.Forall₂ relation sources others) :
    right.map image = others.map image := by
  induction areFirst generalizing others with
  | nil =>
      cases areSecond
      rfl
  | cons isFirst _ inductionHypothesis =>
      cases areSecond with
      | cons isSecond rest =>
          rw [List.map_cons, List.map_cons, same isFirst isSecond, inductionHypothesis rest]

/-- Lists are paired if they have one length and are related at every place. -/
theorem forall₂_iff_getElem? :
    List.Forall₂ relation left right ↔ left.length = right.length ∧
      ∀ (place : Nat) first second, left[place]? = some first → right[place]? = some second →
        relation first second := by
  rw [List.forall₂_iff_get]
  refine and_congr_right fun sameLength => ⟨fun related => ?_, fun related => ?_⟩
  · intro place first second atLeft atRight
    obtain ⟨inLeft, rfl⟩ := List.getElem?_eq_some_iff.1 atLeft
    obtain ⟨inRight, rfl⟩ := List.getElem?_eq_some_iff.1 atRight
    exact related place inLeft inRight
  · intro place inLeft inRight
    exact related place _ _ (List.getElem?_eq_getElem inLeft) (List.getElem?_eq_getElem inRight)

/-- Lists stay paired when an element is replaced, perhaps by another relation. -/
theorem forall₂_set {later : α → β → Prop} (related : List.Forall₂ relation left right)
    {place : Nat} {old new : α} (atPlace : left[place]? = some old)
    (here : ∀ second ∈ right, relation old second → later new second)
    (elsewhere : ∀ first ∈ left, ∀ second, relation first second → later first second) :
    List.Forall₂ later (left.set place new) right := by
  obtain ⟨sameLength, related⟩ := forall₂_iff_getElem?.1 related
  refine forall₂_iff_getElem?.2 ⟨by rw [List.length_set, sameLength], ?_⟩
  intro index first second atLeft atRight
  rw [List.getElem?_set] at atLeft
  split at atLeft
  next same =>
    subst same
    split at atLeft
    next =>
      obtain rfl := Option.some.inj atLeft
      exact here second (List.mem_of_getElem? atRight) (related place old second atPlace atRight)
    next => cases atLeft
  next =>
    exact elsewhere first (List.mem_of_getElem? atLeft) second
      (related index first second atLeft atRight)

/-- What a list has is still there when an element is replaced, unless it is this element. -/
theorem mem_set_or_getElem? {first : α} (member : first ∈ left) (place : Nat) (new : α) :
    first ∈ left.set place new ∨ left[place]? = some first := by
  obtain ⟨index, atIndex⟩ := List.mem_iff_getElem?.1 member
  by_cases same : place = index
  · exact .inr (same ▸ atIndex)
  · refine .inl (List.mem_iff_getElem?.2 ⟨index, ?_⟩)
    rw [List.getElem?_set_ne same, atIndex]

/-- The elements that a partial function keeps match those for which it is defined. -/
theorem forall₂_filterMap (function : α → Option β) (list : List α) :
    List.Forall₂ (fun source target => source ∈ list ∧ function source = some target)
      (list.filter fun source => (function source).isSome) (list.filterMap function) := by
  induction list with
  | nil => exact .nil
  | cons first rest inductionHypothesis =>
      have inRest := inductionHypothesis.imp fun source target kept =>
        And.imp_left (List.mem_cons_of_mem first) kept
      cases isSome : function first with
      | none => simpa [isSome] using inRest
      | some target => simpa [isSome] using inRest

/-- Results of a partial function throughout a list are paired with the elements. -/
theorem mapM_eq_some_iff {function : α → Option β} :
    left.mapM function = some right ↔
      List.Forall₂ (fun element result => function element = some result) left right := by
  induction left generalizing right with
  | nil => cases right <;> simp
  | cons element elements inductionHypothesis =>
      cases right with
      | nil => simp [Option.bind_eq_some_iff]
      | cons result results => simp [Option.bind_eq_some_iff, inductionHypothesis]

/-- A partial function fails throughout a list if it fails somewhere in it. -/
theorem mapM_eq_none_iff {function : α → Option β} :
    left.mapM function = none ↔ ∃ element ∈ left, function element = none := by
  induction left with
  | nil => simp
  | cons element elements inductionHypothesis =>
      rw [List.exists_mem_cons_iff, ← inductionHypothesis, List.mapM_cons]
      cases function element with
      | none => simp
      | some result => cases elements.mapM function <;> simp

end Datalog
