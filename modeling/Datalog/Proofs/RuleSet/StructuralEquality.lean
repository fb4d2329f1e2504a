import Datalog.Proofs.RuleSet.Rearrangement

/-!
# Structural equality

Rules and rule sets are multisets inside. Crossing off finds a rearrangement of two lists
whenever there is one, because the equality of their elements is an equivalence
(`sameMembers_iff_equalUpToOrder`); so `==` is an equivalence again. What equal rules or rule
sets feed to a hasher is the same provided that the key by which their lists are sorted tells
unequal members apart (`feedMembers_eq`). `structuralEquality` collects this.
-/

namespace Datalog

/-- One list can be put in an order in which it is equal to another place by place. -/
abbrev EqualUpToOrder {α : Type} [BEq α] (left right : List α) : Prop :=
  RearrangedBy (fun first second => (first == second) = true) left right

section Rearrangement

variable {α β : Type} {image : α → β} {left right : List α}

/-- Lists with rearranged images are rearrangements up to equality of images. -/
theorem perm_map_iff_rearrangedBy :
    (left.map image).Perm (right.map image) ↔
      RearrangedBy (fun first second => image first = image second) left right := by
  constructor
  · intro perm
    have areImages : List.Forall₂ (fun first result => image first = result) left
        (left.map image) :=
      List.forall₂_map_right_iff.2 (List.forall₂_same.2 fun _ _ => rfl)
    have composed : Relation.Comp (List.Forall₂ fun first result => image first = result)
        List.Perm left (right.map image) := ⟨_, areImages, perm⟩
    rw [List.forall₂_comp_perm_eq_perm_comp_forall₂] at composed
    obtain ⟨middle, permMiddle, areImages⟩ := composed
    exact ⟨middle, permMiddle, List.forall₂_map_right_iff.1 areImages⟩
  · rintro ⟨middle, perm, areRelated⟩
    have sameImages : middle.map image = right.map image := by
      rwa [← List.forall₂_eq_eq_eq, List.forall₂_map_left_iff, List.forall₂_map_right_iff]
    exact sameImages ▸ perm.map image

/-- Lists have the same members if they are rearrangements up to an equality that compares
images. -/
theorem sameMembers_iff_equalUpToOrder [BEq α]
    (beq_iff : ∀ first second : α, (first == second) = true ↔ image first = image second) :
    sameMembers left right = true ↔ EqualUpToOrder left right := by
  rw [sameMembers_iff_perm_map beq_iff, perm_map_iff_rearrangedBy]
  simp only [EqualUpToOrder, beq_iff]

end Rearrangement

section Hashing

variable {α : Type} [BEq α] {key : Feed → UInt64} {feedOf : α → Feed} {left right : List α}

/-- A key tells unequal members of a list apart by what they feed. -/
def Separates (key : Feed → UInt64) (feedOf : α → Feed) (members : List α) : Prop :=
  ∀ first ∈ members, ∀ second ∈ members,
    key (feedOf first) = key (feedOf second) → (first == second) = true

instance (members : List α) : Decidable (Separates key feedOf members) :=
  inferInstanceAs (Decidable (∀ first ∈ members, ∀ second ∈ members, _ → _))

/-- Rearranged feeds have one ascending order if the key tells them apart. -/
theorem mergeSort_key_eq {feeds others : List Feed} (perm : feeds.Perm others)
    (separates : ∀ first ∈ feeds, ∀ second ∈ feeds, key first = key second → first = second) :
    (feeds.mergeSort fun first second => key first ≤ key second) =
      others.mergeSort fun first second => key first ≤ key second := by
  have ascending (feeds : List Feed) : List.Pairwise (fun first second => key first ≤ key second)
      (feeds.mergeSort fun first second => key first ≤ key second) := by
    refine (List.pairwise_mergeSort ?_ ?_ feeds).imp of_decide_eq_true
    · intro first second third upward further
      exact decide_eq_true (UInt64.le_trans (of_decide_eq_true upward) (of_decide_eq_true further))
    · intro first second
      rw [Bool.or_eq_true, decide_eq_true_eq, decide_eq_true_eq]
      exact UInt64.le_total _ _
  have permSorted (feeds : List Feed) :=
    List.mergeSort_perm feeds fun first second => key first ≤ key second
  refine List.Perm.eq_of_pairwise (fun first second inFeeds inOthers upward downward => ?_)
    (ascending feeds) (ascending others)
    ((permSorted feeds).trans (perm.trans (permSorted others).symm))
  exact separates first ((permSorted feeds).subset inFeeds) second
    (perm.symm.subset ((permSorted others).subset inOthers))
    (UInt64.le_antisymm upward downward)

/-- Rearranged members feed the same if equal ones do and the key tells the others apart. -/
theorem feedMembers_eq
    (feed_congr : ∀ first ∈ left, ∀ second, (first == second) = true →
      feedOf first = feedOf second)
    (separates : Separates key feedOf left)
    (rearranged : EqualUpToOrder left right) :
    feedMembers key feedOf left = feedMembers key feedOf right := by
  obtain ⟨middle, perm, areEqual⟩ := rearranged
  have sameFeeds : middle.map feedOf = right.map feedOf := by
    rw [← List.forall₂_eq_eq_eq, List.forall₂_map_left_iff, List.forall₂_map_right_iff]
    refine ((List.forall₂_and_left middle right).2
      ⟨fun first inMiddle => perm.mem_iff.2 inMiddle, areEqual⟩).imp ?_
    rintro first second ⟨inLeft, equal⟩
    exact feed_congr first inLeft second equal
  have sameLength : left.length = right.length := perm.length_eq.trans areEqual.length_eq
  have sorted (members : List α) :
      (members.mergeSort fun first second => key (feedOf first) ≤ key (feedOf second)).map
          feedOf =
        (members.map feedOf).mergeSort fun first second => key first ≤ key second :=
    List.map_mergeSort fun _ _ _ _ => rfl
  rw [feedMembers, feedMembers, List.flatMap_def, List.flatMap_def, sorted, sorted, sameLength,
    ← sameFeeds, mergeSort_key_eq (perm.map feedOf)]
  simp only [List.mem_map]
  rintro _ ⟨first, inLeft, rfl⟩ _ ⟨second, alsoInLeft, rfl⟩ sameKey
  exact feed_congr first inLeft second (separates first inLeft second alsoInLeft sameKey)

end Hashing

namespace Rule

variable {key : Feed → UInt64} {left right : Rule}

/-- Rules are equal if their heads are and the parts of their bodies are rearrangements of
each other up to equality. -/
theorem beq_iff_equalUpToOrder :
    (left == right) = true ↔
      (left.head == right.head) = true ∧
        EqualUpToOrder left.positive right.positive ∧
        EqualUpToOrder left.negative right.negative ∧
        EqualUpToOrder left.constraints right.constraints := by
  simp only [beq_iff, essence, Prod.mk.injEq, Multiset.coe_eq_coe, ← Canonical.beq_iff,
    ← sameMembers_iff, sameMembers_iff_equalUpToOrder fun _ _ => Canonical.beq_iff]

/-- A key tells the members of each part of a body apart. -/
structure HashesApart (key : Feed → UInt64) (rule : Rule) : Prop where
  positive : Separates key feed rule.positive
  negative : Separates key feed rule.negative
  constraints : Separates key feed rule.constraints

/-- Equal rules feed the same if the key tells the parts of one of them apart. -/
theorem feedBy_congr (apart : left.HashesApart key) (equal : (left == right) = true) :
    left.feedBy key = right.feedBy key := by
  obtain ⟨sameHead, samePositive, sameNegative, sameConstraints⟩ := beq_iff_equalUpToOrder.1 equal
  rw [feedBy, feedBy, HashFeed.feed_congr sameHead,
    feedMembers_eq (fun _ _ _ => HashFeed.feed_congr) apart.positive samePositive,
    feedMembers_eq (fun _ _ _ => HashFeed.feed_congr) apart.negative sameNegative,
    feedMembers_eq (fun _ _ _ => HashFeed.feed_congr) apart.constraints sameConstraints]

end Rule

namespace RuleSet

variable {key : Feed → UInt64} {left right : RuleSet}

/-- Rule sets are equal if their facts and their rules are rearrangements of each other up to
equality and their relations have the same shapes. -/
theorem beq_iff_equalUpToOrder :
    (left == right) = true ↔
      EqualUpToOrder left.facts.toList right.facts.toList ∧
        EqualUpToOrder left.rules.toList right.rules.toList ∧
        ∀ relation, left.shapeOf? relation = right.shapeOf? relation := by
  rw [beq_iff, ← sameMembers_iff, sameMembers_iff_equalUpToOrder fun _ _ => Canonical.beq_iff,
    ← sameMembers_iff_perm_map fun _ _ => Rule.beq_iff,
    sameMembers_iff_equalUpToOrder fun _ _ => Rule.beq_iff]
  refine and_congr_right' (and_congr_right' ⟨fun sameShapes relation => ?_, fun sameShapes => ?_⟩)
  · exact (Std.TreeMap.equiv_iff_toList_eq.2 sameShapes).getElem?_eq
  · exact Std.TreeMap.equiv_iff_toList_eq.1 (.of_forall_constGet?_eq sameShapes)

/-- A key tells the facts and the rules of a rule set apart, and the members of each part of
its rules. -/
structure HashesApart (key : Feed → UInt64) (ruleSet : RuleSet) : Prop where
  facts : Separates key feed ruleSet.facts.toList
  rules : Separates key (Rule.feedBy key) ruleSet.rules.toList
  parts : ∀ rule ∈ ruleSet.rules.toList, rule.HashesApart key

/-- Equal rule sets feed the same if the key tells apart what one of them contains. -/
theorem feedBy_congr (apart : left.HashesApart key) (equal : (left == right) = true) :
    left.feedBy key = right.feedBy key := by
  obtain ⟨sameFacts, sameRules, _⟩ := beq_iff_equalUpToOrder.1 equal
  rw [feedBy, feedBy, (beq_iff.1 equal).2.2,
    feedMembers_eq (fun _ _ _ => HashFeed.feed_congr) apart.facts sameFacts,
    feedMembers_eq (fun rule inRules _ => Rule.feedBy_congr (apart.parts rule inRules))
      apart.rules sameRules]

end RuleSet

/-- Rules and rule sets are equal as multisets are, and hashed accordingly. -/
structure StructuralEquality : Prop where
  /-- Equal rules have equal heads and rearranged parts of their bodies. -/
  rule_iff (left right : Rule) :
    (left == right) = true ↔
      (left.head == right.head) = true ∧
        EqualUpToOrder left.positive right.positive ∧
        EqualUpToOrder left.negative right.negative ∧
        EqualUpToOrder left.constraints right.constraints
  /-- Equal rule sets have rearranged facts and rules and the same shapes. -/
  ruleSet_iff (left right : RuleSet) :
    (left == right) = true ↔
      EqualUpToOrder left.facts.toList right.facts.toList ∧
        EqualUpToOrder left.rules.toList right.rules.toList ∧
        ∀ relation, left.shapeOf? relation = right.shapeOf? relation
  /-- Equality of rules is an equivalence. -/
  rule_equivalence : Equivalence fun left right : Rule => (left == right) = true
  /-- Equality of rule sets is an equivalence. -/
  ruleSet_equivalence : Equivalence fun left right : RuleSet => (left == right) = true
  /-- Equal rules feed a hasher alike if the key does not collide on unequal members. -/
  rule_feed (key : Feed → UInt64) (left right : Rule) :
    left.HashesApart key → (left == right) = true → left.feedBy key = right.feedBy key
  /-- Equal rule sets feed a hasher alike if the key does not collide on unequal members. -/
  ruleSet_feed (key : Feed → UInt64) (left right : RuleSet) :
    left.HashesApart key → (left == right) = true → left.feedBy key = right.feedBy key

/-- Equality of rules and rule sets is that of multisets, and hashing respects it. -/
theorem structuralEquality : StructuralEquality where
  rule_iff _ _ := Rule.beq_iff_equalUpToOrder
  ruleSet_iff _ _ := RuleSet.beq_iff_equalUpToOrder
  rule_equivalence := ⟨fun _ => Rule.beq_iff.2 rfl, Rule.beq_symm,
    fun first second => Rule.beq_iff.2 ((Rule.beq_iff.1 first).trans (Rule.beq_iff.1 second))⟩
  ruleSet_equivalence := by
    refine ⟨fun ruleSet => RuleSet.beq_iff.2 ⟨.refl _, .refl _, rfl⟩, RuleSet.beq_symm, ?_⟩
    intro first second third equal alsoEqual
    obtain ⟨facts, rules, shapes⟩ := RuleSet.beq_iff.1 equal
    obtain ⟨otherFacts, otherRules, otherShapes⟩ := RuleSet.beq_iff.1 alsoEqual
    exact RuleSet.beq_iff.2
      ⟨facts.trans otherFacts, rules.trans otherRules, shapes.trans otherShapes⟩
  rule_feed _ _ _ := Rule.feedBy_congr
  ruleSet_feed _ _ _ := RuleSet.feedBy_congr

namespace Rule

/-- The rule `shown(X) :- likes(X, _who), person(X)`. -/
def shown : Rule where
  head := ⟨"shown", .ordered [.var "X"]⟩
  positive := [⟨"likes", .ordered [.var "X", .wildcard "_who"]⟩, ⟨"person", .ordered [.var "X"]⟩]
  negative := []
  constraints := []

/-- The same rule with its atoms in the other order and another name for the wildcard. -/
def shownSwapped : Rule :=
  { shown with
    positive := [⟨"person", .ordered [.var "X"]⟩, ⟨"likes", .ordered [.var "X", .wildcard "_"]⟩] }

/-- The two rules are equal and feed the same, sorted by the number of items. -/
theorem feedBy_shownSwapped :
    shown.HashesApart (fun items => items.length.toUInt64) ∧ (shown == shownSwapped) = true ∧
      shown.feedBy (fun items => items.length.toUInt64) =
        shownSwapped.feedBy fun items => items.length.toUInt64 := by
  have apart : shown.HashesApart fun items => items.length.toUInt64 :=
    ⟨by decide, by decide, by decide⟩
  have equal : (shown == shownSwapped) = true := by decide
  exact ⟨apart, equal, structuralEquality.rule_feed _ shown shownSwapped apart equal⟩

end Rule

end Datalog
