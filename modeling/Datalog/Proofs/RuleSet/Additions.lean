import Datalog.Proofs.RuleSet.Rearrangement

/-!
# Rule sets put together by hand

Facts and rules can be added to a rule set in any order. Whatever is added first keeps its
representation, but up to equality the same facts and the same rules are gathered
(`RuleSet.SameContents`). Shapes do depend on the order: a relation takes the one of its first
use, and a fact, which has no field names, makes it an ordered one. A check refuses the rule
sets in which a later use disagrees, and those that it accepts have the same shapes in every
order.
-/

namespace Datalog

/-- A fact or a rule that is added to a rule set. -/
inductive Addition where
  | fact (fact : Fact)
  | rule (rule : Rule)

namespace Addition

/-- The fact that is added, if it is one. -/
def fact? : Addition → Option Fact
  | .fact added => some added
  | .rule _ => none

/-- The rule that is added, if it is one. -/
def rule? : Addition → Option Rule
  | .fact _ => none
  | .rule added => some added

/-- The relations that an addition uses, each with the shape that it gives to the relation if
it is the first to use it. -/
def usages : Addition → List (String × Shape)
  | .fact added => [(added.relation, .ordered added.values.length)]
  | .rule added => added.usages

end Addition

namespace RuleSet

/-- Add a fact or a rule. -/
def add (ruleSet : RuleSet) : Addition → RuleSet
  | .fact fact => (ruleSet.addFact fact).1
  | .rule rule => (ruleSet.addRule rule).1

/-- The rule set of additions, which are made one after the other. -/
def ofAdditions (additions : List Addition) : RuleSet :=
  additions.foldl add ∅

/-- Two rule sets have the same facts and the same rules in any order, equally many. -/
structure SameContents (left right : RuleSet) : Prop where
  facts : sameMembers left.facts.toList right.facts.toList = true
  rules : sameMembers left.rules.toList right.rules.toList = true
  size_facts : left.facts.size = right.facts.size
  size_rules : left.rules.size = right.rules.size

/-- What additions amount to: the facts one after the other, the rules up to equality, and a
shape for each relation in use, which is that of one of its uses. -/
structure Gathers (ruleSet : RuleSet) (additions : List Addition) : Prop where
  facts_eq : ruleSet.facts = .ofList (additions.filterMap Addition.fact?)
  rules_iff : ∀ rule, (∃ found ∈ ruleSet.rules.toList, (found == rule) = true) ↔
    ∃ added ∈ additions.filterMap Addition.rule?, (added == rule) = true
  knows_iff : ∀ relation, ruleSet.Knows relation ↔
    ∃ usage ∈ additions.flatMap Addition.usages, usage.1 = relation
  origin : ∀ relation shape, ruleSet.shapeOf? relation = some shape →
    (relation, shape) ∈ additions.flatMap Addition.usages

variable {ruleSet left right : RuleSet} {additions others : List Addition}

/-- A shape that a relation has after declarations was there before or is one of them. -/
theorem mem_of_shapeOf?_foldl_declare {usages : List (String × Shape)} {relation : String}
    {shape : Shape}
    (isShape : (usages.foldl (fun set usage => set.declare usage.1 usage.2) ruleSet).shapeOf?
      relation = some shape) :
    ruleSet.shapeOf? relation = some shape ∨ (relation, shape) ∈ usages := by
  induction usages generalizing ruleSet with
  | nil => exact .inl isShape
  | cons usage usages inductionHypothesis =>
      rcases inductionHypothesis isShape with declared | inRest
      · rw [shapeOf?_declare] at declared
        cases before : ruleSet.shapeOf? relation with
        | some found =>
            rw [before] at declared
            exact .inl declared
        | none =>
            rw [before] at declared
            by_cases same : usage.1 = relation
            · rw [if_pos same] at declared
              obtain rfl := Option.some.inj declared
              exact .inr (same ▸ List.mem_cons_self)
            · rw [if_neg same] at declared
              cases declared
      · exact .inr (List.mem_cons_of_mem usage inRest)

/-- An addition declares the relations that it uses. -/
theorem shapeOf?_add (ruleSet : RuleSet) (addition : Addition) (relation : String) :
    (ruleSet.add addition).shapeOf? relation = (addition.usages.foldl
      (fun set usage => set.declare usage.1 usage.2) ruleSet).shapeOf? relation := by
  cases addition with
  | fact fact => exact shapeOf?_addFact ruleSet fact relation
  | rule rule => exact shapeOf?_addRule ruleSet rule relation

/-- An addition inserts its fact, if it is one. -/
theorem facts_add (ruleSet : RuleSet) (addition : Addition) :
    (ruleSet.add addition).facts = ruleSet.facts.insertMany addition.fact?.toList := by
  cases addition with
  | fact fact => exact facts_addFact ruleSet fact
  | rule rule => exact facts_addRule ruleSet rule

/-- The rules after an addition are those before and the one that is added, if it is one, up
to equality. -/
theorem exists_beq_add_iff {addition : Addition} {rule : Rule} :
    (∃ found ∈ (ruleSet.add addition).rules.toList, (found == rule) = true) ↔
      (∃ found ∈ ruleSet.rules.toList, (found == rule) = true) ∨
        ∃ added ∈ addition.rule?.toList, (added == rule) = true := by
  cases addition with
  | fact fact => exact (or_iff_left fun ⟨_, listed, _⟩ => List.not_mem_nil listed).symm
  | rule added =>
      refine exists_beq_addRule_iff.trans (or_congr_right ?_)
      simp only [Addition.rule?, Option.toList_some, List.mem_singleton, exists_eq_left]

/-- Each addition is gathered. -/
theorem Gathers.add (gathers : ruleSet.Gathers additions) (addition : Addition) :
    (ruleSet.add addition).Gathers (additions ++ [addition]) := by
  have usages_append : (additions ++ [addition]).flatMap Addition.usages =
      additions.flatMap Addition.usages ++ addition.usages := by
    rw [List.flatMap_append, List.flatMap_singleton]
  have found_append {α : Type} (find : Addition → Option α) :
      (additions ++ [addition]).filterMap find =
        additions.filterMap find ++ (find addition).toList := by
    rw [List.filterMap_append]
    cases isFound : find addition <;> simp [isFound]
  constructor
  · rw [facts_add, gathers.facts_eq, found_append]
    exact (OrderedSet.insertMany_append _ _ _).symm
  · intro rule
    rw [exists_beq_add_iff, gathers.rules_iff, found_append]
    simp only [List.mem_append, or_and_right, exists_or]
  · intro relation
    rw [Knows, shapeOf?_add]
    refine knows_foldl_declare_iff.trans ?_
    rw [gathers.knows_iff, usages_append]
    simp only [List.mem_append, or_and_right, exists_or]
  · intro relation shape isShape
    rw [shapeOf?_add] at isShape
    rw [usages_append, List.mem_append]
    exact (mem_of_shapeOf?_foldl_declare isShape).imp_left (gathers.origin relation shape)

/-- The empty rule set has gathered nothing. -/
theorem gathers_empty : Gathers ∅ [] where
  facts_eq := rfl
  rules_iff rule := by
    refine iff_of_false ?_ ?_
    · rintro ⟨found, listed, _⟩
      exact absurd listed List.not_mem_nil
    · rintro ⟨added, listed, _⟩
      cases listed
  knows_iff relation := by
    have noShape : (∅ : RuleSet).shapeOf? relation = none := Std.TreeMap.getElem?_emptyc
    simp [Knows, noShape]
  origin relation shape isShape := by
    have noShape : (∅ : RuleSet).shapeOf? relation = none := Std.TreeMap.getElem?_emptyc
    rw [noShape] at isShape
    cases isShape

/-- Additions are all gathered. -/
theorem gathers_ofAdditions (additions : List Addition) :
    (ofAdditions additions).Gathers additions := by
  induction additions using List.reverseRecOn with
  | nil => exact gathers_empty
  | append_singleton additions addition inductionHypothesis =>
      rw [ofAdditions, List.foldl_concat]
      exact inductionHypothesis.add addition

/-- Rule sets that have gathered rearranged additions have the same facts and rules. -/
theorem Gathers.perm_contents (gathers : left.Gathers additions)
    (otherGathers : right.Gathers others) (perm : additions.Perm others) :
    (left.facts.toList.map canonical).Perm (right.facts.toList.map canonical) ∧
      (left.rules.toList.map Rule.essence).Perm (right.rules.toList.map Rule.essence) := by
  constructor
  · refine (List.perm_ext_iff_of_nodup (Fact.nodup_map_canonical _)
      (Fact.nodup_map_canonical _)).2 fun image => ?_
    rw [gathers.facts_eq, otherGathers.facts_eq, Fact.mem_map_canonical_ofList,
      Fact.mem_map_canonical_ofList]
    exact ((perm.filterMap Addition.fact?).map canonical).mem_iff
  · have listed_iff (rule : Rule) :
        (∃ found ∈ left.rules.toList, (found == rule) = true) ↔
          ∃ found ∈ right.rules.toList, (found == rule) = true := by
      rw [gathers.rules_iff, otherGathers.rules_iff]
      simp only [(perm.filterMap Addition.rule?).mem_iff]
    simp only [Rule.beq_iff] at listed_iff
    refine (List.perm_ext_iff_of_nodup left.nodup_map_essence right.nodup_map_essence).2
      fun essence => ?_
    rw [List.mem_map, List.mem_map]
    constructor
    · rintro ⟨rule, listed, rfl⟩
      exact (listed_iff rule).1 ⟨rule, listed, rfl⟩
    · rintro ⟨rule, listed, rfl⟩
      exact (listed_iff rule).2 ⟨rule, listed, rfl⟩

/-- In a consistent rule set the shape of a relation agrees with every use: a rule uses the
relation in this very shape, and a fact has a value for each of its places. -/
theorem Gathers.eq_or_eq_ordered (gathers : ruleSet.Gathers additions)
    (consistent : ruleSet.Consistent) {relation : String} {used declared : Shape}
    (isUsed : (relation, used) ∈ additions.flatMap Addition.usages)
    (isDeclared : ruleSet.shapeOf? relation = some declared) :
    declared = used ∨ used = .ordered declared.arity := by
  obtain ⟨addition, member, isUsage⟩ := List.mem_flatMap.1 isUsed
  cases addition with
  | fact fact =>
      obtain ⟨rfl, rfl⟩ := Prod.mk.inj (List.mem_singleton.1 isUsage)
      have isAdded : canonical fact ∈ (additions.filterMap Addition.fact?).map canonical :=
        List.mem_map_of_mem (List.mem_filterMap.2 ⟨_, member, rfl⟩)
      rw [← Fact.mem_map_canonical_ofList, ← gathers.facts_eq] at isAdded
      obtain ⟨found, listed, same⟩ := List.mem_map.1 isAdded
      obtain ⟨sameRelation, sameValues⟩ := Fact.beq_iff.1 (Canonical.beq_iff.2 same)
      rw [← sameRelation] at isDeclared
      rw [consistent.facts found listed declared isDeclared, sameValues.length_eq]
      exact .inr rfl
  | rule rule =>
      obtain ⟨found, listed, equal⟩ := (gathers.rules_iff rule).2
        ⟨rule, List.mem_filterMap.2 ⟨_, member, rfl⟩, Rule.beq_iff.2 rfl⟩
      have alsoUsage := Rule.mem_usages_congr (Rule.beq_symm equal) isUsage
      exact .inl (consistent.usages found listed _ alsoUsage declared isDeclared)

/-- Consistent rule sets that have gathered rearranged additions know the same shapes. -/
theorem Gathers.shapeOf?_eq (gathers : left.Gathers additions)
    (otherGathers : right.Gathers others) (perm : additions.Perm others)
    (consistent : left.Consistent) (otherConsistent : right.Consistent) (relation : String) :
    left.shapeOf? relation = right.shapeOf? relation := by
  have usages_iff (usage : String × Shape) : usage ∈ additions.flatMap Addition.usages ↔
      usage ∈ others.flatMap Addition.usages := (perm.flatMap_right _).mem_iff
  have knows_iff : left.Knows relation ↔ right.Knows relation := by
    rw [gathers.knows_iff, otherGathers.knows_iff]
    simp only [usages_iff]
  cases isLeft : left.shapeOf? relation with
  | none =>
      cases isRight : right.shapeOf? relation with
      | none => rfl
      | some other =>
          obtain ⟨shape, isShape⟩ := knows_iff.2 ⟨other, isRight⟩
          rw [isLeft] at isShape
          cases isShape
  | some shape =>
      obtain ⟨other, isRight⟩ := knows_iff.1 ⟨shape, isLeft⟩
      rw [isRight]
      -- Each of the two shapes is that of a use, which the other rule set has to respect.
      have isUsed := (usages_iff _).1 (gathers.origin relation shape isLeft)
      have otherUsed := (usages_iff _).2 (otherGathers.origin relation other isRight)
      rcases otherGathers.eq_or_eq_ordered otherConsistent isUsed isRight with rfl | isOrdered
      · rfl
      rcases gathers.eq_or_eq_ordered consistent otherUsed isLeft with rfl | otherOrdered
      · rfl
      have sameArity : shape.arity = other.arity := by
        rw [isOrdered, Shape.arity]
      rw [otherOrdered, sameArity, ← isOrdered]

/-- Additions in another order make a rule set with the same facts and rules, and an equal one
if both pass the check. -/
theorem sameContents_of_perm (perm : additions.Perm others) :
    SameContents (ofAdditions additions) (ofAdditions others) ∧
      ((ofAdditions additions).check = .ok () → (ofAdditions others).check = .ok () →
        (ofAdditions additions == ofAdditions others) = true) := by
  have gathers := gathers_ofAdditions additions
  have otherGathers := gathers_ofAdditions others
  obtain ⟨sameFacts, sameRules⟩ := gathers.perm_contents otherGathers perm
  refine ⟨⟨?_, ?_, ?_, ?_⟩, fun accepted otherAccepted => ?_⟩
  · exact sameMembers_iff.2 sameFacts
  · exact (sameMembers_iff_perm_map fun _ _ => Rule.beq_iff).2 sameRules
  · simpa [OrderedSet.toList, OrderedSet.size] using sameFacts.length_eq
  · simpa using sameRules.length_eq
  · refine beq_iff.2 ⟨sameFacts, sameRules, ?_⟩
    refine Std.TreeMap.equiv_iff_toList_eq.1 (.of_forall_constGet?_eq fun relation => ?_)
    exact gathers.shapeOf?_eq otherGathers perm (check_eq_ok_iff.1 accepted)
      (check_eq_ok_iff.1 otherAccepted) relation

/-- The rule `link(from: X, to: Y) :- arc(X, Y, W)` with a name for the wildcard `W`, and the
fact `link(from: 1, to: 2)` in two representations. -/
def links : List Addition :=
  let linkArcs (wildcard : String) : Addition := .rule {
    head := ⟨"link", .named (.ofList [("from", .var "X"), ("to", .var "Y")])⟩
    positive := [⟨"arc", .ordered [.var "X", .var "Y", .wildcard wildcard]⟩]
    negative := []
    constraints := [] }
  [linkArcs "_", .fact ⟨"link", [.int 1, .int 2]⟩,
    .fact ⟨"link", [.float ⟨0x3ff0000000000000⟩, .int 2]⟩, linkArcs "_weight"]

/-- Additions keep other representations when they are reversed, and make an equal rule set. -/
theorem sameContents_links_reverse :
    links.Perm links.reverse ∧ (ofAdditions links).check = .ok () ∧
      (ofAdditions links.reverse).check = .ok () ∧
      SameContents (ofAdditions links) (ofAdditions links.reverse) ∧
      (ofAdditions links == ofAdditions links.reverse) = true := by
  have perm : links.Perm links.reverse := (List.reverse_perm links).symm
  have accepted : (ofAdditions links).check = .ok () := by decide +kernel
  have otherAccepted : (ofAdditions links.reverse).check = .ok () := by decide +kernel
  obtain ⟨sameContents, equal⟩ := sameContents_of_perm perm
  exact ⟨perm, accepted, otherAccepted, sameContents, equal accepted otherAccepted⟩

/-- A fact that comes before the rules makes its relation an ordered one, which the check
refuses. -/
example : (ofAdditions (links.rotate 1)).check =
    .error (.faulty (.shapeMismatch "link" (.ordered 2) (.named ["from", "to"])) none) := by
  decide +kernel

end RuleSet

end Datalog
