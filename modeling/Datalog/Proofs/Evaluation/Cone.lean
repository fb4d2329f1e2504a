import Datalog.Proofs.Evaluation.OrderIndependence

/-!
# The facts of one relation

The facts of a relation are derived from those of its cone: of the relations that its rules
read, positively or negated, of those that their rules read, and so on. Rule sets that agree
about the cone may differ in everything else, and may be given strata that have nothing in
common; the facts of the relation are the same (`RuleSet.sameMembers_factsOf`).
-/

namespace Datalog.RuleSet

variable {ruleSet left right : RuleSet} {relation : String}

/-- The relations from which the facts of a relation are derived: itself, and what the rules
for one of them read. -/
inductive Cone (ruleSet : RuleSet) (relation : String) : String → Prop where
  | self : Cone ruleSet relation relation
  | body {rule : Rule} {atom : Atom} (member : rule ∈ ruleSet.rules.toList)
      (inCone : Cone ruleSet relation rule.head.relation)
      (inBody : atom ∈ rule.positive ++ rule.negative) : Cone ruleSet relation atom.relation

/-- Whatever one rule set states of the relations of a class, and every rule that it has for
them, has an equal in the other. -/
structure Includes (relations : String → Prop) (left right : RuleSet) : Prop where
  facts : ∀ fact ∈ left.facts.toList, relations fact.relation →
    ∃ other ∈ right.facts.toList, (fact == other) = true
  rules : ∀ rule ∈ left.rules.toList, relations rule.head.relation →
    ∃ other ∈ right.rules.toList, (rule == other) = true

/-- A class of relations that has what the rules for its relations read has the whole cone. -/
theorem Cone.mem_of_closed {relations : List String} (isMember : relation ∈ relations)
    (closed : ∀ rule ∈ ruleSet.rules.toList, rule.head.relation ∈ relations →
      ∀ atom ∈ rule.positive ++ rule.negative, atom.relation ∈ relations)
    {source : String} (inCone : ruleSet.Cone relation source) : source ∈ relations := by
  induction inCone with
  | self => exact isMember
  | body member _ inBody inductionHypothesis =>
      exact closed _ member inductionHypothesis _ inBody

namespace Includes

variable {relations fewer : String → Prop}

/-- What is included for a class is included for a part of it. -/
theorem mono (included : Includes relations left right)
    (isPart : ∀ source, fewer source → relations source) : Includes fewer left right where
  facts fact member inClass := included.facts fact member (isPart _ inClass)
  rules rule member inClass := included.rules rule member (isPart _ inClass)

/-- Facts that are stated by one rule set are stated by one that includes it. -/
theorem mem_statedFacts (included : Includes relations left right) {fact : Fact}
    (inClass : relations fact.relation) (isStated : fact ∈ left.statedFacts) :
    fact ∈ right.statedFacts := by
  obtain ⟨stated, member, equal⟩ := isStated
  have statedInClass : relations stated.relation := by
    rw [Fact.relation_congr equal]
    exact inClass
  obtain ⟨other, inRight, same⟩ := included.facts stated member statedInClass
  exact ⟨other, inRight, BEq.trans (BEq.symm same) equal⟩

/-- Rule sets that agree about a cone define the relations in it alike. -/
theorem sameDefinitions (forth : Includes (left.Cone relation) left right)
    (back : Includes (left.Cone relation) right left) :
    SameDefinitions (left.Cone relation) left right where
  stated _ inCone := ⟨forth.mem_statedFacts inCone, back.mem_statedFacts inCone⟩
  forth := forth.rules
  back := back.rules
  closed _ member inCone _ inBody := .body member inCone inBody

end Includes

/-- Two rule sets that agree about the cone of a relation find the same facts of it, whatever
else they state and derive and under whatever limits. -/
theorem sameMembers_factsOf {limits otherLimits : Limits} {store otherStore : FactStore}
    (isOk : left.evaluate limits = .ok store)
    (isOtherOk : right.evaluate otherLimits = .ok otherStore)
    (forth : Includes (left.Cone relation) left right)
    (back : Includes (left.Cone relation) right left) :
    sameMembers (store.factsOf relation).toList (otherStore.factsOf relation).toList = true := by
  obtain ⟨stratification, accepted, wellFormed, isModel⟩ := exists_facts_eq_of_evaluate isOk
  obtain ⟨otherStratification, otherAccepted, otherWellFormed, isOtherModel⟩ :=
    exists_facts_eq_of_evaluate isOtherOk
  have agree := (forth.sameDefinitions back).similar.agreeOn_stratifiedModel (stratifies_of_ok accepted)
    (stratifies_of_ok otherAccepted)
  refine sameMembers_iff.2 (wellFormed.perm_factsOf otherWellFormed fun fact ofRelation => ?_)
  rw [isModel, isOtherModel]
  exact agree fact (ofRelation ▸ .self)

/-- Even and odd numbers as in `parity`, but with other relations around them: before their
rules stands one that reads both, and other numbers are called pure. -/
def embeddedParity : RuleSet :=
  let facts : List Fact := [⟨"bound", [.int 7]⟩, ⟨"succ", [.int 1, .float ⟨0x4000000000000000⟩]⟩,
    ⟨"succ", [.int 0, .int 1]⟩, ⟨"even", [.float ⟨0x8000000000000000⟩]⟩]
  let step : Atom := ⟨"succ", .ordered [.var "Y", .var "X"]⟩
  let rules : List Rule := [
    ⟨⟨"neither", .ordered [.var "X"]⟩, [⟨"bound", .ordered [.var "X"]⟩],
      [⟨"even", .ordered [.var "X"]⟩, ⟨"odd", .ordered [.var "X"]⟩], []⟩,
    ⟨⟨"pure", .ordered [.var "X"]⟩, [⟨"odd", .ordered [.var "X"]⟩],
      [⟨"neither", .ordered [.var "X"]⟩], []⟩,
    ⟨⟨"even", .ordered [.var "X"]⟩, [step, ⟨"odd", .ordered [.var "Y"]⟩], [], []⟩,
    ⟨⟨"odd", .ordered [.var "X"]⟩, [step, ⟨"even", .ordered [.var "Y"]⟩], [], []⟩]
  rules.foldl (fun set rule => (set.addRule rule).1) (RuleSet.empty.withFacts facts)

/-- The same numbers are odd whatever else is defined with them. -/
theorem sameMembers_odd_embeddedParity :
    ∃ store otherStore, parity.evaluate .standard = .ok store ∧
      embeddedParity.evaluate .standard = .ok otherStore ∧
      Includes (parity.Cone "odd") parity embeddedParity ∧
      Includes (parity.Cone "odd") embeddedParity parity ∧
      sameMembers (store.factsOf "odd").toList (otherStore.factsOf "odd").toList = true := by
  have succeeds : (parity.evaluate .standard).isOk = true := by decide +kernel
  have otherSucceeds : (embeddedParity.evaluate .standard).isOk = true := by decide +kernel
  obtain ⟨store, isOk⟩ := exists_eq_ok_of_isOk succeeds
  obtain ⟨otherStore, isOtherOk⟩ := exists_eq_ok_of_isOk otherSucceeds
  have inCone (source : String) (inCone : parity.Cone "odd" source) :
      source ∈ ["odd", "even", "succ"] := inCone.mem_of_closed (by decide) (by decide +kernel)
  have forth : Includes (· ∈ ["odd", "even", "succ"]) parity embeddedParity :=
    ⟨by decide +kernel, by decide +kernel⟩
  have back : Includes (· ∈ ["odd", "even", "succ"]) embeddedParity parity :=
    ⟨by decide +kernel, by decide +kernel⟩
  exact ⟨store, otherStore, isOk, isOtherOk, forth.mono inCone, back.mono inCone,
    sameMembers_factsOf isOk isOtherOk (forth.mono inCone) (back.mono inCone)⟩

end Datalog.RuleSet
