import Datalog.Proofs.RuleSet.Equality
import Datalog.RuleSet.Check

/-!
# What a check accepts

`RuleSet.Consistent` says without the order of a search what an accepted rule set is: its
facts and atoms have the shapes of their relations, and its rules are safe
(`RuleSet.check_eq_ok_iff`). Equal rule sets are accepted together.
-/

namespace Datalog.RuleSet

/-- Facts and atoms have the shapes of their relations, as far as these have one, and rules
are safe. -/
structure Consistent (ruleSet : RuleSet) : Prop where
  facts : ∀ fact ∈ ruleSet.facts.toList, ∀ shape,
    ruleSet.shapeOf? fact.relation = some shape → shape.arity = fact.values.length
  usages : ∀ rule ∈ ruleSet.rules.toList, ∀ usage ∈ rule.usages, ∀ shape,
    ruleSet.shapeOf? usage.1 = some shape → shape = usage.2
  safe : ∀ rule ∈ ruleSet.rules.toList, rule.Safe

variable {ruleSet left right : RuleSet}

/-- A use of a relation is in order if it is in the shape of the relation. -/
theorem mismatch?_eq_none_iff {relation : String} {used : Shape} :
    ruleSet.mismatch? relation used = none ↔
      ∀ shape, ruleSet.shapeOf? relation = some shape → shape = used := by
  rw [mismatch?]
  cases ruleSet.shapeOf? relation with
  | none => simp
  | some declared => simp

/-- A fact is in order if it has a value for each place of its relation. -/
theorem mismatch?_shapeOfFact_eq_none_iff {fact : Fact} :
    ruleSet.mismatch? fact.relation (ruleSet.shapeOfFact fact) = none ↔
      ∀ shape, ruleSet.shapeOf? fact.relation = some shape →
        shape.arity = fact.values.length := by
  rw [mismatch?_eq_none_iff, shapeOfFact]
  cases ruleSet.shapeOf? fact.relation with
  | none => simp
  | some declared =>
      cases declared with
      | ordered arity => simp [Shape.arity]
      | named fields =>
          by_cases same : fields.length = fact.values.length <;> simp [Shape.arity, same]

/-- A rule is in order if its atoms have the shapes of their relations and it is safe. -/
theorem ruleFault?_eq_none_iff {rule : Rule} :
    ruleSet.ruleFault? rule = none ↔
      (∀ usage ∈ rule.usages, ∀ shape,
        ruleSet.shapeOf? usage.1 = some shape → shape = usage.2) ∧ rule.Safe := by
  simp only [ruleFault?, Option.orElse_eq_orElse, Option.orElse_eq_or, Option.or_eq_none_iff,
    List.findSome?_eq_none_iff, mismatch?_eq_none_iff, Option.map_eq_none_iff,
    Rule.unboundVariable?_eq_none_iff]

/-- The check accepts the consistent rule sets. -/
theorem check_eq_ok_iff : ruleSet.check = .ok () ↔ ruleSet.Consistent := by
  have noFault : ruleSet.check = .ok () ↔ ruleSet.fault? = none := by
    rw [check]
    cases ruleSet.fault? <;> simp
  simp only [noFault, fault?, Option.orElse_eq_orElse, Option.orElse_eq_or,
    Option.or_eq_none_iff, List.findSome?_eq_none_iff, mismatch?_shapeOfFact_eq_none_iff,
    ruleFault?_eq_none_iff]
  constructor
  · rintro ⟨facts, rules⟩
    exact ⟨facts, fun rule member => (rules rule member).1, fun rule member =>
      (rules rule member).2⟩
  · rintro ⟨facts, usages, safe⟩
    exact ⟨facts, fun rule member => ⟨usages rule member, safe rule member⟩⟩

/-- Rule sets that equal a consistent one are consistent. -/
theorem Consistent.congr (consistent : left.Consistent) (equal : (left == right) = true) :
    right.Consistent := by
  have back := beq_symm equal
  constructor
  · intro fact member shape declared
    obtain ⟨other, inLeft, same⟩ := exists_mem_of_perm_map (beq_iff.1 back).1 member
    obtain ⟨sameRelation, sameValues⟩ := Fact.beq_iff.1 (Canonical.beq_iff.2 same)
    rw [sameValues.length_eq]
    refine consistent.facts other inLeft shape ?_
    rw [shapeOf?_congr equal, ← sameRelation, declared]
  · intro rule member usage isUsage shape declared
    obtain ⟨other, inLeft, same⟩ := exists_rule back member
    refine consistent.usages other inLeft usage (Rule.mem_usages_congr same isUsage) shape ?_
    rw [shapeOf?_congr equal, declared]
  · intro rule member
    obtain ⟨other, inLeft, same⟩ := exists_rule back member
    exact Rule.safe_congr (Rule.beq_symm same) (consistent.safe other inLeft)

end Datalog.RuleSet
