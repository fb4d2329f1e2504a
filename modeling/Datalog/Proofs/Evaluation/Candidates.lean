import Mathlib.Data.Finset.Dedup
import Datalog.Proofs.Evaluation.Idempotence

/-!
# What evaluation can derive

No rule invents a value: a safe rule copies the values of its head from the facts that it
matches or from constants of its own. Nor does a rule invent a relation or another number of
arguments. So the facts of the model are among finitely many candidates, which can be listed
before evaluation (`RuleSet.canonical_mem_candidates`); `RuleSet.factBound` is their number.
-/

namespace Datalog

section ValueLists

variable {values list : List Value} {length : Nat}

/-- The lists of a given length over some values. -/
def valueLists (values : List Value) : Nat → List (List Value)
  | 0 => [[]]
  | length + 1 => values.flatMap fun value => (valueLists values length).map (value :: ·)

/-- The lists of a given length are those with elements among the values. -/
theorem mem_valueLists_iff :
    list ∈ valueLists values length ↔ list.length = length ∧ ∀ value ∈ list, value ∈ values := by
  induction length generalizing list with
  | zero => simp +contextual [valueLists, List.length_eq_zero_iff]
  | succ length inductionHypothesis =>
      simp only [valueLists, List.mem_flatMap, List.mem_map, inductionHypothesis]
      constructor
      · rintro ⟨first, inValues, rest, ⟨rfl, restInValues⟩, rfl⟩
        exact ⟨List.length_cons, List.forall_mem_cons.2 ⟨inValues, restInValues⟩⟩
      · rintro ⟨ofLength, inValues⟩
        cases list with
        | nil => cases ofLength
        | cons first rest =>
            obtain ⟨firstInValues, restInValues⟩ := List.forall_mem_cons.1 inValues
            exact ⟨first, firstInValues, rest, ⟨Nat.succ.inj ofLength, restInValues⟩, rfl⟩

/-- There is one list for each choice of a value in each place. -/
theorem length_valueLists : (valueLists values length).length = values.length ^ length := by
  induction length with
  | zero => rfl
  | succ length inductionHypothesis =>
      simp [valueLists, List.length_flatMap, inductionHypothesis, Nat.pow_succ, Nat.mul_comm]

end ValueLists

/-- A variable of an atom is equal to a value of each fact that the atom matches. -/
theorem Atom.Matches.exists_value {atom : Atom} {valuation : Valuation} {fact : Fact}
    (isMatch : atom.Matches valuation fact) {name : String} (occurs : name ∈ atom.variables) :
    ∃ value ∈ fact.values, (valuation name == value) = true := by
  obtain ⟨term, inAtom, isVar⟩ := List.mem_filterMap.1 occurs
  obtain ⟨value, inFact, isTermMatch⟩ := exists_mem_of_forall₂ isMatch.2 inAtom
  cases term with
  | var name =>
      cases isVar
      exact ⟨value, inFact, isTermMatch⟩
  | constant => cases isVar
  | wildcard => cases isVar

/-- The constant that an argument of a head is. -/
def HeadTerm.constant? : HeadTerm → Option Value
  | constant value => some value
  | var _ => none

namespace RuleSet

variable {ruleSet : RuleSet}

/-- The constants of the explicit facts and of the heads of the rules. -/
def constants (ruleSet : RuleSet) : List Value :=
  ruleSet.facts.toList.flatMap Fact.values ++
    ruleSet.rules.toList.flatMap fun rule => rule.head.terms.filterMap HeadTerm.constant?

/-- The constants in one representation each. -/
def distinctConstants (ruleSet : RuleSet) : List Value :=
  (ruleSet.constants.map canonical).dedup

/-- The facts over the constants that have the shape of a recorded relation. -/
def candidates (ruleSet : RuleSet) : List Fact :=
  ruleSet.shapes.toList.flatMap fun (relation, shape) =>
    (valueLists ruleSet.distinctConstants shape.arity).map (⟨relation, ·⟩)

/-- For each recorded relation the number of constants to the power of its arity. -/
def factBound (ruleSet : RuleSet) : Nat :=
  (ruleSet.shapes.values.map fun shape => ruleSet.distinctConstants.length ^ shape.arity).sum

/-- The bound counts the candidates. -/
theorem length_candidates (ruleSet : RuleSet) :
    ruleSet.candidates.length = ruleSet.factBound := by
  rw [factBound, FactStore.values_eq_map_snd, List.map_map, candidates, List.length_flatMap]
  congr 1
  apply List.map_congr_left
  intro entry _
  rw [List.length_map, length_valueLists]
  rfl

/-- The facts whose values are all equal to constants. -/
def expressible (ruleSet : RuleSet) : Set Fact :=
  {fact | ∀ value ∈ fact.values, canonical value ∈ ruleSet.distinctConstants}

/-- A value is equal to a constant if it has the representation of one. -/
theorem canonical_mem_distinctConstants {constant value : Value}
    (isConstant : constant ∈ ruleSet.constants) (equal : (constant == value) = true) :
    canonical value ∈ ruleSet.distinctConstants := by
  rw [distinctConstants, List.mem_dedup, ← Canonical.beq_iff.1 equal]
  exact List.mem_map_of_mem isConstant

/-- Facts that equal one over the constants are over the constants. -/
theorem respectful_expressible (ruleSet : RuleSet) : Respectful ruleSet.expressible := by
  intro fact isExpressible other equal value inOther
  have sameValues := (Fact.beq_iff.1 (BEq.symm equal)).2
  obtain ⟨partner, inFact, same⟩ := exists_mem_of_forall₂ sameValues inOther
  rw [Canonical.beq_iff.1 same]
  exact isExpressible partner inFact

/-- A safe rule derives facts over the constants from such facts. -/
theorem factUnder_mem_expressible {rule : Rule} (inRules : rule ∈ ruleSet.rules.toList)
    (safe : rule.Safe) {lower : Set Fact} {valuation : Valuation}
    (applies : rule.Applies lower ruleSet.expressible valuation) :
    rule.head.factUnder valuation ∈ ruleSet.expressible := by
  intro value inHead
  obtain ⟨term, inTerms, rfl⟩ := List.mem_map.1 inHead
  cases term with
  | constant value =>
      refine canonical_mem_distinctConstants (List.mem_append_right _ ?_) BEq.rfl
      exact List.mem_flatMap.2 ⟨rule, inRules, List.mem_filterMap.2 ⟨_, inTerms, rfl⟩⟩
  | var name =>
      have inVariables : name ∈ rule.head.variables := List.mem_filterMap.2 ⟨_, inTerms, rfl⟩
      have isDemand : (name, Place.head) ∈ rule.demands :=
        List.mem_append_left _ (List.mem_append_left _ (List.mem_map_of_mem inVariables))
      -- A positive atom gives the variable a value, which stands in a known fact.
      obtain ⟨atom, inBody, occurs⟩ := safe _ isDemand
      obtain ⟨fact, isKnown, isMatch⟩ := applies.positive atom inBody
      obtain ⟨found, inFact, equal⟩ := isMatch.exists_value occurs
      change canonical (valuation name) ∈ ruleSet.distinctConstants
      rw [Canonical.beq_iff.1 equal]
      exact isKnown found inFact

/-- The values of the model are equal to constants. -/
theorem stratifiedModel_subset_expressible (consistent : ruleSet.Consistent)
    (strata : List Stratum) : ruleSet.stratifiedModel strata ⊆ ruleSet.expressible := by
  apply stratifiedModel_subset
  · rintro fact ⟨stated, isStated, equal⟩
    apply respectful_expressible ruleSet stated _ fact equal
    intro value inStated
    refine canonical_mem_distinctConstants (List.mem_append_left _ ?_) BEq.rfl
    exact List.mem_flatMap.2 ⟨stated, isStated, inStated⟩
  · exact respectful_expressible ruleSet
  · rintro stratum lower fact ⟨rule, inStratum, valuation, applies, isHead⟩
    have inRules := mem_of_mem_rulesOf inStratum
    have derived := factUnder_mem_expressible inRules (consistent.safe rule inRules) applies
    exact respectful_expressible ruleSet _ derived fact isHead

/-- Every fact of the model is a candidate, in the representation of the candidates. -/
theorem canonical_mem_candidates (declared : ruleSet.Declared) (consistent : ruleSet.Consistent)
    {strata : List Stratum} {fact : Fact} (inModel : fact ∈ ruleSet.stratifiedModel strata) :
    canonical fact ∈ ruleSet.candidates := by
  obtain ⟨shape, isShape, arity⟩ :=
    stratifiedModel_subset_shaped declared consistent strata inModel
  have isExpressible := stratifiedModel_subset_expressible consistent strata inModel
  have isEntry : (fact.relation, shape) ∈ ruleSet.shapes.toList :=
    Std.TreeMap.mem_toList_iff_getElem?_eq_some.2 isShape
  refine List.mem_flatMap.2 ⟨_, isEntry, List.mem_map.2 ⟨fact.values.map canonical, ?_, rfl⟩⟩
  apply mem_valueLists_iff.2
  constructor
  · rw [List.length_map, arity]
  · intro value inFact
    obtain ⟨found, inValues, rfl⟩ := List.mem_map.1 inFact
    exact isExpressible found inValues

/-- The model has no more facts than there are candidates. -/
theorem encard_stratifiedModel_le (declared : ruleSet.Declared)
    (consistent : ruleSet.Consistent) (strata : List Stratum) :
    (canonical '' ruleSet.stratifiedModel strata).encard ≤ ruleSet.factBound := by
  have included :
      canonical '' ruleSet.stratifiedModel strata ⊆ ruleSet.candidates.toFinset := by
    rintro _ ⟨fact, inModel, rfl⟩
    apply Finset.mem_coe.2
    exact List.mem_toFinset.2 (canonical_mem_candidates declared consistent inModel)
  calc (canonical '' ruleSet.stratifiedModel strata).encard
      ≤ (ruleSet.candidates.toFinset : Set Fact).encard := Set.encard_le_encard included
    _ = ruleSet.candidates.toFinset.card := Set.encard_coe_eq_coe_finsetCard _
    _ ≤ ruleSet.candidates.length := Nat.cast_le.2 (List.toFinset_card_le _)
    _ = ruleSet.factBound := by rw [length_candidates]

end RuleSet

end Datalog
