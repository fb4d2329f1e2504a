import Datalog.Proofs.Evaluation.Similarity
import Datalog.Proofs.RuleSet.Loosening
import Datalog.Proofs.RuleSet.Restatement

/-!
# Replacing a rule

A rule set in which a rule is replaced by an interchangeable one is similar to the rule set
(`RuleSet.similarDefinitions_replaceRule`). The facts that a source implies have no NaNs, so
loosening one of its rules is such a replacement: the rule set is still accepted and has the
same facts (`RuleSet.evaluate_loosened`), and it needs no other limits (`RuleSet.alike_loosened`).
-/

namespace Datalog.RuleSet

/-- The rule set with more rules. -/
def withRules (ruleSet : RuleSet) (rules : List Rule) : RuleSet :=
  rules.foldl (fun set rule => (set.addRule rule).1) ruleSet

/-- The rule set with another rule in the place of one of its own. If it has this rule already,
the one that is replaced is only left out. -/
def replaceRule (ruleSet : RuleSet) (place : Nat) (rule : Rule) : RuleSet :=
  withRules { empty with facts := ruleSet.facts, shapes := ruleSet.shapes }
    (ruleSet.rules.toList.set place rule)

section WithRules

variable {ruleSet : RuleSet} {rules : List Rule}

/-- More rules do not change the facts. -/
theorem facts_withRules (ruleSet : RuleSet) (rules : List Rule) :
    (ruleSet.withRules rules).facts = ruleSet.facts := by
  induction rules generalizing ruleSet with
  | nil => rfl
  | cons rule rules inductionHypothesis =>
      exact (inductionHypothesis _).trans (facts_addRule ruleSet rule)

/-- The rules with more are those before and these, up to equality. -/
theorem exists_beq_withRules_iff {other : Rule} :
    (∃ found ∈ (ruleSet.withRules rules).rules.toList, (found == other) = true) ↔
      (∃ found ∈ ruleSet.rules.toList, (found == other) = true) ∨
        ∃ rule ∈ rules, (rule == other) = true := by
  induction rules generalizing ruleSet with
  | nil => simp [withRules]
  | cons rule rules inductionHypothesis =>
      refine inductionHypothesis.trans ?_
      rw [exists_beq_addRule_iff, or_assoc, List.exists_mem_cons_iff]

/-- The rules with more are among those before and these, as they are written. -/
theorem mem_rules_withRules {found : Rule}
    (member : found ∈ (ruleSet.withRules rules).rules.toList) :
    found ∈ ruleSet.rules.toList ∨ found ∈ rules := by
  induction rules generalizing ruleSet with
  | nil => exact .inl member
  | cons rule rules inductionHypothesis =>
      rcases inductionHypothesis member with before | isNew
      · rw [rules_addRule] at before
        split at before
        next => exact .inl before
        next =>
          rcases List.mem_append.1 before with isOld | isRule
          · exact .inl isOld
          · exact .inr (List.mem_cons.2 (.inl (List.mem_singleton.1 isRule)))
      · exact .inr (List.mem_cons_of_mem rule isNew)

/-- More rules over known relations do not change the shapes. -/
theorem shapeOf?_withRules
    (known : ∀ rule ∈ rules, ∀ usage ∈ rule.usages, ruleSet.Knows usage.1) (relation : String) :
    (ruleSet.withRules rules).shapeOf? relation = ruleSet.shapeOf? relation := by
  induction rules generalizing ruleSet with
  | nil => rfl
  | cons rule rules inductionHypothesis =>
      obtain ⟨first, others⟩ := List.forall_mem_cons.1 known
      have keeps (other : String) :
          (ruleSet.addRule rule).1.shapeOf? other = ruleSet.shapeOf? other := by
        rw [shapeOf?_addRule, shapeOf?_foldl_declare first]
      refine (inductionHypothesis fun rule member usage isUsage => ?_).trans (keeps relation)
      rw [Knows, keeps]
      exact others rule member usage isUsage

end WithRules

section Replacing

variable {ruleSet : RuleSet} {place : Nat} {rule other : Rule}
  (atPlace : ruleSet.rules[place]? = some rule)

/-- Replacing a rule does not change the facts. -/
theorem facts_replaceRule (ruleSet : RuleSet) (place : Nat) (rule : Rule) :
    (ruleSet.replaceRule place rule).facts = ruleSet.facts :=
  facts_withRules _ _

/-- After a replacement there are only rules from before and the new one. -/
theorem mem_rules_replaceRule {found : Rule}
    (member : found ∈ (ruleSet.replaceRule place rule).rules.toList) :
    found ∈ ruleSet.rules.toList ∨ found = rule := by
  rcases mem_rules_withRules member with impossible | listed
  · cases impossible
  · exact List.mem_or_eq_of_mem_set listed

/-- After a replacement the other rules are still there. -/
theorem exists_beq_replaceRule {found : Rule} (member : found ∈ ruleSet.rules.toList) :
    (∃ kept ∈ (ruleSet.replaceRule place rule).rules.toList, (kept == found) = true) ∨
      ruleSet.rules[place]? = some found := by
  refine (mem_set_or_getElem? member place rule).imp (fun stays => ?_) fun isPlace => ?_
  · exact exists_beq_withRules_iff.2 (.inr ⟨found, stays, Rule.beq_iff.2 rfl⟩)
  · rwa [← Array.getElem?_toList]

include atPlace

/-- After a replacement the new rule is there. -/
theorem exists_beq_replaceRule_self (other : Rule) :
    ∃ found ∈ (ruleSet.replaceRule place other).rules.toList, (found == other) = true := by
  rw [← Array.getElem?_toList] at atPlace
  obtain ⟨inBounds, _⟩ := List.getElem?_eq_some_iff.1 atPlace
  exact exists_beq_withRules_iff.2
    (.inr ⟨other, List.mem_set inBounds other, Rule.beq_iff.2 rfl⟩)

/-- A rule that uses relations as the one it replaces does not change the shapes. -/
theorem shapeOf?_replaceRule (declared : ruleSet.Declared) (sameUsages : other.usages = rule.usages)
    (relation : String) :
    (ruleSet.replaceRule place other).shapeOf? relation = ruleSet.shapeOf? relation := by
  refine shapeOf?_withRules (fun found listed usage isUsage => ?_) relation
  have known {found : Rule} (member : found ∈ ruleSet.rules.toList)
      (isUsage : usage ∈ found.usages) : ruleSet.Knows usage.1 :=
    (declared usage.1).2 (.inr ⟨found, member, usage, isUsage, rfl⟩)
  rcases List.mem_or_eq_of_mem_set listed with isOld | rfl
  · exact known isOld isUsage
  · exact known (Array.mem_toList_iff.2 (Array.mem_of_getElem? atPlace)) (sameUsages ▸ isUsage)

/-- A rule set stays consistent if a rule is replaced by a safe one that uses relations as it
does. -/
theorem Consistent.replaceRule (consistent : ruleSet.Consistent) (declared : ruleSet.Declared)
    (sameUsages : other.usages = rule.usages) (safe : other.Safe) :
    (ruleSet.replaceRule place other).Consistent := by
  have keeps := shapeOf?_replaceRule atPlace declared sameUsages
  have isRule := Array.mem_toList_iff.2 (Array.mem_of_getElem? atPlace)
  constructor
  · intro fact member shape isShape
    rw [facts_replaceRule] at member
    exact consistent.facts fact member shape (keeps _ ▸ isShape)
  · intro found member usage isUsage shape isShape
    rw [keeps] at isShape
    rcases mem_rules_replaceRule member with isOld | rfl
    · exact consistent.usages found isOld usage isUsage shape isShape
    · exact consistent.usages rule isRule usage (sameUsages ▸ isUsage) shape isShape
  · intro found member
    rcases mem_rules_replaceRule member with isOld | rfl
    · exact consistent.safe found isOld
    · exact safe

/-- A rule with the head of the one it replaces brings no new constants for facts. -/
theorem mem_constants_of_replaceRule (sameHead : other.head = rule.head) {constant : Value}
    (member : constant ∈ (ruleSet.replaceRule place other).constants) :
    constant ∈ ruleSet.constants := by
  rw [constants, facts_replaceRule] at member
  refine List.mem_append.2 ((List.mem_append.1 member).imp_right fun inRules => ?_)
  obtain ⟨found, isFound, inHead⟩ := List.mem_flatMap.1 inRules
  rcases mem_rules_replaceRule isFound with isOld | rfl
  · exact List.mem_flatMap.2 ⟨found, isOld, inHead⟩
  · exact List.mem_flatMap.2
      ⟨rule, Array.mem_toList_iff.2 (Array.mem_of_getElem? atPlace), sameHead ▸ inHead⟩

/-- Replacing a rule by one that can be exchanged for it makes a similar rule set. -/
theorem similarDefinitions_replaceRule {valid : Set Fact}
    (same : rule.Interchangeable valid other)
    (leftValid : ∀ strata, ruleSet.stratifiedModel strata ⊆ valid)
    (rightValid : ∀ strata, (ruleSet.replaceRule place other).stratifiedModel strata ⊆ valid) :
    SimilarDefinitions valid (fun _ => True) ruleSet (ruleSet.replaceRule place other) where
  stated fact _ := by rw [statedFacts, statedFacts, facts_replaceRule]
  forth found member _ := by
    rcases exists_beq_replaceRule member with ⟨kept, isKept, equal⟩ | isPlace
    · exact ⟨kept, isKept, Rule.interchangeable_of_beq (Rule.beq_symm equal)⟩
    · obtain rfl := Option.some.inj (atPlace.symm.trans isPlace)
      obtain ⟨kept, isKept, equal⟩ := exists_beq_replaceRule_self atPlace other
      exact ⟨kept, isKept, same.trans (Rule.interchangeable_of_beq (Rule.beq_symm equal))⟩
  back found member _ := by
    rcases mem_rules_replaceRule member with isOld | rfl
    · exact ⟨found, isOld, Rule.interchangeable_of_beq (Rule.beq_iff.2 rfl)⟩
    · exact ⟨rule, Array.mem_toList_iff.2 (Array.mem_of_getElem? atPlace), same.symm⟩
  closed _ _ _ _ _ := trivial
  leftValid := leftValid
  rightValid := rightValid

end Replacing

section Comparable

variable {ruleSet : RuleSet}

/-- Without NaNs among the constants there are none in the model. -/
theorem stratifiedModel_subset_comparableFacts (consistent : ruleSet.Consistent)
    (isComparable : ∀ constant ∈ ruleSet.constants, ¬ constant.Unordered)
    (strata : List Stratum) : ruleSet.stratifiedModel strata ⊆ comparableFacts := by
  intro fact inModel value inFact
  obtain ⟨constant, isConstant, equal⟩ := List.mem_map.1 (List.mem_dedup.1
    (stratifiedModel_subset_expressible consistent strata inModel value inFact))
  rw [← Value.unordered_congr (Canonical.beq_iff.2 equal)]
  exact isComparable constant isConstant

end Comparable

section Compiled

variable {source : String} {ruleSet : RuleSet} {place : Nat} {rule : Rule}
  (compiled : compile source = .ok ruleSet) (atPlace : ruleSet.rules[place]? = some rule)
  (loosening : rule.Loosening)
include compiled atPlace

/-- Loosening a rule of a source keeps the rule set consistent. -/
theorem consistent_loosened : (ruleSet.replaceRule place loosening.result).Consistent := by
  obtain ⟨_, _, _, rfl, means, _⟩ := exists_means_of_compile compiled
  have safe := means.consistent.safe rule
    (Array.mem_toList_iff.2 (Array.mem_of_getElem? atPlace))
  exact means.consistent.replaceRule atPlace means.declared loosening.usages_result
    (loosening.safe_result safe)

/-- Loosening a rule of a source makes a similar rule set. -/
theorem similarDefinitions_loosened :
    SimilarDefinitions comparableFacts (fun _ => True) ruleSet
      (ruleSet.replaceRule place loosening.result) := by
  have isComparable : ∀ constant ∈ ruleSet.constants, ¬ constant.Unordered := by
    intro constant member
    obtain ⟨_, denotes⟩ := exists_denotes_of_compile compiled member
    exact denotes.not_unordered
  have otherConsistent := consistent_loosened compiled atPlace loosening
  obtain ⟨_, _, _, rfl, means, _⟩ := exists_means_of_compile compiled
  refine similarDefinitions_replaceRule atPlace loosening.interchangeable ?_ ?_
  · exact stratifiedModel_subset_comparableFacts means.consistent isComparable
  · refine stratifiedModel_subset_comparableFacts otherConsistent fun constant member => ?_
    have sameHead : loosening.result.head = rule.head := rfl
    exact isComparable constant (mem_constants_of_replaceRule atPlace sameHead member)

/-- Under any limits a rule set and the one with a loosened rule evaluate alike. -/
theorem alike_loosened (limits : Limits) :
    Alike FactStore.SameContent (ruleSet.evaluate limits)
      ((ruleSet.replaceRule place loosening.result).evaluate limits) := by
  have similar := similarDefinitions_loosened compiled atPlace loosening
  have otherChecked := check_eq_ok_iff.2 (consistent_loosened compiled atPlace loosening)
  apply Alike.of_forall
  · exact fun store isOk => similar.exists_evaluate otherChecked isOk
  · intro otherStore isOtherOk
    obtain ⟨_, _, _, rfl, means, _⟩ := exists_means_of_compile compiled
    obtain ⟨store, isOk, _⟩ :=
      similar.symm.exists_evaluate (check_eq_ok_iff.2 means.consistent) isOtherOk
    exact ⟨store, isOk⟩

/-- A rule set with a loosened rule is accepted. Under the same limits it and the rule set
evaluate alike, and whenever both evaluate successfully, under whatever limits, their stores
have the same content. -/
theorem evaluate_loosened :
    (ruleSet.replaceRule place loosening.result).check = .ok () ∧
      (∃ stratification,
        stratify (ruleSet.replaceRule place loosening.result) = .ok stratification) ∧
      (∀ limits, Alike FactStore.SameContent (ruleSet.evaluate limits)
        ((ruleSet.replaceRule place loosening.result).evaluate limits)) ∧
      ∀ limits otherLimits store otherStore, ruleSet.evaluate limits = .ok store →
        (ruleSet.replaceRule place loosening.result).evaluate otherLimits = .ok otherStore →
        store.SameContent otherStore := by
  have similar := similarDefinitions_loosened compiled atPlace loosening
  refine ⟨check_eq_ok_iff.2 (consistent_loosened compiled atPlace loosening), ?_, ?_, ?_⟩
  · obtain ⟨_, _, _, rfl, _, _, accepted⟩ := exists_means_of_compile compiled
    exact similar.exists_stratify accepted
  · exact alike_loosened compiled atPlace loosening
  · exact fun _ _ _ _ isOk isOtherOk => similar.sameContent isOk isOtherOk

end Compiled

/-- Paths through places that are numbered with and without points. -/
def routes : String :=
  "edge(0, 1). edge(1.0, 2). edge(2, 2.5).
   path(X, Y) :- edge(X, Y). path(X, Z) :- path(X, Y), edge(Y, Z)."

/-- The rule of `routes` that goes one edge further. -/
def routeStep : Rule :=
  ⟨⟨"path", .ordered [.var "X", .var "Z"]⟩,
    [⟨"path", .ordered [.var "X", .var "Y"]⟩, ⟨"edge", .ordered [.var "Y", .var "Z"]⟩], [], []⟩

/-- `path(X, Z) :- path(X, Y), edge(W, Z), Y = W.` -/
def routeStepLoosening : routeStep.Loosening where
  before := [⟨"path", .ordered [.var "X", .var "Y"]⟩]
  atom := ⟨"edge", .ordered [.var "Y", .var "Z"]⟩
  after := []
  place := 0
  term := .var "Y"
  fresh := "W"
  constraint := ⟨"Y", .equal, .var "W"⟩
  split := rfl
  atPlace := rfl
  isFresh := by decide
  equates := rfl
  elsewhere name isTerm := by
    cases isTerm
    exact ⟨_, List.mem_cons_self, by decide⟩

/-- The paths of `routes` are the same with the loosened rule. -/
theorem evaluate_loosened_routeStep :
    ∃ ruleSet store otherStore, compile routes = .ok ruleSet ∧
      ruleSet.rules[1]? = some routeStep ∧ ruleSet.evaluate .standard = .ok store ∧
      (ruleSet.replaceRule 1 routeStepLoosening.result).evaluate .standard = .ok otherStore ∧
      (ruleSet.replaceRule 1 routeStepLoosening.result).check = .ok () ∧
      (∃ stratification,
        stratify (ruleSet.replaceRule 1 routeStepLoosening.result) = .ok stratification) ∧
      store.SameContent otherStore := by
  have evaluated : (do
      let ruleSet ← compile routes
      let _ ← ruleSet.evaluate .standard
      let _ ← (ruleSet.replaceRule 1 routeStepLoosening.result).evaluate .standard
      return decide (ruleSet.rules[1]? = some routeStep) : Except Error Bool) = .ok true := by
    decide +kernel
  obtain ⟨ruleSet, compiled, evaluated⟩ := bind_eq_ok_iff.1 evaluated
  obtain ⟨store, isOk, evaluated⟩ := bind_eq_ok_iff.1 evaluated
  obtain ⟨otherStore, isOtherOk, evaluated⟩ := bind_eq_ok_iff.1 evaluated
  have atPlace : ruleSet.rules[1]? = some routeStep := of_decide_eq_true (Except.ok.inj evaluated)
  obtain ⟨checked, accepted, _, same⟩ := evaluate_loosened compiled atPlace routeStepLoosening
  exact ⟨ruleSet, store, otherStore, compiled, atPlace, isOk, isOtherOk, checked, accepted,
    same .standard .standard store otherStore isOk isOtherOk⟩

end Datalog.RuleSet
