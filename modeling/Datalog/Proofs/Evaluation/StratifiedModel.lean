import Datalog.Proofs.Evaluation.Closure

/-!
# Evaluation computes the stratified model

Whatever the limits, a store that evaluation returns lists the facts of the stratified model
of the rule set, each under some representation, and no others.
-/

namespace Datalog.RuleSet

/-- An evaluation that succeeds has checked and stratified the rule set and run its strata. -/
theorem evaluate_eq_ok_iff {ruleSet : RuleSet} {limits : Limits} {store : FactStore} :
    ruleSet.evaluate limits = .ok store ↔
      ruleSet.check = .ok () ∧ ∃ stratification, stratify ruleSet = .ok stratification ∧
        ruleSet.run limits stratification = .ok store := by
  rw [evaluate, bind_eq_ok_iff]
  simp only [bind_eq_ok_iff, mapError_eq_ok_iff]
  constructor
  · rintro ⟨_, checked, stratification, accepted, isRun⟩
    exact ⟨checked, stratification, accepted, isRun⟩
  · rintro ⟨checked, stratification, accepted, isRun⟩
    exact ⟨(), checked, stratification, accepted, isRun⟩

/-- A store that evaluation returns is well-formed, and its content is the stratified model. -/
theorem exists_facts_eq_of_evaluate {ruleSet : RuleSet} {limits : Limits} {store : FactStore}
    (isOk : ruleSet.evaluate limits = .ok store) :
    ∃ stratification, stratify ruleSet = .ok stratification ∧ store.WellFormed ∧
      store.facts = ruleSet.stratifiedModel stratification.strata := by
  obtain ⟨checked, stratification, accepted, isRun⟩ := evaluate_eq_ok_iff.1 isOk
  exact ⟨stratification, accepted,
    facts_eq_of_run (semipositive_rulesOf checked accepted) isRun⟩

/-- The facts of an evaluation are those of the stratified model. -/
theorem evaluate_eq_stratifiedModel {ruleSet : RuleSet} {limits : Limits} {store : FactStore}
    (isOk : ruleSet.evaluate limits = .ok store) :
    ∃ stratification, stratify ruleSet = .ok stratification ∧
      ∀ fact, (∃ stored ∈ store.allFacts, (stored == fact) = true) ↔
        fact ∈ ruleSet.stratifiedModel stratification.strata := by
  obtain ⟨stratification, accepted, wellFormed, isModel⟩ := exists_facts_eq_of_evaluate isOk
  refine ⟨stratification, accepted, fun fact => ?_⟩
  rw [wellFormed.exists_mem_allFacts_iff, isModel]

/-- The evaluation of `parity` derives that two is even, through a mutual recursion and two
writings of one, and then that it is not odd; its store lists the facts of the stratified
model. -/
theorem exists_evaluate_parity :
    ∃ store, parity.evaluate .standard = .ok store ∧
      (∀ derived ∈ ([⟨"odd", [.int 1]⟩, ⟨"even", [.int 2]⟩, ⟨"pure", [.int 2]⟩] : List Fact),
        (∃ stored ∈ store.allFacts, (stored == derived) = true) ∧
          ¬ ∃ stated ∈ parity.facts.toList, (stated == derived) = true) ∧
      ∃ stratification, stratify parity = .ok stratification ∧
        ∀ fact, (∃ stored ∈ store.allFacts, (stored == fact) = true) ↔
          fact ∈ parity.stratifiedModel stratification.strata := by
  have evaluated : (do
      let store ← parity.evaluate .standard
      return decide (∀ derived ∈ ([⟨"odd", [.int 1]⟩, ⟨"even", [.int 2]⟩,
        ⟨"pure", [.int 2]⟩] : List Fact),
          (∃ stored ∈ store.allFacts, (stored == derived) = true) ∧
            ¬ ∃ stated ∈ parity.facts.toList, (stated == derived) = true) : Except Error Bool) =
      .ok true := by
    decide +kernel
  obtain ⟨store, isOk, evaluated⟩ := bind_eq_ok_iff.1 evaluated
  exact ⟨store, isOk, of_decide_eq_true (Except.ok.inj evaluated),
    evaluate_eq_stratifiedModel isOk⟩

end Datalog.RuleSet
