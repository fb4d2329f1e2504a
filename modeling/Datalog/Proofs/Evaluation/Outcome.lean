import Datalog.Proofs.Evaluation.StratifiedModel
import Datalog.Proofs.RuleSet.Draft

/-!
# How evaluation ends

A rule set is evaluated in three steps: the check, the stratification and the run, of which
only the run depends on limits. So a fault is reported whatever the limits are
(`RuleSet.evaluate_eq_faulty_iff`), and a rule set that compiles, which has passed the first
two steps by then, can only run out of them (`RuleSet.compile_accepted_and_faulty_iff`).
-/

namespace Datalog.RuleSet

variable {ruleSet : RuleSet} {limits : Limits}

/-- A check that fails reports a fault. -/
theorem exists_fault_of_check {error : Error} (isError : ruleSet.check = .error error) :
    ∃ fault, error = .faulty fault none := by
  rw [check] at isError
  split at isError
  next fault _ =>
    cases isError
    exact ⟨fault, rfl⟩
  next => cases isError

/-- An evaluation fails with the first of its steps that fails. -/
theorem evaluate_eq_error_iff {error : Error} :
    ruleSet.evaluate limits = .error error ↔
      ruleSet.check = .error error ∨ ruleSet.check = .ok () ∧
        ((∃ cycle, stratify ruleSet = .error cycle ∧ .faulty cycle.fault none = error) ∨
          ∃ stratification, stratify ruleSet = .ok stratification ∧
            ∃ exhaustion, ruleSet.run limits stratification = .error exhaustion ∧
              .exhausted exhaustion = error) := by
  simp only [evaluate, bind_eq_error_iff, mapError_eq_error_iff, mapError_eq_ok_iff]
  apply or_congr_right
  constructor
  · rintro ⟨_, checked, fails⟩
    exact ⟨checked, fails⟩
  · rintro ⟨checked, fails⟩
    exact ⟨(), checked, fails⟩

/-- An evaluation reports a fault if the check or the stratification does, the same one under
all limits. -/
theorem evaluate_eq_faulty_iff {fault : Fault} {position : Option Position} :
    ruleSet.evaluate limits = .error (.faulty fault position) ↔
      ruleSet.check = .error (.faulty fault position) ∨ ruleSet.check = .ok () ∧
        ∃ cycle, stratify ruleSet = .error cycle ∧ .faulty cycle.fault none =
          Error.faulty fault position := by
  rw [evaluate_eq_error_iff]
  apply or_congr_right
  apply and_congr_right
  intro _
  apply or_iff_left
  rintro ⟨_, _, exhaustion, _, impossible⟩
  cases impossible

/-- An evaluation reports a fault if the check or the stratification fails. -/
theorem exists_evaluate_faulty_iff :
    (∃ fault position, ruleSet.evaluate limits = .error (.faulty fault position)) ↔
      (∃ error, ruleSet.check = .error error) ∨ ∃ cycle, stratify ruleSet = .error cycle := by
  simp only [evaluate_eq_faulty_iff]
  constructor
  · rintro ⟨fault, position, checkFails | ⟨_, cycle, unstratifiable, _⟩⟩
    · exact .inl ⟨_, checkFails⟩
    · exact .inr ⟨cycle, unstratifiable⟩
  · intro fails
    cases checked : ruleSet.check with
    | error error =>
        obtain ⟨fault, rfl⟩ := exists_fault_of_check checked
        exact ⟨fault, none, .inl rfl⟩
    | ok =>
        rcases fails with ⟨error, impossible⟩ | ⟨cycle, unstratifiable⟩
        · rw [checked] at impossible
          cases impossible
        · exact ⟨cycle.fault, none, .inr ⟨rfl, cycle, unstratifiable, rfl⟩⟩

/-- A rule set that is checked and has strata is evaluated or reaches a limit. -/
theorem evaluate_of_accepted (checked : ruleSet.check = .ok ())
    {stratification : Stratification} (accepted : stratify ruleSet = .ok stratification)
    (limits : Limits) :
    (∃ store, ruleSet.evaluate limits = .ok store) ∨
      ∃ exhaustion, ruleSet.evaluate limits = .error (.exhausted exhaustion) := by
  cases isRun : ruleSet.run limits stratification with
  | ok store =>
      left
      exact ⟨store, evaluate_eq_ok_iff.2 ⟨checked, stratification, accepted, isRun⟩⟩
  | error exhaustion =>
      right
      refine ⟨exhaustion, evaluate_eq_error_iff.2 (.inr ⟨checked, .inr ?_⟩)⟩
      exact ⟨stratification, accepted, exhaustion, isRun, rfl⟩

/-- Whatever compiles is accepted by the check and has strata, so its evaluation succeeds or
reaches a limit; and any evaluation reports a fault exactly if the check or the stratification
fails, whatever the limits. -/
theorem compile_accepted_and_faulty_iff :
    (∀ source ruleSet, compile source = .ok ruleSet →
      ruleSet.check = .ok () ∧ (∃ stratification, stratify ruleSet = .ok stratification) ∧
        ∀ limits, (∃ store, ruleSet.evaluate limits = .ok store) ∨
          ∃ exhaustion, ruleSet.evaluate limits = .error (.exhausted exhaustion)) ∧
      ∀ (ruleSet : RuleSet) (limits : Limits),
        (∃ fault position, ruleSet.evaluate limits = .error (.faulty fault position)) ↔
          (∃ error, ruleSet.check = .error error) ∨ ∃ cycle, stratify ruleSet = .error cycle := by
  constructor
  · intro source ruleSet isCompiled
    obtain ⟨_, draft, _, rfl, means, stratification, accepted⟩ :=
      exists_means_of_compile isCompiled
    have checked : draft.ruleSet.check = .ok () := check_eq_ok_iff.2 means.consistent
    exact ⟨checked, ⟨stratification, accepted⟩, evaluate_of_accepted checked accepted⟩
  · intro ruleSet limits
    exact exists_evaluate_faulty_iff

/-- A source with recursion and negation compiles, so no limits make its evaluation report a
fault. -/
theorem exists_compile_accepted :
    ∃ ruleSet, compile "next(0, 1). even(0). odd(X) :- even(Y), next(Y, X).
      even(X) :- odd(Y), next(Y, X). pure(X) :- even(X), not odd(X)." = .ok ruleSet ∧
      ruleSet.check = .ok () ∧ (∃ stratification, stratify ruleSet = .ok stratification) ∧
        ∀ limits, (∃ store, ruleSet.evaluate limits = .ok store) ∨
          ∃ exhaustion, ruleSet.evaluate limits = .error (.exhausted exhaustion) := by
  have succeeds : (compile "next(0, 1). even(0). odd(X) :- even(Y), next(Y, X).
      even(X) :- odd(Y), next(Y, X). pure(X) :- even(X), not odd(X).").isOk = true := by
    decide +kernel
  cases isCompiled : compile "next(0, 1). even(0). odd(X) :- even(Y), next(Y, X).
      even(X) :- odd(Y), next(Y, X). pure(X) :- even(X), not odd(X)." with
  | error error =>
      rw [isCompiled] at succeeds
      cases succeeds
  | ok ruleSet =>
      exact ⟨ruleSet, rfl, compile_accepted_and_faulty_iff.1 _ ruleSet isCompiled⟩

end Datalog.RuleSet
