import Datalog.Proofs.Evaluation.Outcome
import Datalog.Proofs.Evaluation.Termination

/-!
# Limits decide success, not the answer

An evaluation looks at its limits only to refuse a new fact or a further pass. So what it
finds under some limits stands under others that refuse no more (`Limits.Upholds`): a result
under wider ones, and a full store under any number of passes. Whether the store has room for
everything is a question about the size of the model (`RuleSet.limited_stratifiedModel`).
-/

namespace Datalog

/-- An answer under some limits is not put in question by others: a result is not where there
is as much room for facts, and a full store is not where there is no more. Running out of
passes always is. -/
inductive Limits.Upholds (limits more : Limits) {α : Type} : Except Exhaustion α → Prop where
  | result {found : α} (room : limits.maxFacts ≤ more.maxFacts) : Upholds limits more (.ok found)
  | full {limit : Nat} {relation : String} (sameRoom : limits.maxFacts = more.maxFacts) :
      Upholds limits more (.error (.facts limit relation))

namespace Limits.Upholds

variable {α β : Type} {limits more : Limits}

/-- What is upheld has as much room. -/
theorem room {answer : Except Exhaustion α} (upheld : limits.Upholds more answer) :
    limits.maxFacts ≤ more.maxFacts := by
  cases upheld with
  | result room => exact room
  | full sameRoom => exact sameRoom.le

/-- A chain of two steps has the same answer if each step has the same where that is upheld. -/
theorem bind {first other : Except Exhaustion α} {next otherNext : α → Except Exhaustion β}
    (upheld : limits.Upholds more (first >>= next))
    (sameFirst : limits.Upholds more first → other = first)
    (sameNext : ∀ found, limits.Upholds more (next found) → otherNext found = next found) :
    other >>= otherNext = first >>= next := by
  cases first with
  | error exhaustion =>
      have firstUpheld : limits.Upholds more (.error exhaustion : Except Exhaustion α) := by
        cases upheld with
        | full sameRoom => exact .full sameRoom
      rw [sameFirst firstUpheld]
      rfl
  | ok found =>
      rw [sameFirst (.result upheld.room)]
      exact sameNext found upheld

/-- A fact is added, or refused, alike. -/
theorem addFact {store : FactStore} {fact : Fact}
    (upheld : limits.Upholds more (limits.addFact store fact)) :
    more.addFact store fact = limits.addFact store fact := by
  have room := upheld.room
  unfold Limits.addFact at upheld ⊢
  split
  next => rfl
  next absent =>
    rw [if_neg absent] at upheld
    by_cases full : limits.maxFacts ≤ store.size
    · rw [if_pos full] at upheld ⊢
      cases upheld with
      | full sameRoom => rw [← sameRoom, if_pos full]
    · rw [if_neg full, if_neg (fun fullToo => full (room.trans fullToo))]

/-- Facts are added, or refused, alike. -/
theorem addFacts {facts : List Fact} {store : FactStore} {added : Nat}
    (upheld : limits.Upholds more (limits.addFacts facts store added)) :
    more.addFacts facts store added = limits.addFacts facts store added := by
  induction facts generalizing store added with
  | nil => rfl
  | cons fact facts inductionHypothesis =>
      exact upheld.bind addFact fun _ => inductionHypothesis

/-- A stratum is closed alike if as many passes are allowed. -/
theorem closeStratum {number : Nat} {rules : List Rule} {budget wider : Nat}
    (within : budget ≤ wider) {previous : Option Snapshot} {store : FactStore}
    (upheld : limits.Upholds more (limits.closeStratum number rules budget previous store)) :
    more.closeStratum number rules wider previous store =
      limits.closeStratum number rules budget previous store := by
  induction budget generalizing wider previous store with
  | zero => cases upheld
  | succ budget inductionHypothesis =>
      obtain ⟨wider, rfl⟩ := Nat.exists_eq_add_of_le' (Nat.zero_lt_of_lt within)
      refine upheld.bind addFacts ?_
      rintro ⟨after, added⟩ upheld
      by_cases nothing : added = 0
      · simp only [if_pos nothing]
      · simp only [if_neg nothing] at upheld ⊢
        exact inductionHypothesis (Nat.le_of_succ_le_succ within) upheld

/-- Strata are closed alike if as many passes are allowed. -/
theorem closeStrata {ruleSet : RuleSet} (within : limits.maxPasses ≤ more.maxPasses)
    {strata : List Stratum} {number : Nat} {store : FactStore}
    (upheld : limits.Upholds more (ruleSet.closeStrata limits number strata store)) :
    ruleSet.closeStrata more number strata store =
      ruleSet.closeStrata limits number strata store := by
  induction strata generalizing number store with
  | nil => rfl
  | cons stratum strata inductionHypothesis =>
      exact upheld.bind (closeStratum within) fun _ => inductionHypothesis

/-- A run has the same answer if as many passes are allowed. -/
theorem run {ruleSet : RuleSet} {stratification : Stratification}
    (within : limits.maxPasses ≤ more.maxPasses)
    (upheld : limits.Upholds more (ruleSet.run limits stratification)) :
    ruleSet.run more stratification = ruleSet.run limits stratification :=
  upheld.bind addFacts fun _ => closeStrata within

end Limits.Upholds

namespace RuleSet

variable {ruleSet : RuleSet} {limits more : Limits} {stratification : Stratification}

/-- An evaluation that succeeds gives the same store under wider limits. -/
theorem evaluate_of_le {store : FactStore} (isOk : ruleSet.evaluate limits = .ok store)
    (room : limits.maxFacts ≤ more.maxFacts) (within : limits.maxPasses ≤ more.maxPasses) :
    ruleSet.evaluate more = .ok store := by
  obtain ⟨checked, stratification, accepted, isRun⟩ := evaluate_eq_ok_iff.1 isOk
  have upheld : limits.Upholds more (ruleSet.run limits stratification) := by
    rw [isRun]
    exact .result room
  exact evaluate_eq_ok_iff.2 ⟨checked, stratification, accepted, (upheld.run within).trans isRun⟩

/-- Where one pass more is allowed than the model has facts, a run succeeds if there is room
for the model. -/
theorem exists_run_iff_fits
    (semipositive : ∀ stratum ∈ stratification.strata, Semipositive (ruleSet.rulesOf stratum))
    (time : (canonical '' ruleSet.stratifiedModel stratification.strata).encard + 1 ≤
      limits.maxPasses) :
    (∃ store, ruleSet.run limits stratification = .ok store) ↔
      limits.Fits (ruleSet.stratifiedModel stratification.strata) := by
  refine (exists_run_iff semipositive).trans (and_iff_left ?_)
  intro before stratum isBefore
  have positive : (1 : ENat) ≤ limits.maxPasses := le_add_self.trans time
  obtain ⟨bound, isBound⟩ := Nat.exists_eq_add_of_le' (Nat.one_le_cast.1 positive)
  have atMost : (canonical '' ruleSet.stratifiedModel stratification.strata).encard ≤ bound := by
    rw [isBound, Nat.cast_add, Nat.cast_one] at time
    exact (ENat.add_le_add_iff_right ENat.one_ne_top).1 time
  have ofStratum := (Set.encard_le_encard
    (Set.image_mono (stratifiedModel_before_subset isBefore))).trans atMost
  rw [stratifiedModel_concat] at ofStratum
  rw [isBound]
  exact settles_of_encard_le (respectful_stratifiedModel before) ofStratum

/-- A run that finds the store full has no room for the model. -/
theorem not_fits_of_full
    (semipositive : ∀ stratum ∈ stratification.strata, Semipositive (ruleSet.rulesOf stratum))
    {limit : Nat} {relation : String}
    (isFull : ruleSet.run limits stratification = .error (.facts limit relation)) :
    ¬ limits.Fits (ruleSet.stratifiedModel stratification.strata) := by
  intro fits
  -- With passes enough for the whole model the run would find the store full as well.
  let more : Limits := ⟨limits.maxFacts, max limits.maxPasses (limits.maxFacts + 1)⟩
  have upheld : limits.Upholds more (ruleSet.run limits stratification) := by
    rw [isFull]
    exact .full rfl
  have time : (canonical '' ruleSet.stratifiedModel stratification.strata).encard + 1 ≤
      more.maxPasses :=
    calc _ ≤ (limits.maxFacts : ENat) + 1 := add_le_add_left fits 1
      _ = (limits.maxFacts + 1 : Nat) := by rw [Nat.cast_add, Nat.cast_one]
      _ ≤ more.maxPasses := Nat.cast_le.2 (le_max_right _ _)
  obtain ⟨store, isRun⟩ := (exists_run_iff_fits semipositive time).2 fits
  rw [upheld.run (le_max_left _ _), isFull] at isRun
  cases isRun

/-- Limits decide whether the evaluation of a rule set with some model succeeds, and nothing
about its answer. -/
structure Limited (ruleSet : RuleSet) (model : Set Fact) : Prop where
  /-- A store that is found under some limits is found under wider ones. -/
  evaluate_of_le : ∀ limits more : Limits, ∀ store, ruleSet.evaluate limits = .ok store →
    limits.maxFacts ≤ more.maxFacts → limits.maxPasses ≤ more.maxPasses →
      ruleSet.evaluate more = .ok store
  /-- A store has all facts of the model, each of them once, and they are within the limit. -/
  size_le : ∀ limits store, ruleSet.evaluate limits = .ok store →
    store.allFacts.length = store.size ∧ (canonical '' model).encard = store.size ∧
      store.size ≤ limits.maxFacts
  /-- A store is full only if the model has more facts than the limit. -/
  lt_of_full : ∀ limits limit relation,
    ruleSet.evaluate limits = .error (.exhausted (.facts limit relation)) →
      limits.maxFacts < (canonical '' model).encard
  /-- With one pass more than there are facts, the evaluation succeeds if these are within the
  limit, and only then. -/
  exists_evaluate_iff : ∀ limits : Limits, (canonical '' model).encard + 1 ≤ limits.maxPasses →
    ((∃ store, ruleSet.evaluate limits = .ok store) ↔
      (canonical '' model).encard ≤ limits.maxFacts)

/-- Limits decide whether an accepted rule set is evaluated successfully, and nothing about
the answer. -/
theorem limited_stratifiedModel (checked : ruleSet.check = .ok ())
    (accepted : stratify ruleSet = .ok stratification) :
    ruleSet.Limited (ruleSet.stratifiedModel stratification.strata) := by
  have semipositive := semipositive_rulesOf checked accepted
  have isOk_iff (limits : Limits) (store : FactStore) : ruleSet.evaluate limits = .ok store ↔
      ruleSet.run limits stratification = .ok store := by
    rw [evaluate_eq_ok_iff, accepted]
    simp [checked]
  constructor
  · exact fun limits more store isOk room within => evaluate_of_le isOk room within
  · intro limits store isOk
    have isRun := (isOk_iff limits store).1 isOk
    obtain ⟨wellFormed, isModel⟩ := facts_eq_of_run semipositive isRun
    obtain ⟨fits, _⟩ := (exists_run_iff semipositive).1 ⟨store, isRun⟩
    rw [← isModel] at fits ⊢
    exact ⟨wellFormed.length_allFacts, wellFormed.encard_eq, wellFormed.size_le_iff.2 fits⟩
  · intro limits limit relation isFull
    rcases evaluate_eq_error_iff.1 isFull with checkFails | ⟨_, unstratifiable | isRun⟩
    · rw [checked] at checkFails
      cases checkFails
    · obtain ⟨_, _, impossible⟩ := unstratifiable
      cases impossible
    · obtain ⟨found, isFound, exhaustion, isRun, same⟩ := isRun
      cases accepted.symm.trans isFound
      cases same
      exact not_le.1 (not_fits_of_full semipositive isRun)
  · intro limits time
    simp only [isOk_iff]
    exact exists_run_iff_fits semipositive time

/-- The limits on an evaluation of the rule set of even and odd numbers. -/
theorem limited_parity :
    parity.check = .ok () ∧ stratify parity = .ok parityStrata ∧
      parity.Limited (parity.stratifiedModel parityStrata.strata) := by
  have checked : parity.check = .ok () := by decide +kernel
  have accepted : stratify parity = .ok parityStrata := by decide +kernel
  exact ⟨checked, accepted, limited_stratifiedModel checked accepted⟩

end RuleSet

end Datalog
