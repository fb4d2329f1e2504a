import Datalog.Proofs.Evaluation.Candidates

/-!
# Evaluation ends

Every pass but the last adds a fact, so a stratum cannot use more passes than one and the
number of facts that it adds. All facts are among the candidates of the rule set, so limits
that leave room for `RuleSet.factBound` facts and one pass more are never reached
(`RuleSet.evaluate_of_factBound_le`).
-/

namespace Datalog

section Stages

variable {rules : List Rule} {lower : Set Fact} {count : Nat}

/-- A stage that is not settled is followed by one with more facts. -/
theorem encard_stage_succ (respectful : Respectful lower)
    (unsettled : ¬ Settled rules lower count) :
    (canonical '' stage rules lower count).encard + 1 ≤
      (canonical '' stage rules lower (count + 1)).encard := by
  obtain ⟨fact, derived, isNew⟩ := Set.not_subset.1 unsettled
  have absent : canonical fact ∉ canonical '' stage rules lower count := by
    rintro ⟨found, inStage, same⟩
    exact isNew (respectful_stage respectful count found inStage fact (Canonical.beq_iff.2 same))
  rw [← Set.encard_insert_of_notMem absent]
  apply Set.encard_le_encard
  apply Set.insert_subset
  · exact Set.mem_image_of_mem canonical (.inr derived)
  · exact Set.image_mono Set.subset_union_left

/-- As long as no stage is settled, each has a fact more than the one before. -/
theorem encard_lower_add_le (respectful : Respectful lower)
    (unsettled : ∀ earlier < count, ¬ Settled rules lower earlier) :
    (canonical '' lower).encard + count ≤ (canonical '' stage rules lower count).encard := by
  induction count with
  | zero => simp [stage]
  | succ count inductionHypothesis =>
      have before := inductionHypothesis fun earlier isEarlier => unsettled earlier (by omega)
      have grows := encard_stage_succ respectful (unsettled count (Nat.lt_succ_self count))
      rw [Nat.cast_add, Nat.cast_one, ← add_assoc]
      exact (add_le_add_left before 1).trans grows

/-- Rules settle within one stage more than their model has facts. -/
theorem settles_of_encard_le (respectful : Respectful lower) {bound : Nat}
    (atMost : (canonical '' leastModel rules lower).encard ≤ bound) :
    Settles rules lower (bound + 1) := by
  by_contra unsettled
  have grown : (canonical '' lower).encard + (bound + 1 : Nat) ≤
      (canonical '' stage rules lower (bound + 1)).encard :=
    encard_lower_add_le respectful fun earlier isEarlier settled =>
      unsettled ⟨earlier, isEarlier, settled⟩
  have inModel := Set.encard_le_encard
    (Set.image_mono (f := canonical) (stage_subset_leastModel rules lower (bound + 1)))
  have tooMany : ((bound + 1 : Nat) : ENat) ≤ bound :=
    le_add_self.trans (grown.trans (inModel.trans atMost))
  have impossible : bound + 1 ≤ bound := Nat.cast_le.1 tooMany
  omega

end Stages

section Passes

variable {strategy : Strategy} {limits : Limits} {rules : List Rule} {start closed : FactStore}

/-- Each pass that has another one after it adds a fact. -/
theorem Begins.size_add_length_le {passes : List Pass}
    (begun : Begins strategy limits rules start passes) {pass : Pass} {earlier : List Pass}
    (split : passes = pass :: earlier) : start.size + earlier.length ≤ pass.store.size := by
  induction begun generalizing pass earlier with
  | first =>
      cases split
      exact Nat.le_refl _
  | @next before earlier after added begun isOutcome isNew inductionHypothesis =>
      cases split
      have grown := inductionHypothesis rfl
      obtain ⟨⟨rfl, isCount⟩, _⟩ := Pass.outcome_eq_ok_iff.1 isOutcome
      rw [List.length_cons]
      dsimp only
      omega

/-- A stratum that is closed at all is closed within one pass more than it adds facts. -/
theorem closeStratum_within_added {number budget : Nat}
    (isClosed : limits.closeStratum number rules budget none start = .ok closed) :
    ∃ added, closed.size = start.size + added ∧
      limits.closeStratum number rules (added + 1) none start = .ok closed := by
  rw [← Strategy.close_semiNaive limits number rules budget ⟨none, start⟩,
    Strategy.close_eq_ok_iff] at isClosed
  obtain ⟨pass, earlier, begun, _, isOutcome⟩ := isClosed
  have isLast : closed = pass.store := (Pass.eq_of_outcome isOutcome).1
  have grown := begun.size_add_length_le rfl
  rw [← isLast] at grown
  refine ⟨closed.size - start.size, by omega, ?_⟩
  rw [← Strategy.close_semiNaive limits number rules _ ⟨none, start⟩, Strategy.close_eq_ok_iff]
  exact ⟨pass, earlier, begun, by omega, isOutcome⟩

end Passes

namespace RuleSet

variable {ruleSet : RuleSet} {limits : Limits} {stratification : Stratification}

/-- Limits that leave room for every candidate and for one pass more are not reached. -/
theorem exists_run_of_factBound_le (declared : ruleSet.Declared)
    (checked : ruleSet.check = .ok ()) (accepted : stratify ruleSet = .ok stratification)
    (room : ruleSet.factBound ≤ limits.maxFacts) (time : ruleSet.factBound < limits.maxPasses) :
    ∃ store, ruleSet.run limits stratification = .ok store := by
  have consistent := check_eq_ok_iff.1 checked
  have bounded := encard_stratifiedModel_le declared consistent
  apply (exists_run_iff (semipositive_rulesOf checked accepted)).2
  constructor
  · exact (bounded stratification.strata).trans (Nat.cast_le.2 room)
  · intro before stratum _
    have ofStratum := bounded (before ++ [stratum])
    rw [stratifiedModel_concat] at ofStratum
    obtain ⟨count, inBound, settled⟩ :=
      settles_of_encard_le (respectful_stratifiedModel before) ofStratum
    exact ⟨count, by omega, settled⟩

/-- A run stores no more facts than there are candidates. -/
theorem size_le_factBound (declared : ruleSet.Declared) (checked : ruleSet.check = .ok ())
    (accepted : stratify ruleSet = .ok stratification) {store : FactStore}
    (isRun : ruleSet.run limits stratification = .ok store) : store.size ≤ ruleSet.factBound := by
  obtain ⟨wellFormed, isModel⟩ := facts_eq_of_run (semipositive_rulesOf checked accepted) isRun
  have bounded := encard_stratifiedModel_le declared (check_eq_ok_iff.1 checked)
    stratification.strata
  rw [← isModel, wellFormed.encard_eq] at bounded
  exact Nat.cast_le.1 bounded

/-- A run over all strata has run over the strata before each of them. -/
theorem exists_run_prefix {strata : List Stratum} {store : FactStore}
    (isRun : ruleSet.run limits ⟨strata⟩ = .ok store) {before : List Stratum}
    (isBefore : before <+: strata) : ∃ start, ruleSet.run limits ⟨before⟩ = .ok start := by
  obtain ⟨after, rfl⟩ := isBefore
  induction after using List.reverseRecOn generalizing store with
  | nil => exact ⟨store, by rwa [List.append_nil] at isRun⟩
  | append_singleton after stratum inductionHypothesis =>
      rw [← List.append_assoc, run_concat] at isRun
      obtain ⟨below, isBelow, _⟩ := bind_eq_ok_iff.1 isRun
      exact inductionHypothesis isBelow

/-- A rule set that is checked and has strata is evaluated successfully under all limits that
leave room for as many facts as there are candidates and for one pass more. Each stratum is
closed within one pass more than it adds facts. -/
theorem evaluate_of_factBound_le (constructed : ruleSet.Constructed)
    (checked : ruleSet.check = .ok ()) (accepted : stratify ruleSet = .ok stratification)
    (room : ruleSet.factBound ≤ limits.maxFacts)
    (time : ruleSet.factBound + 1 ≤ limits.maxPasses) :
    ∃ store, ruleSet.evaluate limits = .ok store ∧ store.size ≤ ruleSet.factBound ∧
      ∀ before stratum, before ++ [stratum] <+: stratification.strata →
        ∃ start closed added, ruleSet.run limits ⟨before⟩ = .ok start ∧
          ruleSet.run limits ⟨before ++ [stratum]⟩ = .ok closed ∧
          closed.size = start.size + added ∧
          limits.closeStratum (1 + before.length) (ruleSet.rulesOf stratum) (added + 1) none
            start = .ok closed := by
  have declared := constructed.declared
  obtain ⟨store, isRun⟩ := exists_run_of_factBound_le declared checked accepted room time
  refine ⟨store, evaluate_eq_ok_iff.2 ⟨checked, stratification, accepted, isRun⟩, ?_, ?_⟩
  · exact size_le_factBound declared checked accepted isRun
  · intro before stratum isBefore
    obtain ⟨closed, isClosed⟩ := exists_run_prefix isRun isBefore
    obtain ⟨start, isStart, isStratum⟩ := bind_eq_ok_iff.1 (run_concat before stratum ▸ isClosed)
    obtain ⟨added, isSize, within⟩ := closeStratum_within_added isStratum
    exact ⟨start, closed, added, isStart, isClosed, isSize, within⟩

/-- Three constants, which fill three relations with one place and one with two, let `parity`
be evaluated with room for eighteen facts. -/
theorem exists_evaluate_parity_of_factBound :
    parity.Constructed ∧ parity.check = .ok () ∧ stratify parity = .ok parityStrata ∧
      parity.factBound = 18 ∧ ∃ store, parity.evaluate ⟨18, 19⟩ = .ok store ∧
        store.size ≤ parity.factBound ∧
        ∀ before stratum, before ++ [stratum] <+: parityStrata.strata →
          ∃ start closed added, parity.run ⟨18, 19⟩ ⟨before⟩ = .ok start ∧
            parity.run ⟨18, 19⟩ ⟨before ++ [stratum]⟩ = .ok closed ∧
            closed.size = start.size + added ∧
            (Limits.mk 18 19).closeStratum (1 + before.length) (parity.rulesOf stratum)
              (added + 1) none start = .ok closed := by
  have constructed : parity.Constructed :=
    .addRule (.addRule (.addRule (.addFact (.addFact (.addFact .empty _) _) _) _) _) _
  have checked : parity.check = .ok () := by decide +kernel
  have accepted : stratify parity = .ok parityStrata := by decide +kernel
  have bound : parity.factBound = 18 := by decide +kernel
  refine ⟨constructed, checked, accepted, bound, ?_⟩
  apply evaluate_of_factBound_le constructed checked accepted
  · exact bound.le
  · exact (congrArg (· + 1) bound).le

end RuleSet

end Datalog
