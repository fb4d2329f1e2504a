import Datalog.Proofs.Evaluation.Locality
import Datalog.Proofs.Evaluation.SemiNaive

/-!
# Stages of a least model

A least model is approached in stages, each of which adds the consequences of the one before.
The passes over a stratum go through these stages, so whether evaluation succeeds is a
question about sets of facts: every stratum must settle within the passes allowed, and the
model must fit into the store (`RuleSet.exists_run_iff`). Neither depends on the order in
which facts were stored.
-/

namespace Datalog

/-- What rules have derived from the facts below them after some rounds. -/
def stage (rules : List Rule) (lower : Set Fact) : Nat → Set Fact
  | 0 => lower
  | count + 1 => stage rules lower count ∪ consequences rules lower (stage rules lower count)

/-- A stage to which the rules add nothing. -/
def Settled (rules : List Rule) (lower : Set Fact) (count : Nat) : Prop :=
  consequences rules lower (stage rules lower count) ⊆ stage rules lower count

/-- A stage before the given one is settled. -/
def Settles (rules : List Rule) (lower : Set Fact) (budget : Nat) : Prop :=
  ∃ count < budget, Settled rules lower count

/-- A store has room for as many facts, up to representation. -/
def Limits.Fits (limits : Limits) (known : Set Fact) : Prop :=
  (canonical '' known).encard ≤ limits.maxFacts

section Stages

variable {rules others : List Rule} {lower otherLower : Set Fact} {count : Nat}

/-- No stage leaves the least model. -/
theorem stage_subset_leastModel (rules : List Rule) (lower : Set Fact) (count : Nat) :
    stage rules lower count ⊆ leastModel rules lower := by
  have isClosed := (isLeast_leastModel rules lower).1
  induction count with
  | zero => exact isClosed.above
  | succ count inductionHypothesis =>
      exact Set.union_subset inductionHypothesis
        ((consequences_mono inductionHypothesis).trans isClosed.closed)

/-- Stages do not tell representations apart. -/
theorem respectful_stage (respectful : Respectful lower) (count : Nat) :
    Respectful (stage rules lower count) := by
  induction count with
  | zero => exact respectful
  | succ count inductionHypothesis =>
      rintro fact (known | ⟨rule, member, valuation, applies, isHead⟩) other equal
      · exact .inl (inductionHypothesis fact known other equal)
      · exact .inr ⟨rule, member, valuation, applies, BEq.trans isHead equal⟩

section Exchanged

variable {valid : Set Fact} (forth : Exchanges valid rules others)
  (back : Exchanges valid others rules) (isValid : leastModel rules lower ⊆ valid)
  (isOtherValid : leastModel others otherLower ⊆ valid)
include forth back isValid isOtherValid

/-- Interchangeable rules go through stages that agree on what they mention. -/
theorem agreeOn_stage
    (agree : AgreeOn (Mentions rules) lower otherLower) (count : Nat) :
    AgreeOn (Mentions rules) (stage rules lower count) (stage others otherLower count) := by
  induction count with
  | zero => exact agree
  | succ count inductionHypothesis =>
      intro fact mentioned
      refine or_congr (inductionHypothesis fact mentioned) ⟨?_, ?_⟩
      · refine fun derived => forth.consequences_subset ?_ ?_ ?_ derived
        · exact (stage_subset_leastModel rules lower count).trans isValid
        · exact fun other known isMentioned => (inductionHypothesis other isMentioned).1 known
        · exact fun other known isMentioned => (agree other isMentioned).2 known
      · refine fun derived => back.consequences_subset ?_ ?_ ?_ derived
        · exact (stage_subset_leastModel others otherLower count).trans isOtherValid
        · exact fun other known isMentioned =>
            (inductionHypothesis other (back.mentions isMentioned)).2 known
        · exact fun other known isMentioned =>
            (agree other (back.mentions isMentioned)).1 known

/-- Interchangeable rules settle in the same stages over facts that agree on what they
mention. -/
theorem Settled.congr (agree : AgreeOn (Mentions rules) lower otherLower)
    (settled : Settled rules lower count) : Settled others otherLower count := by
  have agreeStage := agreeOn_stage forth back isValid isOtherValid agree count
  intro fact derived
  have mentioned := back.mentions (mentions_of_defines (defines_of_mem_consequences derived))
  refine (agreeStage fact mentioned).1 (settled (back.consequences_subset ?_ ?_ ?_ derived))
  · exact (stage_subset_leastModel others otherLower count).trans isOtherValid
  · exact fun other known isMentioned =>
      (agreeStage other (back.mentions isMentioned)).2 known
  · exact fun other known isMentioned => (agree other (back.mentions isMentioned)).1 known

/-- Interchangeable rules settle together over facts that agree on what they mention. -/
theorem Settles.congr (agree : AgreeOn (Mentions rules) lower otherLower) {budget : Nat}
    (settles : Settles rules lower budget) : Settles others otherLower budget := by
  obtain ⟨count, inBudget, settled⟩ := settles
  exact ⟨count, inBudget, settled.congr forth back isValid isOtherValid agree⟩

end Exchanged

/-- Rules that settle do so in a first stage. -/
theorem Settles.exists_first {budget : Nat} (settles : Settles rules lower budget) :
    ∃ first < budget, Settled rules lower first ∧
      ∀ earlier < first, ¬ Settled rules lower earlier := by
  classical
  obtain ⟨inBudget, settled⟩ := Nat.find_spec settles
  refine ⟨Nat.find settles, inBudget, settled, fun earlier before isSettled => ?_⟩
  exact Nat.find_min settles before ⟨before.trans inBudget, isSettled⟩

/-- What has room leaves room for less. -/
theorem Limits.Fits.mono {limits : Limits} {known more : Set Fact} (fits : limits.Fits more)
    (included : known ⊆ more) : limits.Fits known :=
  (Set.encard_le_encard (Set.image_mono included)).trans fits

end Stages

/-- A well-formed store is within its limit if its content fits. -/
theorem FactStore.WellFormed.size_le_iff {store : FactStore} (wellFormed : store.WellFormed)
    {limits : Limits} : store.size ≤ limits.maxFacts ↔ limits.Fits store.facts := by
  rw [Limits.Fits, wellFormed.encard_eq, Nat.cast_le]

section Passes

variable {limits : Limits} {rules : List Rule} {start : FactStore}

/-- A pass starts with the stage of its number. -/
theorem Begins.facts_eq_stage {passes : List Pass}
    (begun : Begins .semiNaive limits rules start passes) (wellFormed : start.WellFormed)
    (semipositive : Semipositive rules) {pass : Pass} {earlier : List Pass}
    (split : passes = pass :: earlier) :
    pass.store.facts = stage rules start.facts earlier.length := by
  induction begun generalizing pass earlier with
  | first =>
      cases split
      rfl
  | @next before earlier after added begun isOutcome isNew inductionHypothesis =>
      cases split
      have sound := begun.latest_sound wellFormed semipositive
      obtain ⟨⟨rfl, _⟩, _⟩ := Pass.outcome_eq_ok_iff.1 isOutcome
      ext fact
      rw [sound.mem_after_iff semipositive, sound.consequences_eq, inductionHypothesis rfl]
      rfl

/-- A pass adds nothing if it starts with a settled stage. -/
theorem Begins.size_after_eq_iff {pass : Pass} {earlier : List Pass}
    (begun : Begins .semiNaive limits rules start (pass :: earlier))
    (wellFormed : start.WellFormed) (semipositive : Semipositive rules) :
    (pass.after rules).size = pass.store.size ↔ Settled rules start.facts earlier.length := by
  have sound := begun.latest_sound wellFormed semipositive
  have isAfter (fact : Fact) : fact ∈ (pass.after rules).facts ↔ fact ∈ pass.store.facts ∨
      fact ∈ consequences rules start.facts pass.store.facts := by
    rw [sound.mem_after_iff semipositive, sound.consequences_eq]
  rw [Settled, ← begun.facts_eq_stage wellFormed semipositive rfl]
  constructor
  · intro same fact derived
    have unchanged : pass.after rules = pass.store := FactStore.addMany_eq_self same
    rw [← unchanged]
    exact (isAfter fact).2 (.inr derived)
  · intro settled
    refine (sound.wellFormed.addMany _).size_eq sound.wellFormed (Set.ext fun fact => ?_)
    exact (isAfter fact).trans (or_iff_left_of_imp (@settled fact))

/-- A pass starts within the limit or with nothing new. -/
theorem Begins.fits {passes : List Pass}
    (begun : Begins .semiNaive limits rules start passes) {pass : Pass} {earlier : List Pass}
    (split : passes = pass :: earlier) :
    pass.store = start ∨ pass.store.size ≤ limits.maxFacts := by
  cases begun with
  | first =>
      cases split
      exact .inl rfl
  | next begun isOutcome isNew =>
      cases split
      obtain ⟨⟨rfl, rfl⟩, fits⟩ := Pass.outcome_eq_ok_iff.1 isOutcome
      exact .inr (fits.resolve_right fun same => isNew (Nat.sub_eq_zero_of_le same.le))

/-- A pass begins for every stage that comes after none that is settled, if there is room for
the least model. -/
theorem exists_begins (wellFormed : start.WellFormed) (semipositive : Semipositive rules)
    (fits : limits.Fits (leastModel rules start.facts)) {count : Nat}
    (unsettled : ∀ earlier < count, ¬ Settled rules start.facts earlier) :
    ∃ pass earlier, Begins .semiNaive limits rules start (pass :: earlier) ∧
      earlier.length = count := by
  induction count with
  | zero => exact ⟨_, _, .first, rfl⟩
  | succ count inductionHypothesis =>
      obtain ⟨pass, earlier, begun, rfl⟩ :=
        inductionHypothesis fun earlier before => unsettled earlier (by omega)
      have sound := begun.latest_sound wellFormed semipositive
      have isStage := begun.facts_eq_stage wellFormed semipositive rfl
      have afterSize : (pass.after rules).size ≤ limits.maxFacts := by
        refine (sound.wellFormed.addMany _).size_le_iff.2 (fits.mono fun fact inAfter => ?_)
        refine stage_subset_leastModel rules start.facts (earlier.length + 1) ?_
        rw [stage, ← isStage, ← sound.consequences_eq]
        exact (sound.mem_after_iff semipositive).1 inAfter
      have isOutcome := Pass.outcome_eq_ok_iff.2 ⟨⟨rfl, rfl⟩, .inl afterSize⟩
      refine ⟨_, _, begun.next isOutcome fun nothing => ?_, rfl⟩
      have grows := FactStore.size_le_size_addMany pass.store (pass.derived rules)
      refine unsettled earlier.length (Nat.lt_succ_self _) ?_
      exact (begun.size_after_eq_iff wellFormed semipositive).1
        (Nat.le_antisymm (Nat.sub_eq_zero_iff_le.1 nothing) grows)

/-- A stratum is closed if it settles in time and either has room for its model or adds
nothing. -/
theorem exists_closeStratum_iff (wellFormed : start.WellFormed)
    (semipositive : Semipositive rules) {number budget : Nat} :
    (∃ closed, limits.closeStratum number rules budget none start = .ok closed) ↔
      Settles rules start.facts budget ∧
        (limits.Fits (leastModel rules start.facts) ∨
          leastModel rules start.facts = start.facts) := by
  have refines : RefinesNaive limits rules start :=
    refinesNaive_of_semipositive wellFormed semipositive
  have close_iff := refines.closeStratum_eq_ok_iff number budget
  constructor
  · rintro ⟨closed, isClosed⟩
    obtain ⟨_, isModel⟩ := facts_eq_leastModel_of_closeStratum wellFormed semipositive isClosed
    obtain ⟨pass, earlier, begun, inBudget, isOutcome⟩ := (close_iff closed).1 isClosed
    obtain ⟨rfl, same⟩ := Pass.eq_of_outcome isOutcome
    refine ⟨⟨earlier.length, inBudget, ?_⟩, ?_⟩
    · exact (begun.size_after_eq_iff wellFormed semipositive).1 (congrArg FactStore.size same)
    · rw [← isModel, ← (begun.latest_sound wellFormed semipositive).wellFormed.size_le_iff]
      exact (begun.fits rfl).symm.imp_right (congrArg FactStore.facts)
  · rintro ⟨settles, fits⟩
    -- The loop closes in the first stage that is settled.
    obtain ⟨first, inBudget, isSettled, isFirst⟩ := settles.exists_first
    have begins : ∃ pass earlier, Begins .semiNaive limits rules start (pass :: earlier) ∧
        earlier.length = first := by
      rcases fits with fits | unchanged
      · exact exists_begins wellFormed semipositive fits isFirst
      · refine ⟨_, _, .first, (Nat.eq_zero_of_not_pos fun positive => ?_).symm⟩
        have settledAtOnce := (isLeast_leastModel rules start.facts).1.closed
        rw [unchanged] at settledAtOnce
        exact isFirst 0 positive settledAtOnce
    obtain ⟨pass, earlier, begun, rfl⟩ := begins
    have sameSize := (begun.size_after_eq_iff wellFormed semipositive).2 isSettled
    refine ⟨pass.after rules, (close_iff _).2 ⟨pass, earlier, begun, inBudget, ?_⟩⟩
    exact Pass.outcome_eq_ok_iff.2 ⟨⟨rfl, (Nat.sub_eq_zero_of_le sameSize.le).symm⟩,
      .inr sameSize⟩

end Passes

namespace RuleSet

variable {ruleSet : RuleSet} {limits : Limits}

/-- A further stratum is closed above those before it. -/
theorem closeStrata_concat (before : List Stratum) (stratum : Stratum) (number : Nat)
    (store : FactStore) :
    ruleSet.closeStrata limits number (before ++ [stratum]) store =
      ruleSet.closeStrata limits number before store >>= fun below =>
        limits.closeStratum (number + before.length) (ruleSet.rulesOf stratum)
          limits.maxPasses none below := by
  induction before generalizing number store with
  | nil => exact bind_pure _
  | cons first before inductionHypothesis =>
      rw [List.cons_append, closeStrata, closeStrata, bind_assoc]
      refine bind_congr fun closed => ?_
      rw [inductionHypothesis, List.length_cons, Nat.add_assoc, Nat.add_comm 1]

/-- A run over one more stratum is a run that closes it in the end. -/
theorem run_concat (before : List Stratum) (stratum : Stratum) :
    ruleSet.run limits ⟨before ++ [stratum]⟩ =
      ruleSet.run limits ⟨before⟩ >>= fun below =>
        limits.closeStratum (1 + before.length) (ruleSet.rulesOf stratum)
          limits.maxPasses none below := by
  simp only [run, closeStrata_concat, bind_assoc]

/-- A run without strata succeeds if there is room for the stated facts. -/
theorem exists_run_nil_iff :
    (∃ store, ruleSet.run limits ⟨[]⟩ = .ok store) ↔ limits.Fits ruleSet.statedFacts := by
  have wellFormed := (FactStore.wellFormed_withShapes ruleSet.shapes).addMany
    ruleSet.facts.toList
  rw [← facts_eq_statedFacts, ← wellFormed.size_le_iff]
  simp only [run, closeStrata, bind_eq_ok_iff, Prod.exists, Limits.addFacts_eq_ok_iff]
  constructor
  · rintro ⟨_, seeded, _, ⟨⟨rfl, _⟩, fits⟩, _⟩
    exact fits.elim id fun isEmpty => isEmpty.trans_le (Nat.zero_le _)
  · exact fun fits => ⟨_, _, _, ⟨⟨rfl, rfl⟩, .inl fits⟩, rfl⟩

/-- A run succeeds if every stratum settles in time over the model of those before it and
there is room for the model of all strata. -/
theorem exists_run_iff {strata : List Stratum}
    (semipositive : ∀ stratum ∈ strata, Semipositive (ruleSet.rulesOf stratum)) :
    (∃ store, ruleSet.run limits ⟨strata⟩ = .ok store) ↔
      limits.Fits (ruleSet.stratifiedModel strata) ∧
        ∀ before stratum, before ++ [stratum] <+: strata →
          Settles (ruleSet.rulesOf stratum) (ruleSet.stratifiedModel before)
            limits.maxPasses := by
  induction strata using List.reverseRecOn with
  | nil => simpa [stratifiedModel] using exists_run_nil_iff
  | append_singleton strata stratum inductionHypothesis =>
      have lower := fun other member => semipositive other (List.mem_append_left _ member)
      have ofStratum := semipositive stratum (List.mem_append_right _ List.mem_cons_self)
      specialize inductionHypothesis lower
      have above := (isLeast_leastModel (ruleSet.rulesOf stratum)
        (ruleSet.stratifiedModel strata)).1.above
      have step (number : Nat) (below : FactStore)
          (isRun : ruleSet.run limits ⟨strata⟩ = .ok below) :
          (∃ store, limits.closeStratum number (ruleSet.rulesOf stratum) limits.maxPasses none
            below = .ok store) ↔ _ :=
        exists_closeStratum_iff (facts_eq_of_run lower isRun).1 ofStratum
      simp only [run_concat, bind_eq_ok_iff, List.prefix_concat_iff, stratifiedModel_concat]
      constructor
      · rintro ⟨store, below, isRun, isClosed⟩
        obtain ⟨settles, fits⟩ := (step _ below isRun).1 ⟨store, isClosed⟩
        obtain ⟨belowFits, earlier⟩ := inductionHypothesis.1 ⟨below, isRun⟩
        rw [(facts_eq_of_run lower isRun).2] at settles fits
        refine ⟨fits.elim id fun same => by rwa [same], ?_⟩
        rintro before other (isLast | isEarlier)
        · obtain ⟨rfl, same⟩ := List.append_inj' isLast rfl
          cases same
          exact settles
        · exact earlier before other isEarlier
      · rintro ⟨fits, settles⟩
        obtain ⟨below, isRun⟩ := inductionHypothesis.2
          ⟨fits.mono above, fun before other isEarlier => settles before other (.inr isEarlier)⟩
        have isModel := (facts_eq_of_run lower isRun).2
        obtain ⟨store, isClosed⟩ := (step (1 + strata.length) below isRun).2
          ⟨isModel ▸ settles strata stratum (.inl rfl), .inl (isModel ▸ fits)⟩
        exact ⟨store, below, isRun, isClosed⟩

end RuleSet

end Datalog
