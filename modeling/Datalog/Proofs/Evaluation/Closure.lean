import Datalog.Evaluation.Basic
import Datalog.Proofs.Evaluation.Consequences

/-!
# Closing a stratum

A stratum is closed by a pass that adds nothing, so its content is closed under its rules;
and no pass adds a fact that some closed set lacks. Together this is
`facts_eq_leastModel_of_closeStratum`: closing a stratum computes its least model over what
lies below it. The rules of a stratum of an accepted rule set are semipositive
(`semipositive_rulesOf`), so this holds for all strata, one above the other.
-/

namespace Datalog

/-- Consequences depend on the lower strata only through the negated relations. -/
theorem consequences_congr {rules : List Rule} {lower other known : Set Fact}
    (same : ∀ rule ∈ rules, ∀ atom ∈ rule.negative, ∀ fact : Fact,
      fact.relation = atom.relation → (fact ∈ lower ↔ fact ∈ other)) :
    consequences rules lower known ⊆ consequences rules other known := by
  rintro fact ⟨rule, member, valuation, applies, equal⟩
  refine ⟨rule, member, valuation, ⟨applies.positive, ?_, applies.constraints⟩, equal⟩
  rintro atom inBody ⟨found, inOther, isMatch⟩
  have inLower := (same rule member atom inBody found isMatch.1).2 inOther
  exact applies.negative atom inBody ⟨found, inLower, isMatch⟩

namespace Pass.Sound

variable {pass : Pass} {rules : List Rule} {start : FactStore}

/-- A pass sees the facts of negated relations that were there at the start. -/
theorem mem_facts_iff (sound : pass.Sound rules start) {rule : Rule} (member : rule ∈ rules)
    {atom : Atom} (inBody : atom ∈ rule.negative) {fact : Fact}
    (ofRelation : fact.relation = atom.relation) :
    fact ∈ pass.store.facts ↔ fact ∈ start.facts := by
  rw [FactStore.mem_facts_iff, FactStore.mem_facts_iff, FactStore.factsOf, FactStore.factsOf,
    ofRelation, sound.unchanged rule member atom inBody]

/-- Negation in a pass is negation over the facts at the start of the stratum. -/
theorem consequences_eq (sound : pass.Sound rules start) (known : Set Fact) :
    consequences rules pass.store.facts known = consequences rules start.facts known := by
  apply Set.Subset.antisymm
  · exact consequences_congr fun rule member atom inBody fact ofRelation =>
      sound.mem_facts_iff member inBody ofRelation
  · exact consequences_congr fun rule member atom inBody fact ofRelation =>
      (sound.mem_facts_iff member inBody ofRelation).symm

/-- The facts at the start of a stratum are still there. -/
theorem start_subset (sound : pass.Sound rules start) : start.facts ⊆ pass.store.facts := by
  intro fact member
  obtain ⟨stored, isStored, equal⟩ := FactStore.mem_facts_iff.1 member
  refine FactStore.mem_facts_iff.2 ⟨stored, ?_, equal⟩
  exact Array.mem_toList_iff.1
    ((sound.grows fact.relation).subset (Array.mem_toList_iff.2 isStored))

end Pass.Sound

/-- No pass stores a fact that a closed set above the start lacks. -/
theorem Begins.facts_subset {strategy : Strategy} {limits : Limits} {rules : List Rule}
    {start : FactStore} {passes : List Pass}
    (begun : Begins strategy limits rules start passes) (wellFormed : start.WellFormed)
    (semipositive : Semipositive rules) {known : Set Fact}
    (isClosed : ClosedUnder rules start.facts known) :
    ∀ pass ∈ passes, pass.store.facts ⊆ known := by
  induction begun with
  | first => simpa using isClosed.above
  | next begun isOutcome isNew inductionHypothesis =>
      refine List.forall_mem_cons.2 ⟨?_, inductionHypothesis⟩
      obtain ⟨⟨rfl, _⟩, _⟩ := Pass.outcome_eq_ok_iff.1 isOutcome
      have sound := begun.latest_sound wellFormed semipositive
      have below := inductionHypothesis _ List.mem_cons_self
      intro fact inAfter
      rcases (sound.mem_after_iff semipositive).1 inAfter with old | derived
      · exact below old
      · rw [sound.consequences_eq] at derived
        exact isClosed.closed (consequences_mono below derived)

/-- A pass that adds nothing ends with the store it began with. -/
theorem Pass.eq_of_outcome {pass : Pass} {limits : Limits} {rules : List Rule}
    {closed : FactStore} (isOutcome : pass.outcome limits rules = .ok (closed, 0)) :
    closed = pass.store ∧ pass.after rules = pass.store := by
  obtain ⟨⟨rfl, nothing⟩, _⟩ := outcome_eq_ok_iff.1 isOutcome
  have grows := FactStore.size_le_size_addMany pass.store (pass.derived rules)
  have same : (pass.store.addMany (pass.derived rules)).size = pass.store.size := by
    rw [after] at nothing
    omega
  exact ⟨FactStore.addMany_eq_self same, FactStore.addMany_eq_self same⟩

section Stratum

variable {limits : Limits} {number budget : Nat} {rules : List Rule} {start closed : FactStore}

/-- Closing a stratum computes its least model over the facts at its start. -/
theorem facts_eq_leastModel_of_closeStratum (wellFormed : start.WellFormed)
    (semipositive : Semipositive rules)
    (isClosed : limits.closeStratum number rules budget none start = .ok closed) :
    closed.WellFormed ∧ closed.facts = leastModel rules start.facts := by
  rw [← Strategy.close_semiNaive limits number rules budget ⟨none, start⟩,
    Strategy.close_eq_ok_iff] at isClosed
  obtain ⟨pass, earlier, begun, _, isOutcome⟩ := isClosed
  obtain ⟨rfl, same⟩ := Pass.eq_of_outcome isOutcome
  have sound := begun.latest_sound wellFormed semipositive
  refine ⟨sound.wellFormed, Set.Subset.antisymm ?_ ?_⟩
  · intro fact member known isClosed
    exact begun.facts_subset wellFormed semipositive isClosed pass List.mem_cons_self member
  · intro fact inLeast
    apply inLeast
    constructor
    · exact sound.start_subset
    · intro other member another equal
      exact FactStore.mem_facts_congr equal member
    · intro other derived
      rw [← sound.consequences_eq] at derived
      rw [← same]
      exact (sound.mem_after_iff semipositive).2 (.inr derived)

end Stratum

namespace RuleSet

variable {ruleSet : RuleSet} {limits : Limits}

/-- The rules of a checked rule set are safe. -/
theorem safe_of_check (checked : ruleSet.check = .ok ()) {rule : Rule}
    (member : rule ∈ ruleSet.rules.toList) : rule.Safe := by
  rw [check] at checked
  split at checked
  next => cases checked
  next noFault =>
    simp only [fault?, Option.orElse_eq_orElse, Option.orElse_eq_or,
      Option.or_eq_none_iff] at noFault
    have noRuleFault := List.findSome?_eq_none_iff.1 noFault.2 rule member
    simp only [ruleFault?, Option.orElse_eq_orElse, Option.orElse_eq_or,
      Option.or_eq_none_iff] at noRuleFault
    exact Rule.unboundVariable?_eq_none_iff.1 (Option.map_eq_none_iff.1 noRuleFault.2)

/-- The rules of a stratum are those at its places. -/
theorem mem_rulesOf_iff {stratum : Stratum} {rule : Rule} :
    rule ∈ ruleSet.rulesOf stratum ↔ stratum.HasRule ruleSet.rules.toList rule := by
  simp [rulesOf, Stratum.HasRule, List.mem_filterMap]

/-- Evaluation closes a stratum under the rules that stand in it. -/
theorem coe_rulesOf (ruleSet : RuleSet) (stratum : Stratum) :
    (ruleSet.rulesOf stratum : Set Rule) =
      {rule | stratum.HasRule ruleSet.rules.toList rule} := by
  ext rule
  exact mem_rulesOf_iff

/-- The rules of a stratum are rules of the rule set. -/
theorem mem_of_mem_rulesOf {stratum : Stratum} {rule : Rule}
    (inStratum : rule ∈ ruleSet.rulesOf stratum) : rule ∈ ruleSet.rules.toList := by
  obtain ⟨index, _, atIndex⟩ := mem_rulesOf_iff.1 inStratum
  exact List.mem_of_getElem? atIndex

/-- The rules of a stratum of an accepted rule set are semipositive. -/
theorem semipositive_rulesOf (checked : ruleSet.check = .ok ())
    {stratification : Stratification} (accepted : stratify ruleSet = .ok stratification) :
    ∀ stratum ∈ stratification.strata, Semipositive (ruleSet.rulesOf stratum) := by
  intro stratum inStrata
  have stratifies := stratifies_of_ok accepted
  constructor
  · exact fun rule member => safe_of_check checked (mem_of_mem_rulesOf member)
  · intro rule member atom inBody other isOther isHead
    obtain ⟨place, atPlace⟩ := List.mem_iff_getElem?.1 inStrata
    obtain ⟨lower, before, isLower⟩ := stratifies.negative_lt place stratum atPlace rule
      (mem_rulesOf_iff.1 member) atom inBody ⟨other, mem_of_mem_rulesOf isOther, isHead⟩
    -- The head stands in this stratum, so a negated atom over it would not look below.
    have inRelations := (stratifies.mem_relations_iff stratum inStrata atom.relation).2
      ⟨other, mem_rulesOf_iff.1 isOther, isHead⟩
    rw [Stratification.stratumOf?_eq_some stratifies.disjoint atPlace inRelations,
      Option.some.injEq] at isLower
    exact absurd isLower (Nat.ne_of_gt before)

/-- Closing strata one above the other computes their models one above the other. -/
theorem facts_eq_of_closeStrata {strata : List Stratum}
    (semipositive : ∀ stratum ∈ strata, Semipositive (ruleSet.rulesOf stratum)) {number : Nat}
    {start closed : FactStore} (wellFormed : start.WellFormed)
    (isClosed : ruleSet.closeStrata limits number strata start = .ok closed) :
    closed.WellFormed ∧ closed.facts = strata.foldl
      (fun lower stratum => leastModel {rule | stratum.HasRule ruleSet.rules.toList rule} lower)
      start.facts := by
  induction strata generalizing number start with
  | nil =>
      cases isClosed
      exact ⟨wellFormed, rfl⟩
  | cons stratum strata inductionHypothesis =>
      obtain ⟨first, others⟩ := List.forall_mem_cons.1 semipositive
      obtain ⟨middle, isFirst, isRest⟩ := bind_eq_ok_iff.1 isClosed
      obtain ⟨middleWellFormed, isLeast⟩ :=
        facts_eq_leastModel_of_closeStratum wellFormed first isFirst
      rw [List.foldl_cons, ← coe_rulesOf, ← isLeast]
      exact inductionHypothesis others middleWellFormed isRest

/-- A store is seeded with the stated facts. -/
theorem facts_eq_statedFacts (ruleSet : RuleSet) :
    ((FactStore.withShapes ruleSet.shapes).addMany ruleSet.facts.toList).facts =
      ruleSet.statedFacts := by
  ext fact
  rw [FactStore.mem_facts_addMany, FactStore.mem_facts_iff, FactStore.factsOf_withShapes]
  simp [statedFacts]

/-- Evaluating semipositive strata computes their models over the stated facts. -/
theorem facts_eq_of_run {stratification : Stratification}
    (semipositive : ∀ stratum ∈ stratification.strata, Semipositive (ruleSet.rulesOf stratum))
    {store : FactStore} (isRun : ruleSet.run limits stratification = .ok store) :
    store.WellFormed ∧ store.facts = ruleSet.stratifiedModel stratification.strata := by
  obtain ⟨⟨seeded, added⟩, isSeeded, isClosed⟩ := bind_eq_ok_iff.1 isRun
  obtain ⟨⟨rfl, _⟩, _⟩ := Limits.addFacts_eq_ok_iff.1 isSeeded
  rw [stratifiedModel, ← facts_eq_statedFacts]
  exact facts_eq_of_closeStrata semipositive
    ((FactStore.wellFormed_withShapes ruleSet.shapes).addMany _) isClosed

end RuleSet

end Datalog
