import Datalog.Proofs.Evaluation.Stages
import Datalog.Proofs.Evaluation.StratifiedModel
import Datalog.Proofs.FactStore.Insertion
import Datalog.Proofs.RuleSet.Draft

/-!
# Evaluating again

The model of a rule set is closed under every stratum at once, because a stratum sees nothing
of later strata but what it defines itself (`Stratifies.consequences_model_subset`). So when
its facts are stated explicitly and evaluated again, no stratum finds anything new, and since
stated facts are filed in the order in which they were found, the store that results is the
same (`RuleSet.evaluate_withFacts_allFacts`).
-/

namespace Datalog

/-- Stores that cannot be told apart: equal, with every fact in its place and as it was
written, the same shapes and the same size. -/
structure FactStore.Identical (store other : FactStore) : Prop where
  beq : (store == other) = true
  factsOf_eq : ∀ relation, store.factsOf relation = other.factsOf relation
  shapes_eq : store.shapes.toList = other.shapes.toList
  size_eq : store.size = other.size

namespace RuleSet

/-- Rule sets that are compiled or put together step by step. -/
inductive Constructed : RuleSet → Prop where
  | compiled {source : String} {ruleSet : RuleSet} (isCompiled : compile source = .ok ruleSet) :
      Constructed ruleSet
  | empty : Constructed ∅
  | addFact {ruleSet : RuleSet} (constructed : Constructed ruleSet) (fact : Fact) :
      Constructed (ruleSet.addFact fact).1
  | addRule {ruleSet : RuleSet} (constructed : Constructed ruleSet) (rule : Rule) :
      Constructed (ruleSet.addRule rule).1

/-- However a rule set is constructed, exactly the relations in use have a shape. -/
theorem Constructed.declared {ruleSet : RuleSet} (constructed : ruleSet.Constructed) :
    ruleSet.Declared := by
  induction constructed with
  | compiled isCompiled =>
      obtain ⟨_, draft, _, rfl, means, _⟩ := exists_means_of_compile isCompiled
      exact means.declared
  | empty => exact declared_empty
  | addFact _ fact inductionHypothesis => exact inductionHypothesis.addFact fact
  | addRule _ rule inductionHypothesis => exact inductionHypothesis.addRule rule

end RuleSet

namespace Stratifies

variable {ruleSet : RuleSet} {stratification : Stratification} {place : Nat} {stratum : Stratum}

/-- What a stratum mentions below it or finds in its own model is in the model of all strata,
and nothing else that it mentions is. -/
theorem mem_model_of_mem_below (stratifies : Stratifies ruleSet.rules.toList stratification)
    (atPlace : stratification.strata[place]? = some stratum) {fact : Fact}
    (mentioned : Mentions (ruleSet.rulesOf stratum) fact.relation) :
    (fact ∈ ruleSet.stratifiedModel (stratification.strata.take place) →
      fact ∈ ruleSet.stratifiedModel stratification.strata) ∧
    (fact ∈ ruleSet.stratifiedModel stratification.strata ↔
      fact ∈ leastModel (ruleSet.rulesOf stratum)
        (ruleSet.stratifiedModel (stratification.strata.take place))) := by
  have above := (isLeast_leastModel (ruleSet.rulesOf stratum)
    (ruleSet.stratifiedModel (stratification.strata.take place))).1.above
  by_cases own : fact.relation ∈ stratum.relations
  · have isModel := stratifies.mem_model_iff_leastModel atPlace own
    exact ⟨fun below => isModel.2 (above below), isModel⟩
  · have isBelow := stratifies.mem_below_iff atPlace mentioned
    rw [if_neg own] at isBelow
    refine ⟨isBelow.1, isBelow.symm.trans (mem_leastModel_iff_of_not_defines
      (RuleSet.respectful_stratifiedModel _) fun defined => own ?_).symm⟩
    exact (stratifies.defines_rulesOf_iff (List.mem_of_getElem? atPlace)).1 defined

/-- The model is closed under the rules of every stratum. -/
theorem consequences_model_subset (stratifies : Stratifies ruleSet.rules.toList stratification)
    (member : stratum ∈ stratification.strata) :
    consequences (ruleSet.rulesOf stratum) (ruleSet.stratifiedModel stratification.strata)
      (ruleSet.stratifiedModel stratification.strata) ⊆
        ruleSet.stratifiedModel stratification.strata := by
  obtain ⟨place, atPlace⟩ := List.mem_iff_getElem?.1 member
  intro fact derived
  have mentioned := mentions_of_defines (defines_of_mem_consequences derived)
  refine (stratifies.mem_model_of_mem_below atPlace mentioned).2.2 ?_
  refine (isLeast_leastModel _ _).1.closed ((Covers.refl _).consequences ?_ ?_ derived)
  · exact fun other known isMentioned =>
      (stratifies.mem_model_of_mem_below atPlace isMentioned).2.1 known
  · exact fun other below isMentioned =>
      (stratifies.mem_model_of_mem_below atPlace isMentioned).1 below

end Stratifies

section Closing

variable {limits : Limits} {rules : List Rule} {start closed : FactStore}

/-- A stratum to which its rules add nothing is closed by its first pass. -/
theorem closeStratum_of_closed (wellFormed : start.WellFormed)
    (semipositive : Semipositive rules)
    (isClosed : consequences rules start.facts start.facts ⊆ start.facts) (number : Nat)
    {budget : Nat} (positive : 0 < budget) :
    limits.closeStratum number rules budget none start = .ok start := by
  have begun : Begins .semiNaive limits rules start [⟨none, start⟩] := .first
  have sameSize := (begun.size_after_eq_iff wellFormed semipositive).2 isClosed
  have same : Pass.after ⟨none, start⟩ rules = start := FactStore.addMany_eq_self sameSize
  rw [← Strategy.close_semiNaive limits number rules budget ⟨none, start⟩,
    Strategy.close_eq_ok_iff]
  refine ⟨_, _, begun, positive, Pass.outcome_eq_ok_iff.2 ⟨⟨same.symm, ?_⟩, .inr sameSize⟩⟩
  exact (Nat.sub_eq_zero_of_le sameSize.le).symm

/-- What passes preserve is preserved when a stratum is closed. -/
theorem motive_of_closeStratum {motive : FactStore → Prop}
    (passes : ∀ pass : Pass, motive pass.store → motive (pass.after rules))
    {number budget : Nat} {previous : Option Snapshot} (atStart : motive start)
    (isClosed : limits.closeStratum number rules budget previous start = .ok closed) :
    motive closed := by
  induction budget generalizing previous start with
  | zero => cases isClosed
  | succ budget inductionHypothesis =>
      obtain ⟨⟨after, added⟩, isOutcome, goesOn⟩ := bind_eq_ok_iff.1 isClosed
      obtain ⟨⟨rfl, _⟩, _⟩ := Limits.addFacts_eq_ok_iff.1 isOutcome
      have afterPass := passes ⟨previous, start⟩ atStart
      dsimp only at goesOn
      split at goesOn
      next =>
        cases goesOn
        exact afterPass
      next => exact inductionHypothesis afterPass goesOn

end Closing

namespace RuleSet

variable {ruleSet : RuleSet} {limits : Limits} {stratification : Stratification}
  {store : FactStore}

/-- Strata to which their rules add nothing leave a store as it is. -/
theorem closeStrata_of_closed {strata : List Stratum} (wellFormed : store.WellFormed)
    (semipositive : ∀ stratum ∈ strata, Semipositive (ruleSet.rulesOf stratum))
    (isClosed : ∀ stratum ∈ strata,
      consequences (ruleSet.rulesOf stratum) store.facts store.facts ⊆ store.facts)
    (positive : strata ≠ [] → 0 < limits.maxPasses) (number : Nat) :
    ruleSet.closeStrata limits number strata store = .ok store := by
  induction strata generalizing number with
  | nil => rfl
  | cons stratum strata inductionHypothesis =>
      obtain ⟨firstSemipositive, semipositive⟩ := List.forall_mem_cons.1 semipositive
      obtain ⟨firstClosed, isClosed⟩ := List.forall_mem_cons.1 isClosed
      have positive := positive (List.cons_ne_nil stratum strata)
      rw [closeStrata, closeStratum_of_closed wellFormed firstSemipositive firstClosed number
        positive]
      exact inductionHypothesis semipositive isClosed (fun _ => positive) (number + 1)

/-- What holds of the stated facts and is preserved by all passes over rules of the rule set
holds of a run. -/
theorem motive_of_run (motive : FactStore → Prop)
    (seeded : motive ((FactStore.withShapes ruleSet.shapes).addMany ruleSet.facts.toList))
    (passes : ∀ (stratum : Stratum) (pass : Pass),
      motive pass.store → motive (pass.after (ruleSet.rulesOf stratum)))
    (isRun : ruleSet.run limits stratification = .ok store) : motive store := by
  obtain ⟨⟨start, added⟩, isSeeded, isClosed⟩ := bind_eq_ok_iff.1 isRun
  obtain ⟨⟨rfl, _⟩, _⟩ := Limits.addFacts_eq_ok_iff.1 isSeeded
  have closing (strata : List Stratum) (number : Nat) (start : FactStore) (atStart : motive start)
      (isClosed : ruleSet.closeStrata limits number strata start = .ok store) : motive store := by
    induction strata generalizing number start with
    | nil =>
        cases isClosed
        exact atStart
    | cons stratum strata inductionHypothesis =>
        obtain ⟨middle, isFirst, isRest⟩ := bind_eq_ok_iff.1 isClosed
        exact inductionHypothesis _ _ (motive_of_closeStratum (passes stratum) atStart isFirst)
          isRest
  exact closing _ _ _ seeded isClosed

/-- A run adds facts to the stated ones. -/
theorem exists_addMany_of_run (isRun : ruleSet.run limits stratification = .ok store) :
    ∃ derived, store = ((FactStore.withShapes ruleSet.shapes).addMany
      ruleSet.facts.toList).addMany derived := by
  let stated := (FactStore.withShapes ruleSet.shapes).addMany ruleSet.facts.toList
  apply motive_of_run (fun store => ∃ derived, store = stated.addMany derived) _ _ isRun
  · exact ⟨[], rfl⟩
  · rintro stratum pass ⟨derived, isStore⟩
    rw [Pass.after, isStore, ← FactStore.addMany_append]
    exact ⟨_, rfl⟩

/-- A run does not touch the shapes. -/
theorem shapes_eq_of_run (isRun : ruleSet.run limits stratification = .ok store) :
    store.shapes = ruleSet.shapes := by
  obtain ⟨derived, rfl⟩ := exists_addMany_of_run isRun
  rw [FactStore.shapes_addMany, FactStore.shapes_addMany]
  rfl

/-- A run leaves no relation without facts. -/
theorem occupied_of_run (isRun : ruleSet.run limits stratification = .ok store) :
    store.Occupied := by
  obtain ⟨derived, rfl⟩ := exists_addMany_of_run isRun
  exact ((FactStore.occupied_withShapes _).addMany _).addMany _

/-- What the stated facts satisfy and all rules preserve holds throughout the model. -/
theorem stratifiedModel_subset {known : Set Fact} (stated : ruleSet.statedFacts ⊆ known)
    (respectful : Respectful known)
    (preserved : ∀ (stratum : Stratum) (lower : Set Fact),
      consequences (ruleSet.rulesOf stratum) lower known ⊆ known) (strata : List Stratum) :
    ruleSet.stratifiedModel strata ⊆ known := by
  induction strata using List.reverseRecOn with
  | nil => exact stated
  | append_singleton strata stratum inductionHypothesis =>
      rw [stratifiedModel_concat]
      exact (isLeast_leastModel _ _).2 ⟨inductionHypothesis, respectful, preserved stratum _⟩

/-- The facts that have a value for each place of a known relation. -/
def shaped (ruleSet : RuleSet) : Set Fact :=
  {fact | ∃ shape, ruleSet.shapeOf? fact.relation = some shape ∧
    shape.arity = fact.values.length}

/-- Every fact of the model has a value for each place of a known relation. -/
theorem stratifiedModel_subset_shaped (declared : ruleSet.Declared)
    (consistent : ruleSet.Consistent) (strata : List Stratum) :
    ruleSet.stratifiedModel strata ⊆ ruleSet.shaped := by
  refine stratifiedModel_subset ?_ ?_ ?_ strata
  · rintro found ⟨stated, isStated, equal⟩
    obtain ⟨shape, isShape, arity⟩ := declared.exists_shapeOf?_fact consistent isStated
    obtain ⟨sameRelation, sameValues⟩ := Fact.beq_iff.1 equal
    exact ⟨shape, sameRelation ▸ isShape, arity.trans sameValues.length_eq⟩
  · rintro found ⟨shape, isShape, arity⟩ other equal
    obtain ⟨sameRelation, sameValues⟩ := Fact.beq_iff.1 equal
    exact ⟨shape, sameRelation ▸ isShape, arity.trans sameValues.length_eq⟩
  · rintro stratum lower found ⟨rule, inStratum, valuation, _, equal⟩
    have isShape := declared.shapeOf?_usage consistent (mem_of_mem_rulesOf inStratum)
      List.mem_cons_self
    obtain ⟨sameRelation, sameValues⟩ := Fact.beq_iff.1 equal
    refine ⟨rule.head.shape, sameRelation ▸ isShape, ?_⟩
    rw [← sameValues.length_eq]
    exact (Args.arity_shape rule.head.args).trans (List.length_map _).symm

/-- The facts of a run, stated again. -/
def restated (ruleSet : RuleSet) (store : FactStore) : RuleSet :=
  ruleSet.withFacts store.allFacts

/-- The facts of a run, seeded again. -/
def reseeded (ruleSet : RuleSet) (store : FactStore) : FactStore :=
  (FactStore.withShapes (ruleSet.restated store).shapes).addMany
    (ruleSet.restated store).facts.toList

/-- Stating the facts of a store again appends those that were not stated before. -/
theorem toList_facts_restated (wellFormed : store.WellFormed) :
    (ruleSet.restated store).facts.toList = ruleSet.facts.toList ++
      store.allFacts.filter fun fact => !ruleSet.facts.contains fact := by
  rw [restated, facts_withFacts, OrderedSet.toList_insertMany _ wellFormed.pairwise_allFacts]

/-- The stated facts come first among those of a relation, and no other is equal to one of
them. -/
theorem filter_factsOf_addMany (derived : List Fact) (relation : String) :
    ruleSet.facts.toList.filter (·.relation = relation) ++
      (((((FactStore.withShapes ruleSet.shapes).addMany ruleSet.facts.toList).addMany
        derived).factsOf relation).toList.filter fun fact => !ruleSet.facts.contains fact) =
      ((((FactStore.withShapes ruleSet.shapes).addMany ruleSet.facts.toList).addMany
        derived).factsOf relation).toList := by
  generalize isStore : ((FactStore.withShapes ruleSet.shapes).addMany
    ruleSet.facts.toList).addMany derived = store
  have grows : (((FactStore.withShapes ruleSet.shapes).addMany
      ruleSet.facts.toList).factsOf relation).toList <+: (store.factsOf relation).toList :=
    isStore ▸ FactStore.grows_addMany _ derived relation
  rw [FactStore.toList_factsOf_addMany ruleSet.facts.pairwise_toList] at grows
  obtain ⟨others, split⟩ := grows
  have wellFormed : store.WellFormed :=
    isStore ▸ ((FactStore.wellFormed_withShapes _).addMany _).addMany _
  have distinct := (store.setOf relation).distinct
  change (store.factsOf relation).toList.Pairwise _ at distinct
  rw [← split] at distinct ⊢
  have statedGone : ((ruleSet.facts.toList.filter (·.relation = relation)).filter
      fun fact => !ruleSet.facts.contains fact) = [] := by
    refine List.filter_eq_nil_iff.2 fun fact member => ?_
    have isStated : ruleSet.facts.contains fact = true :=
      OrderedSet.contains_iff.2 ⟨fact, List.mem_of_mem_filter member, Std.ReflCmp.compare_self⟩
    simp [isStated]
  have othersStay : (others.filter fun fact => !ruleSet.facts.contains fact) = others := by
    refine List.filter_eq_self.2 fun fact member => ?_
    rw [Bool.not_eq_true', Bool.eq_false_iff]
    intro isStated
    obtain ⟨stated, listed, equal⟩ := OrderedSet.contains_iff.1 isStated
    have ofRelation : fact.relation = relation :=
      wellFormed.relation_eq relation fact
        (Array.mem_toList_iff.1 (split ▸ List.mem_append_right _ member))
    refine (List.pairwise_append.1 distinct).2.2 stated ?_ fact member equal
    refine List.mem_filter.2 ⟨listed, ?_⟩
    have same := Fact.relation_congr (Fact.beq_iff_cmp_eq.2 equal)
    simp [same, ofRelation]
  rw [List.filter_append, statedGone, othersStay, List.nil_append]

/-- Seeding the facts of a run again files them as they were. -/
theorem factsOf_reseeded (isRun : ruleSet.run limits stratification = .ok store)
    (wellFormed : store.WellFormed) (relation : String) :
    (ruleSet.reseeded store).factsOf relation = store.factsOf relation := by
  obtain ⟨derived, isStore⟩ := exists_addMany_of_run isRun
  rw [← Array.toList_inj, reseeded,
    FactStore.toList_factsOf_addMany (ruleSet.restated store).facts.pairwise_toList,
    toList_facts_restated wellFormed, List.filter_append, List.filter_filter]
  have swapped : (store.allFacts.filter fun fact =>
      decide (fact.relation = relation) && !ruleSet.facts.contains fact) =
      (store.factsOf relation).toList.filter fun fact => !ruleSet.facts.contains fact := by
    rw [← wellFormed.filter_allFacts relation, List.filter_filter]
    exact List.filter_congr fun fact _ => Bool.and_comm _ _
  rw [swapped, isStore]
  exact filter_factsOf_addMany derived relation

/-- Seeding the facts of a run again gives the same store. -/
theorem identical_reseeded (isRun : ruleSet.run limits stratification = .ok store)
    (wellFormed : store.WellFormed)
    (known : ∀ fact ∈ store.allFacts, ruleSet.Knows fact.relation) :
    (ruleSet.reseeded store).Identical store := by
  have sameFacts := factsOf_reseeded isRun wellFormed
  have sameContent : (ruleSet.reseeded store).facts = store.facts := by
    ext fact
    rw [FactStore.mem_facts_iff, FactStore.mem_facts_iff, sameFacts]
  have reseededWellFormed : (ruleSet.reseeded store).WellFormed :=
    (FactStore.wellFormed_withShapes _).addMany _
  have sameSize := reseededWellFormed.size_eq wellFormed sameContent
  have sameShapes : (ruleSet.reseeded store).shapes.toList = store.shapes.toList := by
    rw [reseeded, FactStore.shapes_addMany, shapes_eq_of_run isRun]
    exact Std.TreeMap.equiv_iff_toList_eq.1
      (.of_forall_constGet?_eq fun relation => shapeOf?_withFacts known relation)
  have occupied : (ruleSet.reseeded store).Occupied :=
    (FactStore.occupied_withShapes _).addMany _
  exact ⟨FactStore.beq_of_factsOf_eq occupied (occupied_of_run isRun) sameFacts sameShapes
    sameSize, sameFacts, sameShapes, sameSize⟩

/-- Stating facts of the model again keeps a rule set consistent. -/
theorem Consistent.restated (consistent : ruleSet.Consistent)
    (shaped : ∀ fact ∈ store.allFacts, fact ∈ ruleSet.shaped) (wellFormed : store.WellFormed) :
    (ruleSet.restated store).Consistent := by
  have keeps (relation : String) :
      (ruleSet.restated store).shapeOf? relation = ruleSet.shapeOf? relation :=
    shapeOf?_withFacts (fun fact member => (shaped fact member).imp fun _ => And.left) relation
  have sameRules : (ruleSet.restated store).rules = ruleSet.rules := rules_withFacts _ _
  constructor
  · intro fact member shape isShape
    rw [keeps] at isShape
    rw [toList_facts_restated wellFormed] at member
    rcases List.mem_append.1 member with isStated | isFound
    · exact consistent.facts fact isStated shape isShape
    · obtain ⟨found, isFoundShape, arity⟩ := shaped fact (List.mem_of_mem_filter isFound)
      rw [isFoundShape, Option.some.injEq] at isShape
      exact isShape ▸ arity
  · intro rule member usage isUsage shape isShape
    rw [keeps] at isShape
    exact consistent.usages rule (sameRules ▸ member) usage isUsage shape isShape
  · intro rule member
    exact consistent.safe rule (sameRules ▸ member)

/-- Evaluating again under limits that leave room for the facts and for one pass gives the
facts as they were seeded. -/
theorem evaluate_restated (declared : ruleSet.Declared)
    (checked : ruleSet.check = .ok ()) (accepted : stratify ruleSet = .ok stratification)
    (isRun : ruleSet.run limits stratification = .ok store) (again : Limits)
    (fits : store.size ≤ again.maxFacts)
    (positive : stratification.strata ≠ [] → 0 < again.maxPasses) :
    (ruleSet.restated store).evaluate again = .ok (ruleSet.reseeded store) ∧
      (ruleSet.reseeded store).Identical store := by
  have consistent := check_eq_ok_iff.1 checked
  have semipositive := semipositive_rulesOf checked accepted
  obtain ⟨wellFormed, isModel⟩ := facts_eq_of_run semipositive isRun
  have shaped : ∀ fact ∈ store.allFacts, fact ∈ ruleSet.shaped := by
    intro fact member
    refine stratifiedModel_subset_shaped declared consistent stratification.strata ?_
    rw [← isModel]
    exact wellFormed.exists_mem_allFacts_iff.1 ⟨fact, member, BEq.rfl⟩
  have identical := identical_reseeded isRun wellFormed
    fun fact member => (shaped fact member).imp fun _ => And.left
  have sameRules : (ruleSet.restated store).rules = ruleSet.rules := rules_withFacts _ _
  have sameRulesOf (stratum : Stratum) :
      (ruleSet.restated store).rulesOf stratum = ruleSet.rulesOf stratum := by
    rw [rulesOf, sameRules, rulesOf]
  have reseededWellFormed : (ruleSet.reseeded store).WellFormed :=
    (FactStore.wellFormed_withShapes _).addMany _
  have sameContent : (ruleSet.reseeded store).facts =
      ruleSet.stratifiedModel stratification.strata := by
    rw [← isModel]
    ext fact
    rw [FactStore.mem_facts_iff, FactStore.mem_facts_iff, identical.factsOf_eq]
  have sameStrata : stratify (ruleSet.restated store) = stratify ruleSet := by
    rw [stratify, sameRules, stratify]
  refine ⟨evaluate_eq_ok_iff.2 ⟨?_, stratification, sameStrata.trans accepted, ?_⟩, identical⟩
  · exact check_eq_ok_iff.2 (consistent.restated shaped wellFormed)
  · refine bind_eq_ok_iff.2 ⟨(ruleSet.reseeded store, _), Limits.addFacts_eq_ok_iff.2
      ⟨⟨rfl, rfl⟩, .inl (identical.size_eq.trans_le fits)⟩, ?_⟩
    refine closeStrata_of_closed reseededWellFormed ?_ ?_ positive 1
    · intro stratum member
      rw [sameRulesOf]
      exact semipositive stratum member
    · intro stratum member
      rw [sameRulesOf]
      rw [sameContent]
      exact (stratifies_of_ok accepted).consequences_model_subset member

/-- Evaluating a rule set with the facts of its evaluation gives the same store again, and
every stratum is closed by its first pass. -/
theorem evaluate_withFacts_allFacts (constructed : ruleSet.Constructed)
    (isOk : ruleSet.evaluate limits = .ok store) :
    ∃ again, (ruleSet.withFacts store.allFacts).evaluate limits = .ok again ∧
      (ruleSet.withFacts store.allFacts).evaluate ⟨limits.maxFacts, 1⟩ = .ok again ∧
      again.Identical store := by
  obtain ⟨checked, stratification, accepted, isRun⟩ := evaluate_eq_ok_iff.1 isOk
  have semipositive := semipositive_rulesOf checked accepted
  obtain ⟨wellFormed, isModel⟩ := facts_eq_of_run semipositive isRun
  obtain ⟨fits, settles⟩ := (exists_run_iff semipositive).1 ⟨store, isRun⟩
  have inLimit : store.size ≤ limits.maxFacts := wellFormed.size_le_iff.2 (isModel ▸ fits)
  have positive : stratification.strata ≠ [] → 0 < limits.maxPasses := by
    intro nonempty
    obtain ⟨stratum, strata, isStrata⟩ := List.exists_cons_of_ne_nil nonempty
    obtain ⟨count, inBudget, _⟩ := settles [] stratum (by simp [isStrata])
    exact Nat.zero_lt_of_lt inBudget
  have again (others : Limits) := evaluate_restated constructed.declared checked accepted isRun
    others
  obtain ⟨isAgain, identical⟩ := again limits inLimit positive
  exact ⟨_, isAgain, (again ⟨limits.maxFacts, 1⟩ inLimit fun _ => Nat.one_pos).1, identical⟩

/-- The facts of `parity` evaluate to themselves, under limits that leave no room for more. -/
theorem identical_parity :
    parity.Constructed ∧ ∃ store, parity.evaluate ⟨7, 3⟩ = .ok store ∧
      ∃ again, (parity.withFacts store.allFacts).evaluate ⟨7, 3⟩ = .ok again ∧
        (parity.withFacts store.allFacts).evaluate ⟨7, 1⟩ = .ok again ∧
        again.Identical store := by
  have constructed : parity.Constructed :=
    .addRule (.addRule (.addRule (.addFact (.addFact (.addFact .empty _) _) _) _) _) _
  have succeeds : (parity.evaluate ⟨7, 3⟩).isOk = true := by decide +kernel
  refine ⟨constructed, ?_⟩
  cases isOk : parity.evaluate ⟨7, 3⟩ with
  | error error =>
      rw [isOk] at succeeds
      cases succeeds
  | ok store => exact ⟨store, rfl, evaluate_withFacts_allFacts constructed isOk⟩

end RuleSet

end Datalog
