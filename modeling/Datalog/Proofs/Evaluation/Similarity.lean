import Datalog.Proofs.Evaluation.Definitions
import Datalog.Proofs.Evaluation.Stages
import Datalog.Proofs.Evaluation.StratifiedModel
import Datalog.Proofs.FactStore.Content

/-!
# Similar rule sets

Rule sets that define all relations by interchangeable rules may be given other strata in
another order, joined in another order and stored in another order, but they have the same
model, and it is reached in as many passes (`SimilarDefinitions.exists_evaluate`).
-/

namespace Datalog.SimilarDefinitions

variable {valid : Set Fact} {left right : RuleSet} {limits : Limits}
  {stratification otherStratification : Stratification}

/-- Rule sets that are similar to a stratifiable one are stratifiable. -/
theorem exists_stratify (similar : SimilarDefinitions valid (fun _ => True) left right)
    (accepted : stratify left = .ok stratification) :
    ∃ otherStratification, stratify right = .ok otherStratification := by
  obtain ⟨noLoop, _⟩ := stratifyRules_eq_ok_iff.1 accepted
  refine ⟨_, stratifyRules_eq_ok_iff.2 ⟨?_, rfl⟩⟩
  rintro index relation ⟨rule, atIndex, atom, inBody, rfl, interdependent⟩
  obtain ⟨other, inLeft, same⟩ := similar.back rule (List.mem_of_getElem? atIndex) trivial
  obtain ⟨partner, inOther, sameRelation⟩ :=
    List.mem_map.1 (same.negative.subset (List.mem_map_of_mem inBody))
  obtain ⟨place, atPlace⟩ := List.mem_iff_getElem?.1 inLeft
  refine noLoop place atom.relation ⟨other, atPlace, partner, inOther, sameRelation, ?_⟩
  rw [← same.head]
  exact ⟨(similar.symm.leads interdependent.1 trivial).1,
    (similar.symm.leads interdependent.2 trivial).1⟩

section Accepted

variable (similar : SimilarDefinitions valid (fun _ => True) left right)
  (accepted : stratify left = .ok stratification)
  (otherAccepted : stratify right = .ok otherStratification)
include similar accepted otherAccepted

/-- Similar rule sets have the same model. -/
theorem stratifiedModel_eq :
    left.stratifiedModel stratification.strata =
      right.stratifiedModel otherStratification.strata := by
  have agree := similar.agreeOn_stratifiedModel (stratifies_of_ok accepted)
    (stratifies_of_ok otherAccepted)
  exact Set.ext fun fact => agree fact trivial

/-- Every stratum of a rule set settles as fast as one of a similar rule set. -/
theorem settles {budget : Nat}
    (settles : ∀ before stratum, before ++ [stratum] <+: stratification.strata →
      Settles (left.rulesOf stratum) (left.stratifiedModel before) budget)
    {before : List Stratum} {stratum : Stratum}
    (inStrata : before ++ [stratum] <+: otherStratification.strata) :
    Settles (right.rulesOf stratum) (right.stratifiedModel before) budget := by
  have stratifies := stratifies_of_ok accepted
  have otherStratifies := stratifies_of_ok otherAccepted
  obtain ⟨after, split⟩ := inStrata
  have atOther : otherStratification.strata[before.length]? = some stratum := by
    simp [← split]
  have isBefore : otherStratification.strata.take before.length = before := by
    simp [← split]
  -- A stratum has a rule, whose relation is in a stratum of the other rule set too.
  obtain ⟨rule, hasRule⟩ := exists_hasRule_of_ok otherAccepted stratum
    (List.mem_of_getElem? atOther)
  have inOther := (otherStratifies.mem_relations_iff stratum (List.mem_of_getElem? atOther)
    rule.head.relation).2 ⟨rule, hasRule, rfl⟩
  obtain ⟨place, ownStratum, atPlace, inOwn⟩ :=
    similar.symm.exists_otherStratum otherStratifies stratifies atOther inOther trivial
  obtain ⟨forth, _⟩ :=
    similar.exchanges_rulesOf stratifies otherStratifies atPlace atOther inOwn inOther trivial
  obtain ⟨back, _⟩ := similar.symm.exchanges_rulesOf otherStratifies stratifies atOther atPlace
    inOther inOwn trivial
  have agree := similar.agreeOn_below stratifies otherStratifies atPlace atOther inOwn inOther
    trivial fun fact _ => by rw [similar.stratifiedModel_eq accepted otherAccepted]
  rw [isBefore] at agree
  refine .congr forth back (similar.leastModel_subset_left _ _)
    (similar.symm.leastModel_subset_left _ _) agree
    (settles (stratification.strata.take place) ownStratum ?_)
  obtain ⟨inBounds, rfl⟩ := List.getElem?_eq_some_iff.1 atPlace
  rw [← List.take_succ_eq_append_getElem inBounds]
  exact List.take_prefix _ _

end Accepted

/-- Stores that similar rule sets evaluate to have the same content. -/
theorem sameContent (similar : SimilarDefinitions valid (fun _ => True) left right)
    {otherLimits : Limits} {store otherStore : FactStore}
    (isOk : left.evaluate limits = .ok store)
    (isOtherOk : right.evaluate otherLimits = .ok otherStore) :
    store.SameContent otherStore := by
  obtain ⟨stratification, accepted, wellFormed, isModel⟩ :=
    RuleSet.exists_facts_eq_of_evaluate isOk
  obtain ⟨otherStratification, otherAccepted, otherWellFormed, isOtherModel⟩ :=
    RuleSet.exists_facts_eq_of_evaluate isOtherOk
  refine wellFormed.sameContent otherWellFormed ?_
  rw [isModel, isOtherModel, similar.stratifiedModel_eq accepted otherAccepted]

/-- A consistent rule set is evaluated successfully if a similar one is, with the same facts. -/
theorem exists_evaluate (similar : SimilarDefinitions valid (fun _ => True) left right)
    (otherChecked : right.check = .ok ()) {store : FactStore}
    (isOk : left.evaluate limits = .ok store) :
    ∃ otherStore, right.evaluate limits = .ok otherStore ∧ store.SameContent otherStore := by
  obtain ⟨checked, stratification, accepted, isRun⟩ := RuleSet.evaluate_eq_ok_iff.1 isOk
  obtain ⟨otherStratification, otherAccepted⟩ := similar.exists_stratify accepted
  have semipositive := RuleSet.semipositive_rulesOf checked accepted
  have otherSemipositive := RuleSet.semipositive_rulesOf otherChecked otherAccepted
  have sameModel := similar.stratifiedModel_eq accepted otherAccepted
  obtain ⟨fits, settles⟩ := (RuleSet.exists_run_iff semipositive).1 ⟨store, isRun⟩
  obtain ⟨otherStore, isOtherRun⟩ := (RuleSet.exists_run_iff otherSemipositive).2
    ⟨sameModel ▸ fits, fun before stratum => similar.settles accepted otherAccepted settles⟩
  have isOtherOk : right.evaluate limits = .ok otherStore :=
    RuleSet.evaluate_eq_ok_iff.2 ⟨otherChecked, _, otherAccepted, isOtherRun⟩
  exact ⟨otherStore, isOtherOk, similar.sameContent isOk isOtherOk⟩

end Datalog.SimilarDefinitions
