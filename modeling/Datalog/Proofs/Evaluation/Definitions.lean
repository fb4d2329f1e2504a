import Datalog.Proofs.Evaluation.Locality

/-!
# What a model depends on

The model of a relation depends on its definitions and on those of the relations that they
mention, and on nothing else: rule sets that define the relations of a class alike have the
same facts of them (`SimilarDefinitions.agreeOn_stratifiedModel`), whatever strata they are
given. Definitions are alike if they are equal, which leaves the order of the rules and of
their bodies open, and more generally if they derive the same from all facts that can occur in
the models.
-/

namespace Datalog

/-- Two rule sets define the relations of a class alike: they state the same facts of them
and have equal rules for them, which mention only relations of the class. -/
structure SameDefinitions (relations : String → Prop) (left right : RuleSet) : Prop where
  stated : AgreeOn relations left.statedFacts right.statedFacts
  forth : ∀ rule ∈ left.rules.toList, relations rule.head.relation →
    ∃ other ∈ right.rules.toList, (rule == other) = true
  back : ∀ rule ∈ right.rules.toList, relations rule.head.relation →
    ∃ other ∈ left.rules.toList, (rule == other) = true
  closed : ∀ rule ∈ left.rules.toList, relations rule.head.relation →
    ∀ atom ∈ rule.positive ++ rule.negative, relations atom.relation

/-- Two rule sets define the relations of a class by rules that can be exchanged for each other
among the facts of a set, to which the facts of both models belong. -/
structure SimilarDefinitions (valid : Set Fact) (relations : String → Prop)
    (left right : RuleSet) : Prop where
  stated : AgreeOn relations left.statedFacts right.statedFacts
  forth : ∀ rule ∈ left.rules.toList, relations rule.head.relation →
    ∃ other ∈ right.rules.toList, rule.Interchangeable valid other
  back : ∀ rule ∈ right.rules.toList, relations rule.head.relation →
    ∃ other ∈ left.rules.toList, rule.Interchangeable valid other
  closed : ∀ rule ∈ left.rules.toList, relations rule.head.relation →
    ∀ atom ∈ rule.positive ++ rule.negative, relations atom.relation
  leftValid : ∀ strata, left.stratifiedModel strata ⊆ valid
  rightValid : ∀ strata, right.stratifiedModel strata ⊆ valid

/-- Equal definitions are similar among all facts. -/
theorem SameDefinitions.similar {relations : String → Prop} {left right : RuleSet}
    (same : SameDefinitions relations left right) :
    SimilarDefinitions Set.univ relations left right where
  stated := same.stated
  forth rule member inClass := by
    obtain ⟨other, inRight, equal⟩ := same.forth rule member inClass
    exact ⟨other, inRight, Rule.interchangeable_of_beq equal⟩
  back rule member inClass := by
    obtain ⟨other, inLeft, equal⟩ := same.back rule member inClass
    exact ⟨other, inLeft, Rule.interchangeable_of_beq equal⟩
  closed := same.closed
  leftValid _ := Set.subset_univ _
  rightValid _ := Set.subset_univ _

namespace SimilarDefinitions

variable {valid : Set Fact} {relations : String → Prop} {left right : RuleSet}
  {stratification otherStratification : Stratification}

/-- Having similar definitions has no direction. -/
theorem symm (similar : SimilarDefinitions valid relations left right) :
    SimilarDefinitions valid relations right left where
  stated := similar.stated.symm
  forth := similar.back
  back := similar.forth
  closed rule member inClass atom inBody := by
    obtain ⟨other, inLeft, same⟩ := similar.back rule member inClass
    obtain ⟨partner, inOther, sameRelation⟩ := same.exists_body inBody
    exact sameRelation ▸ similar.closed other inLeft (same.head ▸ inClass) partner inOther
  leftValid := similar.rightValid
  rightValid := similar.leftValid

/-- What leads to a relation of the class leads to it in both rule sets, and is of the class. -/
theorem leads (similar : SimilarDefinitions valid relations left right) {source target : String}
    (isLeading : Leads left.rules.toList source target) (inClass : relations target) :
    Leads right.rules.toList source target ∧ relations source := by
  induction isLeading using Relation.ReflTransGen.head_induction_on with
  | refl => exact ⟨.refl, inClass⟩
  | head feeds _ inductionHypothesis =>
      obtain ⟨rest, middleInClass⟩ := inductionHypothesis
      obtain ⟨rule, member, rfl, atom, inBody, rfl⟩ := feeds
      obtain ⟨other, inRight, same⟩ := similar.forth rule member middleInClass
      obtain ⟨partner, inOther, sameRelation⟩ := same.exists_body inBody
      have feeds : Feeds right.rules.toList atom.relation rule.head.relation :=
        ⟨other, inRight, same.head.symm, partner, inOther, sameRelation⟩
      exact ⟨.head feeds rest, similar.closed rule member middleInClass atom inBody⟩

/-- A relation of the class that one rule set gives a stratum has one in the other. -/
theorem exists_otherStratum (similar : SimilarDefinitions valid relations left right)
    (stratifies : Stratifies left.rules.toList stratification)
    (otherStratifies : Stratifies right.rules.toList otherStratification) {place : Nat}
    {stratum : Stratum} (atPlace : stratification.strata[place]? = some stratum)
    {relation : String} (inStratum : relation ∈ stratum.relations)
    (inClass : relations relation) :
    ∃ (otherPlace : Nat) (otherStratum : Stratum),
      otherStratification.strata[otherPlace]? = some otherStratum ∧
        relation ∈ otherStratum.relations := by
  obtain ⟨rule, inRules, rfl⟩ :=
    (stratifies.defines_rulesOf_iff (List.mem_of_getElem? atPlace)).2 inStratum
  obtain ⟨other, inRight, same⟩ := similar.forth rule (RuleSet.mem_of_mem_rulesOf inRules) inClass
  exact otherStratifies.exists_stratum ⟨other, inRight, same.head.symm⟩

/-- The strata of a relation of the class have interchangeable rules in both rule sets, and
these mention only relations of the class. -/
theorem exchanges_rulesOf (similar : SimilarDefinitions valid relations left right)
    (stratifies : Stratifies left.rules.toList stratification)
    (otherStratifies : Stratifies right.rules.toList otherStratification)
    {place otherPlace : Nat} {stratum otherStratum : Stratum}
    (atPlace : stratification.strata[place]? = some stratum)
    (atOther : otherStratification.strata[otherPlace]? = some otherStratum)
    {relation : String} (inStratum : relation ∈ stratum.relations)
    (inOther : relation ∈ otherStratum.relations) (inClass : relations relation) :
    Exchanges valid (left.rulesOf stratum) (right.rulesOf otherStratum) ∧
      ∀ mentioned, Mentions (left.rulesOf stratum) mentioned → relations mentioned := by
  constructor
  · intro rule inRules
    obtain ⟨member, forth, back⟩ := (stratifies.mem_rulesOf_iff atPlace inStratum).1 inRules
    obtain ⟨sameForth, headInClass⟩ := similar.leads forth inClass
    obtain ⟨other, inRight, same⟩ := similar.forth rule member headInClass
    refine ⟨other, (otherStratifies.mem_rulesOf_iff atOther inOther).2 ⟨inRight, ?_⟩, same⟩
    rw [← same.head]
    exact ⟨sameForth, (similar.leads back headInClass).1⟩
  · rintro mentioned ⟨rule, inRules, isMentioned⟩
    obtain ⟨member, forth, _⟩ := (stratifies.mem_rulesOf_iff atPlace inStratum).1 inRules
    have headInClass := (similar.leads forth inClass).2
    rcases isMentioned with rfl | ⟨atom, inBody, rfl⟩
    · exact headInClass
    · exact similar.closed rule member headInClass atom inBody

/-- A relation of the class without rules has the same facts in both models. -/
theorem mem_model_iff_of_not_defines (similar : SimilarDefinitions valid relations left right)
    {strata otherStrata : List Stratum} {fact : Fact} (inClass : relations fact.relation)
    (undefined : ¬ Defines left.rules.toList fact.relation) :
    fact ∈ left.stratifiedModel strata ↔ fact ∈ right.stratifiedModel otherStrata := by
  have otherUndefined : ¬ Defines right.rules.toList fact.relation := by
    rintro ⟨rule, member, isHead⟩
    obtain ⟨other, inLeft, same⟩ := similar.back rule member (isHead ▸ inClass)
    exact undefined ⟨other, inLeft, same.head.symm.trans isHead⟩
  rw [RuleSet.mem_stratifiedModel_iff_stated undefined,
    RuleSet.mem_stratifiedModel_iff_stated otherUndefined]
  exact similar.stated fact inClass

/-- The strata that define a relation of the class find the same below them. -/
theorem agreeOn_below (similar : SimilarDefinitions valid relations left right)
    (stratifies : Stratifies left.rules.toList stratification)
    (otherStratifies : Stratifies right.rules.toList otherStratification)
    {place otherPlace : Nat} {stratum otherStratum : Stratum}
    (atPlace : stratification.strata[place]? = some stratum)
    (atOther : otherStratification.strata[otherPlace]? = some otherStratum)
    {relation : String} (inStratum : relation ∈ stratum.relations)
    (inOther : relation ∈ otherStratum.relations) (inClass : relations relation)
    (agree : AgreeOn (fun mentioned => relations mentioned ∧
        Mentions (left.rulesOf stratum) mentioned ∧ mentioned ∉ stratum.relations)
      (left.stratifiedModel stratification.strata)
      (right.stratifiedModel otherStratification.strata)) :
    AgreeOn (Mentions (left.rulesOf stratum))
      (left.stratifiedModel (stratification.strata.take place))
      (right.stratifiedModel (otherStratification.strata.take otherPlace)) := by
  obtain ⟨forth, allInClass⟩ :=
    similar.exchanges_rulesOf stratifies otherStratifies atPlace atOther inStratum inOther inClass
  obtain ⟨back, _⟩ := similar.symm.exchanges_rulesOf otherStratifies stratifies atOther atPlace
    inOther inStratum inClass
  intro fact mentioned
  have shared : fact.relation ∈ stratum.relations ↔ fact.relation ∈ otherStratum.relations := by
    rw [← stratifies.defines_rulesOf_iff (List.mem_of_getElem? atPlace),
      ← otherStratifies.defines_rulesOf_iff (List.mem_of_getElem? atOther)]
    exact ⟨forth.defines, back.defines⟩
  rw [stratifies.mem_below_iff atPlace mentioned,
    otherStratifies.mem_below_iff atOther (forth.mentions mentioned)]
  by_cases own : fact.relation ∈ stratum.relations
  · rw [if_pos own, if_pos (shared.1 own)]
    exact similar.stated fact (allInClass _ mentioned)
  · rw [if_neg own, if_neg fun inside => own (shared.2 inside)]
    exact agree fact ⟨allInClass _ mentioned, mentioned, own⟩

/-- The facts of a stratum above others are among those for which the rules are alike. -/
theorem leastModel_subset_left (similar : SimilarDefinitions valid relations left right)
    (before : List Stratum) (stratum : Stratum) :
    leastModel (left.rulesOf stratum) (left.stratifiedModel before) ⊆ valid := by
  rw [← RuleSet.stratifiedModel_concat]
  exact similar.leftValid (before ++ [stratum])

/-- Rule sets that define the relations of a class alike have the same facts of them in their
models. -/
theorem agreeOn_stratifiedModel (similar : SimilarDefinitions valid relations left right)
    (stratifies : Stratifies left.rules.toList stratification)
    (otherStratifies : Stratifies right.rules.toList otherStratification) :
    AgreeOn relations (left.stratifiedModel stratification.strata)
      (right.stratifiedModel otherStratification.strata) := by
  -- By induction on the stratum of the relation: the strata before it agree already.
  have upTo (place : Nat) : ∀ stratum, stratification.strata[place]? = some stratum →
      ∀ fact : Fact, fact.relation ∈ stratum.relations → relations fact.relation →
        (fact ∈ left.stratifiedModel stratification.strata ↔
          fact ∈ right.stratifiedModel otherStratification.strata) := by
    induction place using Nat.strong_induction_on with
    | _ place inductionHypothesis =>
        intro stratum atPlace fact inStratum inClass
        obtain ⟨otherPlace, otherStratum, atOther, inOther⟩ :=
          similar.exists_otherStratum stratifies otherStratifies atPlace inStratum inClass
        rw [stratifies.mem_model_iff_leastModel atPlace inStratum,
          otherStratifies.mem_model_iff_leastModel atOther inOther]
        obtain ⟨forth, _⟩ := similar.exchanges_rulesOf stratifies otherStratifies atPlace atOther
          inStratum inOther inClass
        obtain ⟨back, _⟩ := similar.symm.exchanges_rulesOf otherStratifies stratifies atOther
          atPlace inOther inStratum inClass
        refine agreeOn_leastModel forth back (similar.leastModel_subset_left _ _)
          (similar.symm.leastModel_subset_left _ _) (similar.agreeOn_below stratifies
            otherStratifies atPlace atOther inStratum inOther inClass ?_) fact
          (mentions_of_defines
            ((stratifies.defines_rulesOf_iff (List.mem_of_getElem? atPlace)).2 inStratum))
        rintro other ⟨otherInClass, mentioned, foreign⟩
        by_cases defined : Defines left.rules.toList other.relation
        · obtain ⟨lower, lowerStratum, before, atLower, inLower⟩ :=
            stratifies.exists_earlier atPlace mentioned foreign defined
          exact inductionHypothesis lower before lowerStratum atLower other inLower otherInClass
        · exact similar.mem_model_iff_of_not_defines otherInClass defined
  intro fact inClass
  by_cases defined : Defines left.rules.toList fact.relation
  · obtain ⟨place, stratum, atPlace, inStratum⟩ := stratifies.exists_stratum defined
    exact upTo place stratum atPlace fact inStratum inClass
  · exact similar.mem_model_iff_of_not_defines inClass defined

end SimilarDefinitions

end Datalog
