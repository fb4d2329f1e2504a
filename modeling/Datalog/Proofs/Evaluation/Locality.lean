import Datalog.Proofs.Evaluation.Closure
import Datalog.Proofs.RuleSet.Equality

/-!
# What a stratum depends on

Rules see only the relations that they mention, and add only facts of the relations that they
define. So a stratum finds the stated facts of its own relations and the final content of
every other relation that it mentions (`Stratifies.mem_below_iff`), and a relation has the
facts that its own stratum gives it (`Stratifies.mem_model_iff_leastModel`). Where the other
strata stand does not matter for this. Nor does it matter how the rules are written, as long as
they can be exchanged for each other among the facts of the model (`agreeOn_leastModel`).
-/

namespace Datalog

/-- Rules define a relation or read it. -/
def Mentions (rules : List Rule) (relation : String) : Prop :=
  ∃ rule ∈ rules, rule.head.relation = relation ∨
    ∃ atom ∈ rule.positive ++ rule.negative, atom.relation = relation

/-- Two sets have the same facts of the relations of a class. -/
def AgreeOn (relations : String → Prop) (known other : Set Fact) : Prop :=
  ∀ fact : Fact, relations fact.relation → (fact ∈ known ↔ fact ∈ other)

/-- Every rule of the first list is equal to one of the second. -/
def Covers (rules others : List Rule) : Prop :=
  ∀ rule ∈ rules, ∃ other ∈ others, (rule == other) = true

/-- Rules that define and read the same relations and derive the same from facts of a set. -/
structure Rule.Interchangeable (valid : Set Fact) (rule other : Rule) : Prop where
  head : rule.head.relation = other.head.relation
  positive : (rule.positive.map AtomOf.relation).Perm (other.positive.map AtomOf.relation)
  negative : (rule.negative.map AtomOf.relation).Perm (other.negative.map AtomOf.relation)
  derives : ∀ lower known : Set Fact, known ⊆ valid →
    consequences {rule} lower known = consequences {other} lower known

/-- Every rule of the first list can be exchanged for one of the second. -/
def Exchanges (valid : Set Fact) (rules others : List Rule) : Prop :=
  ∀ rule ∈ rules, ∃ other ∈ others, rule.Interchangeable valid other

/-- Agreement has no direction. -/
theorem AgreeOn.symm {relations : String → Prop} {known other : Set Fact}
    (agree : AgreeOn relations known other) : AgreeOn relations other known :=
  fun fact inClass => (agree fact inClass).symm

/-- What rules define they mention. -/
theorem mentions_of_defines {rules : List Rule} {relation : String}
    (defined : Defines rules relation) : Mentions rules relation := by
  obtain ⟨rule, member, isHead⟩ := defined
  exact ⟨rule, member, .inl isHead⟩

/-- What a single rule derives. -/
theorem mem_consequences_singleton_iff {rule : Rule} {lower known : Set Fact} {fact : Fact} :
    fact ∈ consequences {rule} lower known ↔
      ∃ valuation, rule.Applies lower known valuation ∧
        (rule.head.factUnder valuation == fact) = true := by
  simp [consequences]

namespace Rule

variable {valid : Set Fact} {rule other third : Rule}

/-- Exchanging rules has no direction. -/
theorem Interchangeable.symm (same : rule.Interchangeable valid other) :
    other.Interchangeable valid rule where
  head := same.head.symm
  positive := same.positive.symm
  negative := same.negative.symm
  derives lower known isValid := (same.derives lower known isValid).symm

/-- Rules can be exchanged one after the other. -/
theorem Interchangeable.trans (same : rule.Interchangeable valid other)
    (alike : other.Interchangeable valid third) : rule.Interchangeable valid third where
  head := same.head.trans alike.head
  positive := same.positive.trans alike.positive
  negative := same.negative.trans alike.negative
  derives lower known isValid :=
    (same.derives lower known isValid).trans (alike.derives lower known isValid)

/-- Each atom in the body of a rule reads a relation that an interchangeable one reads. -/
theorem Interchangeable.exists_body (same : rule.Interchangeable valid other) {atom : Atom}
    (inBody : atom ∈ rule.positive ++ rule.negative) :
    ∃ partner ∈ other.positive ++ other.negative, partner.relation = atom.relation := by
  have perm := same.positive.append same.negative
  rw [← List.map_append, ← List.map_append] at perm
  exact List.mem_map.1 (perm.subset (List.mem_map_of_mem inBody))

/-- Equal rules can be exchanged, whatever the facts. -/
theorem interchangeable_of_beq (equal : (rule == other) = true) :
    rule.Interchangeable valid other := by
  have derives {left right : Rule} (equal : (left == right) = true) (lower known : Set Fact) :
      consequences {left} lower known ⊆ consequences {right} lower known := by
    intro fact derived
    obtain ⟨valuation, applies, isHead⟩ := mem_consequences_singleton_iff.1 derived
    refine mem_consequences_singleton_iff.2 ⟨valuation, applies.congr equal ?_ ?_, ?_⟩
    · exact fun _ _ _ isKnown _ => isKnown
    · exact fun _ _ _ isLower _ => isLower
    · exact BEq.trans (HeadAtom.factUnder_congr (head_congr (beq_symm equal))) isHead
  have sameBody := (Prod.mk.inj (beq_iff.1 equal)).2
  have relations {atoms others : List Atom}
      (same : (atoms.map canonical).Perm (others.map canonical)) :
      (atoms.map AtomOf.relation).Perm (others.map AtomOf.relation) := by
    have sameRelations := same.map AtomOf.relation
    rwa [List.map_map, List.map_map] at sameRelations
  constructor
  · exact relation_congr equal
  · exact relations (Multiset.coe_eq_coe.1 (Prod.mk.inj sameBody).1)
  · exact relations (Multiset.coe_eq_coe.1 (Prod.mk.inj (Prod.mk.inj sameBody).2).1)
  · intro lower known _
    exact Set.Subset.antisymm (derives equal lower known) (derives (beq_symm equal) lower known)

end Rule

/-- Equal rules can be exchanged. -/
theorem Covers.exchanges {rules others : List Rule} (covers : Covers rules others)
    (valid : Set Fact) : Exchanges valid rules others := by
  intro rule member
  obtain ⟨other, inOthers, equal⟩ := covers rule member
  exact ⟨other, inOthers, Rule.interchangeable_of_beq equal⟩

namespace Exchanges

variable {valid : Set Fact} {rules others : List Rule} {relation : String}

/-- Rules that can be exchanged for those of another list mention no other relations. -/
theorem mentions (exchanges : Exchanges valid rules others)
    (mentioned : Mentions rules relation) : Mentions others relation := by
  obtain ⟨rule, member, isMentioned⟩ := mentioned
  obtain ⟨other, inOthers, same⟩ := exchanges rule member
  refine ⟨other, inOthers, isMentioned.imp ?_ ?_⟩
  · exact fun isHead => same.head.symm.trans isHead
  · rintro ⟨atom, inBody, isRelation⟩
    obtain ⟨partner, inOther, sameRelation⟩ := same.exists_body inBody
    exact ⟨partner, inOther, sameRelation.trans isRelation⟩

/-- Rules that can be exchanged for those of another list define no other relations. -/
theorem defines (exchanges : Exchanges valid rules others)
    (defined : Defines rules relation) : Defines others relation := by
  obtain ⟨rule, member, isHead⟩ := defined
  obtain ⟨other, inOthers, same⟩ := exchanges rule member
  exact ⟨other, inOthers, same.head.symm.trans isHead⟩

/-- Interchangeable rules derive the same from the facts of the relations that they mention. -/
theorem consequences_subset (exchanges : Exchanges valid rules others)
    {lower known otherLower otherKnown : Set Fact} (isValid : known ⊆ valid)
    (moreKnown : ∀ fact ∈ known, Mentions rules fact.relation → fact ∈ otherKnown)
    (fewerLower : ∀ fact ∈ otherLower, Mentions rules fact.relation → fact ∈ lower) :
    consequences rules lower known ⊆ consequences others otherLower otherKnown := by
  rintro fact ⟨rule, member, valuation, applies, isHead⟩
  obtain ⟨other, inOthers, same⟩ := exchanges rule member
  have mentions {atom : Atom} (inBody : atom ∈ rule.positive ++ rule.negative) :
      Mentions rules atom.relation := ⟨rule, member, .inr ⟨atom, inBody, rfl⟩⟩
  -- The rule itself needs the facts that it mentions only, so these may be exchanged first.
  have derived : fact ∈ consequences {rule} otherLower
      {found ∈ known | Mentions rules found.relation} := by
    refine mem_consequences_singleton_iff.2 ⟨valuation, ⟨?_, ?_, applies.constraints⟩, isHead⟩
    · intro atom inBody
      obtain ⟨found, isKnown, isMatch⟩ := applies.positive atom inBody
      exact ⟨found, ⟨isKnown, isMatch.1 ▸ mentions (List.mem_append_left _ inBody)⟩, isMatch⟩
    · rintro atom inBody ⟨found, isLower, isMatch⟩
      refine applies.negative atom inBody ⟨found, fewerLower found isLower ?_, isMatch⟩
      exact isMatch.1 ▸ mentions (List.mem_append_right _ inBody)
  rw [same.derives _ _ fun found isKnown => isValid isKnown.1] at derived
  have included : {found ∈ known | Mentions rules found.relation} ⊆ otherKnown :=
    fun found isKnown => moreKnown found isKnown.1 isKnown.2
  obtain ⟨valuation, applies, isHead⟩ :=
    mem_consequences_singleton_iff.1 (consequences_mono included derived)
  exact ⟨other, inOthers, valuation, applies, isHead⟩

end Exchanges

/-- Equal rules derive the same from the facts of the relations that they mention. -/
theorem Covers.consequences {rules others : List Rule} (covers : Covers rules others)
    {lower known otherLower otherKnown : Set Fact}
    (moreKnown : ∀ fact ∈ known, Mentions rules fact.relation → fact ∈ otherKnown)
    (fewerLower : ∀ fact ∈ otherLower, Mentions rules fact.relation → fact ∈ lower) :
    consequences rules lower known ⊆ consequences others otherLower otherKnown :=
  (covers.exchanges Set.univ).consequences_subset (Set.subset_univ known) moreKnown fewerLower

/-- Every list of rules covers itself. -/
theorem Covers.refl (rules : List Rule) : Covers rules rules :=
  fun rule member => ⟨rule, member, Rule.beq_iff.2 rfl⟩

/-- Consequences are facts of the relations that rules define. -/
theorem defines_of_mem_consequences {rules : List Rule} {lower known : Set Fact} {fact : Fact}
    (derived : fact ∈ consequences rules lower known) : Defines rules fact.relation := by
  obtain ⟨rule, member, valuation, _, isHead⟩ := derived
  exact ⟨rule, member, Fact.relation_congr isHead⟩

/-- A set of facts does not tell representations apart. -/
def Respectful (known : Set Fact) : Prop :=
  ∀ fact ∈ known, ∀ other : Fact, (fact == other) = true → other ∈ known

/-- A least model does not tell representations apart. -/
theorem respectful_leastModel (rules : List Rule) (lower : Set Fact) :
    Respectful (leastModel rules lower) :=
  (isLeast_leastModel rules lower).1.respects

/-- A least model adds facts of the relations that its rules define, and no others. -/
theorem mem_leastModel_iff_of_not_defines {rules : List Rule} {lower : Set Fact}
    (respectful : Respectful lower) {fact : Fact} (undefined : ¬ Defines rules fact.relation) :
    fact ∈ leastModel rules lower ↔ fact ∈ lower := by
  constructor
  · intro inLeast
    -- What is below or of a defined relation is closed, so it contains the least model.
    have isClosed : ClosedUnder rules lower
        {fact | fact ∈ lower ∨ Defines rules fact.relation} := by
      constructor
      · exact fun found inLower => .inl inLower
      · rintro found (inLower | defined) other equal
        · exact .inl (respectful found inLower other equal)
        · exact .inr (Fact.relation_congr equal ▸ defined)
      · exact fun found derived => .inr (defines_of_mem_consequences derived)
    exact (inLeast _ isClosed).resolve_right undefined
  · exact fun inLower => (isLeast_leastModel rules lower).1.above inLower

/-- The least models of interchangeable rules agree where what lies below them does. -/
theorem leastModel_subset {valid : Set Fact} {rules others : List Rule}
    (exchanges : Exchanges valid rules others) {lower otherLower : Set Fact}
    (isValid : leastModel rules lower ⊆ valid)
    (agree : AgreeOn (Mentions rules) lower otherLower) {fact : Fact}
    (mentioned : Mentions rules fact.relation) (inLeast : fact ∈ leastModel rules lower) :
    fact ∈ leastModel others otherLower := by
  intro known isClosed
  have isLeast := isLeast_leastModel rules lower
  -- The least model is not left by exchanging rules, since they agree on its facts.
  have closedAbove : ClosedUnder rules lower
      {fact ∈ leastModel rules lower | Mentions rules fact.relation → fact ∈ known} := by
    constructor
    · intro found inLower
      exact ⟨isLeast.1.above inLower,
        fun isMentioned => isClosed.above ((agree found isMentioned).1 inLower)⟩
    · rintro found ⟨inModel, isKnown⟩ other equal
      refine ⟨isLeast.1.respects found inModel other equal, fun isMentioned => ?_⟩
      have same := Fact.relation_congr equal
      exact isClosed.respects found (isKnown (same ▸ isMentioned)) other equal
    · intro found derived
      refine ⟨isLeast.1.closed (consequences_mono (fun _ => And.left) derived), fun _ => ?_⟩
      refine isClosed.closed (exchanges.consequences_subset ?_ ?_ ?_ derived)
      · exact fun other isKnown => isValid isKnown.1
      · exact fun other isKnown isMentioned => isKnown.2 isMentioned
      · exact fun other inLower isMentioned => (agree other isMentioned).2 inLower
  exact (inLeast _ closedAbove).2 mentioned

/-- The least models of rules that can be exchanged for each other agree where what lies below
them does. -/
theorem agreeOn_leastModel {valid : Set Fact} {rules others : List Rule}
    (forth : Exchanges valid rules others) (back : Exchanges valid others rules)
    {lower otherLower : Set Fact} (isValid : leastModel rules lower ⊆ valid)
    (isOtherValid : leastModel others otherLower ⊆ valid)
    (agree : AgreeOn (Mentions rules) lower otherLower) :
    AgreeOn (Mentions rules) (leastModel rules lower) (leastModel others otherLower) := by
  intro fact mentioned
  constructor
  · exact leastModel_subset forth isValid agree mentioned
  · exact leastModel_subset back isOtherValid
      (fun other isMentioned => (agree other (back.mentions isMentioned)).symm)
      (forth.mentions mentioned)

namespace RuleSet

variable {ruleSet : RuleSet}

/-- The stated facts do not tell representations apart. -/
theorem respectful_statedFacts (ruleSet : RuleSet) : Respectful ruleSet.statedFacts := by
  rintro fact ⟨stated, member, isStated⟩ other equal
  exact ⟨stated, member, BEq.trans isStated equal⟩

/-- A further stratum lies above those before it. -/
theorem stratifiedModel_concat (before : List Stratum) (stratum : Stratum) :
    ruleSet.stratifiedModel (before ++ [stratum]) =
      leastModel (ruleSet.rulesOf stratum) (ruleSet.stratifiedModel before) := by
  rw [stratifiedModel, List.foldl_append, coe_rulesOf]
  rfl

/-- The model of the first strata is part of that of all of them. -/
theorem stratifiedModel_before_subset {before strata : List Stratum}
    (isBefore : before <+: strata) :
    ruleSet.stratifiedModel before ⊆ ruleSet.stratifiedModel strata := by
  obtain ⟨after, rfl⟩ := isBefore
  induction after using List.reverseRecOn with
  | nil => rw [List.append_nil]
  | append_singleton after stratum inductionHypothesis =>
      rw [← List.append_assoc, stratifiedModel_concat]
      exact inductionHypothesis.trans (isLeast_leastModel _ _).1.above

/-- A model does not tell representations apart. -/
theorem respectful_stratifiedModel (strata : List Stratum) :
    Respectful (ruleSet.stratifiedModel strata) := by
  rcases strata.eq_nil_or_concat with rfl | ⟨before, stratum, rfl⟩
  · exact ruleSet.respectful_statedFacts
  · rw [List.concat_eq_append, stratifiedModel_concat]
    exact respectful_leastModel _ _

/-- Strata that do not define a relation leave it alone. -/
theorem mem_stratifiedModel_append_iff {before after : List Stratum} {fact : Fact}
    (undefined : ∀ stratum ∈ after, ¬ Defines (ruleSet.rulesOf stratum) fact.relation) :
    fact ∈ ruleSet.stratifiedModel (before ++ after) ↔ fact ∈ ruleSet.stratifiedModel before := by
  induction after using List.reverseRecOn with
  | nil => rw [List.append_nil]
  | append_singleton after stratum inductionHypothesis =>
      rw [← List.append_assoc, stratifiedModel_concat,
        mem_leastModel_iff_of_not_defines (respectful_stratifiedModel _)
          (undefined stratum (by simp))]
      exact inductionHypothesis fun lower member => undefined lower (List.mem_append_left _ member)

/-- A relation that no rule defines has its stated facts alone, whatever strata are closed. -/
theorem mem_stratifiedModel_iff_stated {strata : List Stratum} {fact : Fact}
    (undefined : ¬ Defines ruleSet.rules.toList fact.relation) :
    fact ∈ ruleSet.stratifiedModel strata ↔ fact ∈ ruleSet.statedFacts := by
  rw [← List.nil_append strata]
  refine mem_stratifiedModel_append_iff fun stratum member defined => undefined ?_
  obtain ⟨rule, inStratum, isHead⟩ := defined
  exact ⟨rule, mem_of_mem_rulesOf inStratum, isHead⟩

end RuleSet

namespace Stratifies

variable {ruleSet : RuleSet} {stratification : Stratification} {place : Nat} {stratum : Stratum}

/-- The relations of a stratum are those that its rules define. -/
theorem defines_rulesOf_iff (stratifies : Stratifies ruleSet.rules.toList stratification)
    (member : stratum ∈ stratification.strata) {relation : String} :
    Defines (ruleSet.rulesOf stratum) relation ↔ relation ∈ stratum.relations := by
  rw [stratifies.mem_relations_iff stratum member]
  simp only [Defines, RuleSet.mem_rulesOf_iff]

/-- Only one stratum has a relation. -/
theorem place_unique (stratifies : Stratifies ruleSet.rules.toList stratification)
    (atPlace : stratification.strata[place]? = some stratum) {relation : String}
    (member : relation ∈ stratum.relations) {other : Nat} {otherStratum : Stratum}
    (atOther : stratification.strata[other]? = some otherStratum)
    (inOther : relation ∈ otherStratum.relations) : other = place := by
  have first := Stratification.stratumOf?_eq_some stratifies.disjoint atPlace member
  have second := Stratification.stratumOf?_eq_some stratifies.disjoint atOther inOther
  exact Option.some.inj (second.symm.trans first)

/-- A relation is complete once its stratum is closed. -/
theorem mem_model_iff (stratifies : Stratifies ruleSet.rules.toList stratification)
    (atPlace : stratification.strata[place]? = some stratum) {fact : Fact}
    (member : fact.relation ∈ stratum.relations) {later : Nat} (isLater : place < later) :
    fact ∈ ruleSet.stratifiedModel stratification.strata ↔
      fact ∈ ruleSet.stratifiedModel (stratification.strata.take later) := by
  conv_lhs => rw [← List.take_append_drop later stratification.strata]
  refine RuleSet.mem_stratifiedModel_append_iff fun other inRest defined => ?_
  obtain ⟨distance, atDistance⟩ := List.mem_iff_getElem?.1 inRest
  rw [List.getElem?_drop] at atDistance
  have inOther := (stratifies.defines_rulesOf_iff (List.mem_of_mem_drop inRest)).1 defined
  have same := stratifies.place_unique atPlace member atDistance inOther
  omega

/-- A relation has its stated facts alone until its stratum is closed. -/
theorem mem_below_iff_stated (stratifies : Stratifies ruleSet.rules.toList stratification)
    (atPlace : stratification.strata[place]? = some stratum) {fact : Fact}
    (member : fact.relation ∈ stratum.relations) {earlier : Nat} (isEarlier : earlier ≤ place) :
    fact ∈ ruleSet.stratifiedModel (stratification.strata.take earlier) ↔
      fact ∈ ruleSet.statedFacts := by
  rw [← List.nil_append (stratification.strata.take earlier)]
  refine RuleSet.mem_stratifiedModel_append_iff fun other inFirst defined => ?_
  obtain ⟨index, atIndex⟩ := List.mem_iff_getElem?.1 inFirst
  rw [List.getElem?_take] at atIndex
  split at atIndex
  next before =>
    have inOther := (stratifies.defines_rulesOf_iff (List.mem_of_mem_take inFirst)).1 defined
    have same := stratifies.place_unique atPlace member atIndex inOther
    omega
  next => cases atIndex

/-- Relations that a stratum reads and does not define are those of earlier strata and those
without rules. -/
theorem exists_earlier (stratifies : Stratifies ruleSet.rules.toList stratification)
    (atPlace : stratification.strata[place]? = some stratum) {relation : String}
    (mentioned : Mentions (ruleSet.rulesOf stratum) relation)
    (foreign : relation ∉ stratum.relations) (defined : Defines ruleSet.rules.toList relation) :
    ∃ (lower : Nat) (lowerStratum : Stratum), lower < place ∧
      stratification.strata[lower]? = some lowerStratum ∧ relation ∈ lowerStratum.relations := by
  obtain ⟨rule, inStratum, isMentioned⟩ := mentioned
  have hasRule := RuleSet.mem_rulesOf_iff.1 inStratum
  rcases isMentioned with isHead | ⟨atom, inBody, rfl⟩
  · refine absurd ?_ foreign
    exact (stratifies.mem_relations_iff stratum (List.mem_of_getElem? atPlace) relation).2
      ⟨rule, hasRule, isHead⟩
  · have isLower : ∃ lower ≤ place,
        stratification.stratumOf? atom.relation = some lower := by
      rcases List.mem_append.1 inBody with inPositive | inNegative
      · exact stratifies.positive_le place stratum atPlace rule hasRule atom inPositive defined
      · obtain ⟨lower, before, isLower⟩ :=
          stratifies.negative_lt place stratum atPlace rule hasRule atom inNegative defined
        exact ⟨lower, before.le, isLower⟩
    obtain ⟨lower, notLater, isLower⟩ := isLower
    obtain ⟨inBounds, listed, _⟩ := List.findIdx?_eq_some_iff_getElem.1 isLower
    have atLower := List.getElem?_eq_getElem inBounds
    refine ⟨lower, stratification.strata[lower], ?_, atLower, by simpa using listed⟩
    refine lt_of_le_of_ne notLater fun same => foreign ?_
    subst same
    rw [atPlace, Option.some.injEq] at atLower
    simpa [atLower] using listed

/-- A stratum finds the stated facts of the relations that it defines, and the complete
content of the others that it mentions. -/
theorem mem_below_iff (stratifies : Stratifies ruleSet.rules.toList stratification)
    (atPlace : stratification.strata[place]? = some stratum) {fact : Fact}
    (mentioned : Mentions (ruleSet.rulesOf stratum) fact.relation) :
    fact ∈ ruleSet.stratifiedModel (stratification.strata.take place) ↔
      if fact.relation ∈ stratum.relations then fact ∈ ruleSet.statedFacts
      else fact ∈ ruleSet.stratifiedModel stratification.strata := by
  split
  next own => exact stratifies.mem_below_iff_stated atPlace own le_rfl
  next foreign =>
    by_cases defined : Defines ruleSet.rules.toList fact.relation
    · obtain ⟨lower, lowerStratum, before, atLower, inLower⟩ :=
        stratifies.exists_earlier atPlace mentioned foreign defined
      exact (stratifies.mem_model_iff atLower inLower before).symm
    · rw [RuleSet.mem_stratifiedModel_iff_stated defined,
        RuleSet.mem_stratifiedModel_iff_stated defined]

/-- Every rule is in a stratum. -/
theorem exists_mem_rulesOf (stratifies : Stratifies ruleSet.rules.toList stratification)
    {rule : Rule} (member : rule ∈ ruleSet.rules.toList) :
    ∃ (place : Nat) (stratum : Stratum), stratification.strata[place]? = some stratum ∧
      rule ∈ ruleSet.rulesOf stratum := by
  obtain ⟨index, atIndex⟩ := List.mem_iff_getElem?.1 member
  obtain ⟨place, ⟨stratum, atPlace, inRules⟩, _⟩ :=
    stratifies.exists_unique index (List.getElem?_eq_some_iff.1 atIndex).1
  exact ⟨place, stratum, atPlace, RuleSet.mem_rulesOf_iff.2 ⟨index, inRules, atIndex⟩⟩

/-- Every defined relation is in a stratum. -/
theorem exists_stratum (stratifies : Stratifies ruleSet.rules.toList stratification)
    {relation : String} (defined : Defines ruleSet.rules.toList relation) :
    ∃ (place : Nat) (stratum : Stratum), stratification.strata[place]? = some stratum ∧
      relation ∈ stratum.relations := by
  obtain ⟨rule, member, isHead⟩ := defined
  obtain ⟨place, stratum, atPlace, inStratum⟩ := stratifies.exists_mem_rulesOf member
  exact ⟨place, stratum, atPlace,
    (stratifies.defines_rulesOf_iff (List.mem_of_getElem? atPlace)).1 ⟨rule, inStratum, isHead⟩⟩

/-- A stratum has the rules of the relations that are interdependent with one of its own. -/
theorem mem_rulesOf_iff (stratifies : Stratifies ruleSet.rules.toList stratification)
    (atPlace : stratification.strata[place]? = some stratum) {relation : String}
    (inStratum : relation ∈ stratum.relations) {rule : Rule} :
    rule ∈ ruleSet.rulesOf stratum ↔ rule ∈ ruleSet.rules.toList ∧
      Interdependent ruleSet.rules.toList rule.head.relation relation := by
  have member := List.mem_of_getElem? atPlace
  obtain ⟨own, inOwn, isOwn⟩ := (stratifies.defines_rulesOf_iff member).2 inStratum
  have ownDefined : Defines ruleSet.rules.toList relation :=
    ⟨own, RuleSet.mem_of_mem_rulesOf inOwn, isOwn⟩
  constructor
  · intro inRules
    have inSet := RuleSet.mem_of_mem_rulesOf inRules
    refine ⟨inSet, (stratifies.shared_iff _ _ ⟨rule, inSet, rfl⟩ ownDefined).1
      ⟨stratum, member, ?_, inStratum⟩⟩
    exact (stratifies.defines_rulesOf_iff member).1 ⟨rule, inRules, rfl⟩
  · rintro ⟨inSet, interdependent⟩
    obtain ⟨shared, inStrata, headInside, inside⟩ :=
      (stratifies.shared_iff _ _ ⟨rule, inSet, rfl⟩ ownDefined).2 interdependent
    obtain ⟨other, atOther⟩ := List.mem_iff_getElem?.1 inStrata
    obtain rfl := stratifies.place_unique atPlace inStratum atOther inside
    obtain rfl := Option.some.inj (atPlace.symm.trans atOther)
    -- The rule has a place somewhere, and that stratum has its head as well.
    obtain ⟨found, foundStratum, atFound, inFound⟩ := stratifies.exists_mem_rulesOf inSet
    have headFound := (stratifies.defines_rulesOf_iff (List.mem_of_getElem? atFound)).1
      ⟨rule, inFound, rfl⟩
    obtain rfl := stratifies.place_unique atPlace headInside atFound headFound
    obtain rfl := Option.some.inj (atPlace.symm.trans atFound)
    exact inFound

/-- The model of a relation is the least model of its stratum over what lies below it. -/
theorem mem_model_iff_leastModel (stratifies : Stratifies ruleSet.rules.toList stratification)
    (atPlace : stratification.strata[place]? = some stratum) {fact : Fact}
    (inStratum : fact.relation ∈ stratum.relations) :
    fact ∈ ruleSet.stratifiedModel stratification.strata ↔
      fact ∈ leastModel (ruleSet.rulesOf stratum)
        (ruleSet.stratifiedModel (stratification.strata.take place)) := by
  obtain ⟨inBounds, rfl⟩ := List.getElem?_eq_some_iff.1 atPlace
  rw [stratifies.mem_model_iff atPlace inStratum (Nat.lt_succ_self place),
    List.take_succ_eq_append_getElem inBounds, RuleSet.stratifiedModel_concat]

end Stratifies

end Datalog
