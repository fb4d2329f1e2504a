import Datalog.Proofs.Stratification.Strata

/-!
# The order of strata

`Stratifies` is what strata are for: every rule has one place, the relations of a stratum
are those its rules define, interdependent relations stand together, and dependencies come
first, negated ones strictly. `stratifies_of_ok` derives this for the strata of every rule
set that is not refused, from the numbers of their components.
-/

namespace Datalog

/-- Some rule defines a relation. -/
def Defines (rules : List Rule) (relation : String) : Prop :=
  ∃ rule ∈ rules, rule.head.relation = relation

/-- A rule stands in a stratum. -/
def Stratum.HasRule (stratum : Stratum) (rules : List Rule) (rule : Rule) : Prop :=
  ∃ index ∈ stratum.rules, rules[index]? = some rule

/-- Strata in which every rule has one place and finds what it depends on closed in time. -/
structure Stratifies (rules : List Rule) (stratification : Stratification) : Prop where
  /-- Every rule is in exactly one stratum. -/
  exists_unique : ∀ index < rules.length,
    ∃! place : Nat, ∃ stratum, stratification.strata[place]? = some stratum ∧
      index ∈ stratum.rules
  /-- Strata list indices of rules only. -/
  lt_length : ∀ stratum ∈ stratification.strata, ∀ index ∈ stratum.rules, index < rules.length
  /-- The rules of a stratum keep their order. -/
  increasing : ∀ stratum ∈ stratification.strata, stratum.rules.Pairwise (· < ·)
  /-- A stratum lists each of its relations once. -/
  nodup : ∀ stratum ∈ stratification.strata, stratum.relations.Nodup
  /-- The relations of a stratum are those that its rules define. -/
  mem_relations_iff : ∀ stratum ∈ stratification.strata, ∀ relation,
    relation ∈ stratum.relations ↔
      ∃ rule, stratum.HasRule rules rule ∧ rule.head.relation = relation
  /-- No relation is in two strata. -/
  disjoint : stratification.strata.Pairwise fun earlier later =>
    earlier.relations.Disjoint later.relations
  /-- Defined relations are in one stratum exactly if each depends on the other. -/
  shared_iff : ∀ first second, Defines rules first → Defines rules second →
    ((∃ stratum ∈ stratification.strata,
      first ∈ stratum.relations ∧ second ∈ stratum.relations) ↔
      Interdependent rules first second)
  /-- A defined relation in a positive atom is in no later stratum. -/
  positive_le : ∀ (place : Nat) stratum, stratification.strata[place]? = some stratum →
    ∀ rule, stratum.HasRule rules rule → ∀ atom ∈ rule.positive, Defines rules atom.relation →
      ∃ lower ≤ place, stratification.stratumOf? atom.relation = some lower
  /-- A defined relation in a negated atom is in an earlier stratum. -/
  negative_lt : ∀ (place : Nat) stratum, stratification.strata[place]? = some stratum →
    ∀ rule, stratum.HasRule rules rule → ∀ atom ∈ rule.negative, Defines rules atom.relation →
      ∃ lower < place, stratification.stratumOf? atom.relation = some lower
  /-- A stratum is recursive exactly if it has several relations or one that feeds itself. -/
  recursive_iff : ∀ stratum ∈ stratification.strata, stratum.recursive = true ↔
    1 < stratum.relations.length ∨ ∃ rule, stratum.HasRule rules rule ∧
      ∃ atom ∈ rule.positive ++ rule.negative, atom.relation ∈ stratum.relations

/-- The stratum of a relation is the one that lists it, where no two strata do. -/
theorem Stratification.stratumOf?_eq_some {stratification : Stratification}
    (disjoint : stratification.strata.Pairwise fun earlier later =>
      earlier.relations.Disjoint later.relations)
    {place : Nat} {stratum : Stratum} (atPlace : stratification.strata[place]? = some stratum)
    {relation : String} (member : relation ∈ stratum.relations) :
    stratification.stratumOf? relation = some place := by
  obtain ⟨inBounds, rfl⟩ := List.getElem?_eq_some_iff.1 atPlace
  refine List.findIdx?_eq_some_iff_getElem.2 ⟨inBounds, by simpa using member, ?_⟩
  intro earlier before inEarlier
  have apart := List.pairwise_iff_getElem.1 disjoint earlier place
    (Nat.lt_trans before inBounds) inBounds before
  exact apart (by simpa using inEarlier) member

namespace Places

variable {rules : List Rule} {strata : List Stratum} {places : List Nat}

/-- The rules of a stratum are those whose heads are in its component. -/
theorem hasRule_iff {component : Nat} {stratum : Stratum}
    (isStratum : IsStratumOf rules component stratum) (rule : Rule) :
    stratum.HasRule rules rule ↔
      rule ∈ rules ∧ InComponent rules rule.head.relation component := by
  constructor
  · rintro ⟨index, inRules, atPlace⟩
    obtain ⟨other, atOther, inComponent⟩ := (isStratum.mem_rules index).1 inRules
    rw [atPlace, Option.some.injEq] at atOther
    exact ⟨List.mem_of_getElem? atPlace, atOther ▸ inComponent⟩
  · rintro ⟨member, inComponent⟩
    obtain ⟨index, atPlace⟩ := List.mem_iff_getElem?.1 member
    exact ⟨index, (isStratum.mem_rules index).2 ⟨rule, atPlace, inComponent⟩, atPlace⟩

/-- Different strata have different relations. -/
theorem disjoint (isPlaced : Places rules strata places) :
    strata.Pairwise fun earlier later => earlier.relations.Disjoint later.relations := by
  refine List.pairwise_iff_getElem.2 fun first second firstInBounds secondInBounds less => ?_
  intro relation inFirst inSecond
  obtain ⟨left, atLeft, isLeft⟩ :=
    isPlaced.exists_component (List.getElem?_eq_getElem firstInBounds)
  obtain ⟨right, atRight, isRight⟩ :=
    isPlaced.exists_component (List.getElem?_eq_getElem secondInBounds)
  have same := ((isLeft.mem_relations relation).1 inFirst).unique
    ((isRight.mem_relations relation).1 inSecond)
  exact absurd (isPlaced.place_unique atLeft (same ▸ atRight)) (Nat.ne_of_lt less)

/-- A defined relation that feeds a rule of a stratum is in an earlier stratum, or in the
same one if it is interdependent with the head of the rule. -/
theorem exists_stratumOf? (isPlaced : Places rules strata places) {place : Nat}
    {stratum : Stratum} (atPlace : strata[place]? = some stratum) {rule : Rule}
    (hasRule : stratum.HasRule rules rule) {atom : Atom}
    (inBody : atom ∈ rule.positive ++ rule.negative) (defined : Defines rules atom.relation) :
    ∃ lower ≤ place, (Stratification.mk strata).stratumOf? atom.relation = some lower ∧
      (lower = place → Interdependent rules atom.relation rule.head.relation) := by
  obtain ⟨component, atComponent, isStratum⟩ := isPlaced.exists_component atPlace
  obtain ⟨member, headInside⟩ := (hasRule_iff isStratum rule).1 hasRule
  obtain ⟨other, otherMember, isRelation⟩ := defined
  obtain ⟨lower, lowerStratum, lowerComponent, atLower, atLowerComponent, isLower, inLower⟩ :=
    isPlaced.exists_stratum otherMember
  rw [isRelation] at inLower
  have feeds : Feeds rules atom.relation rule.head.relation :=
    ⟨rule, member, rfl, atom, inBody, rfl⟩
  refine ⟨lower, ?_, ?_, ?_⟩
  · exact isPlaced.le_of_le atLowerComponent atComponent
      (inLower.le_of_leads headInside (.single feeds))
  · exact Stratification.stratumOf?_eq_some isPlaced.disjoint atLower
      ((isLower.mem_relations _).2 inLower)
  · rintro rfl
    rw [atComponent, Option.some.injEq] at atLowerComponent
    exact (inLower.eq_iff headInside).1 atLowerComponent.symm

/-- Strata that stand at the places of their components stratify rules without negative
loops. -/
theorem stratifies (isPlaced : Places rules strata places)
    (noLoop : ∀ index relation, ¬ NegativeLoop rules index relation) :
    Stratifies rules ⟨strata⟩ where
  exists_unique := by
    intro index inBounds
    have atIndex := List.getElem?_eq_getElem inBounds
    obtain ⟨place, stratum, component, atPlace, atComponent, isStratum, inComponent⟩ :=
      isPlaced.exists_stratum (List.getElem_mem inBounds)
    refine ⟨place, ⟨stratum, atPlace, (isStratum.mem_rules index).2 ⟨_, atIndex, inComponent⟩⟩, ?_⟩
    rintro other ⟨otherStratum, atOther, inOther⟩
    obtain ⟨otherComponent, atOtherComponent, isOther⟩ := isPlaced.exists_component atOther
    obtain ⟨rule, atRule, ruleInside⟩ := (isOther.mem_rules index).1 inOther
    rw [atIndex, Option.some.injEq] at atRule
    rw [← atRule] at ruleInside
    exact isPlaced.place_unique atOtherComponent (ruleInside.unique inComponent ▸ atComponent)
  lt_length := by
    intro stratum member index inRules
    obtain ⟨place, atPlace⟩ := List.mem_iff_getElem?.1 member
    obtain ⟨component, _, isStratum⟩ := isPlaced.exists_component atPlace
    obtain ⟨rule, atRule, _⟩ := (isStratum.mem_rules index).1 inRules
    exact (List.getElem?_eq_some_iff.1 atRule).1
  increasing := by
    intro stratum member
    obtain ⟨place, atPlace⟩ := List.mem_iff_getElem?.1 member
    obtain ⟨component, _, isStratum⟩ := isPlaced.exists_component atPlace
    exact isStratum.increasing
  nodup := by
    intro stratum member
    obtain ⟨place, atPlace⟩ := List.mem_iff_getElem?.1 member
    obtain ⟨component, _, isStratum⟩ := isPlaced.exists_component atPlace
    exact isStratum.nodup
  mem_relations_iff := by
    intro stratum member relation
    obtain ⟨place, atPlace⟩ := List.mem_iff_getElem?.1 member
    obtain ⟨component, _, isStratum⟩ := isPlaced.exists_component atPlace
    rw [mem_relations_iff isStratum]
    constructor
    · rintro ⟨index, inRules, rule, atRule, isHead⟩
      exact ⟨rule, ⟨index, inRules, atRule⟩, isHead⟩
    · rintro ⟨rule, ⟨index, inRules, atRule⟩, isHead⟩
      exact ⟨index, inRules, rule, atRule, isHead⟩
  disjoint := isPlaced.disjoint
  shared_iff := by
    rintro _ _ ⟨left, leftMember, rfl⟩ ⟨right, rightMember, rfl⟩
    obtain ⟨leftPlace, leftStratum, leftComponent, atLeft, _, isLeft, inLeft⟩ :=
      isPlaced.exists_stratum leftMember
    obtain ⟨rightComponent, inRight⟩ := InComponent.exists_head rightMember
    rw [← inLeft.eq_iff inRight]
    constructor
    · rintro ⟨stratum, member, leftInside, rightInside⟩
      obtain ⟨place, atPlace⟩ := List.mem_iff_getElem?.1 member
      obtain ⟨component, _, isStratum⟩ := isPlaced.exists_component atPlace
      exact (inLeft.unique ((isStratum.mem_relations _).1 leftInside)).trans
        (((isStratum.mem_relations _).1 rightInside).unique inRight)
    · rintro rfl
      exact ⟨leftStratum, List.mem_of_getElem? atLeft, (isLeft.mem_relations _).2 inLeft,
        (isLeft.mem_relations _).2 inRight⟩
  positive_le := by
    intro place stratum atPlace rule hasRule atom inBody defined
    obtain ⟨lower, notLater, isLower, _⟩ := isPlaced.exists_stratumOf? atPlace hasRule
      (List.mem_append_left _ inBody) defined
    exact ⟨lower, notLater, isLower⟩
  negative_lt := by
    intro place stratum atPlace rule hasRule atom inBody defined
    obtain ⟨lower, notLater, isLower, ifSame⟩ := isPlaced.exists_stratumOf? atPlace hasRule
      (List.mem_append_right _ inBody) defined
    refine ⟨lower, Nat.lt_of_le_of_ne notLater fun same => ?_, isLower⟩
    obtain ⟨index, _, atIndex⟩ := hasRule
    exact noLoop index atom.relation ⟨rule, atIndex, atom, inBody, rfl, ifSame same⟩
  recursive_iff := by
    intro stratum member
    obtain ⟨place, atPlace⟩ := List.mem_iff_getElem?.1 member
    obtain ⟨component, _, isStratum⟩ := isPlaced.exists_component atPlace
    rw [isStratum.recursive_iff]
    refine or_congr_right ⟨?_, ?_⟩
    · rintro ⟨_, _, ⟨rule, member, rfl, atom, inBody, rfl⟩, sourceInside, headInside⟩
      exact ⟨rule, (hasRule_iff isStratum rule).2 ⟨member, headInside⟩, atom, inBody,
        (isStratum.mem_relations _).2 sourceInside⟩
    · rintro ⟨rule, hasRule, atom, inBody, sourceInside⟩
      obtain ⟨member, headInside⟩ := (hasRule_iff isStratum rule).1 hasRule
      exact ⟨atom.relation, rule.head.relation, ⟨rule, member, rfl, atom, inBody, rfl⟩,
        (isStratum.mem_relations _).1 sourceInside, headInside⟩

end Places

/-- Rules that are not refused have no negative loop, and their strata are those of the
components of their graph. -/
theorem stratifyRules_eq_ok_iff {rules : List Rule} {stratification : Stratification} :
    stratifyRules rules = .ok stratification ↔
      (∀ index relation, ¬ NegativeLoop rules index relation) ∧
        stratification = ⟨(DependencyGraph.ofRules rules).strata
          (DependencyGraph.ofRules rules).numbers (componentCount rules) rules⟩ := by
  rw [← DependencyGraph.negativeCycle?_eq_none_iff, stratifyRules_eq]
  cases (DependencyGraph.ofRules rules).negativeCycle? (DependencyGraph.ofRules rules).numbers with
  | none => simp [componentCount, eq_comm]
  | some cycle => simp

/-- The strata of rules that are not refused stratify them. -/
theorem stratifies_of_ok {rules : List Rule} {stratification : Stratification}
    (accepted : stratifyRules rules = .ok stratification) : Stratifies rules stratification := by
  obtain ⟨noLoop, rfl⟩ := stratifyRules_eq_ok_iff.1 accepted
  obtain ⟨places, isPlaced⟩ := exists_places rules
  exact isPlaced.stratifies noLoop

/-- Every stratum of rules that are not refused has a rule. -/
theorem exists_hasRule_of_ok {rules : List Rule} {stratification : Stratification}
    (accepted : stratifyRules rules = .ok stratification) :
    ∀ stratum ∈ stratification.strata, ∃ rule, stratum.HasRule rules rule := by
  intro stratum member
  obtain ⟨_, rfl⟩ := stratifyRules_eq_ok_iff.1 accepted
  obtain ⟨places, isPlaced⟩ := exists_places rules
  obtain ⟨place, atPlace⟩ := List.mem_iff_getElem?.1 member
  obtain ⟨component, _, isStratum⟩ := isPlaced.exists_component atPlace
  obtain ⟨index, inRules⟩ := List.exists_mem_of_ne_nil _ isStratum.nonempty
  obtain ⟨rule, atIndex, _⟩ := (isStratum.mem_rules index).1 inRules
  exact ⟨rule, index, inRules, atIndex⟩

/-- The strata of a rule set that is not refused stratify its rules. -/
theorem stratify_stratifies {ruleSet : RuleSet} {stratification : Stratification}
    (accepted : stratify ruleSet = .ok stratification) :
    Stratifies ruleSet.rules.toList stratification :=
  stratifies_of_ok accepted

/-- Even and odd numbers by mutual recursion, and the numbers that are even and not odd. -/
def parity : RuleSet :=
  let facts : List Fact := [⟨"even", [.int 0]⟩, ⟨"succ", [.int 0, .int 1]⟩,
    ⟨"succ", [.float ⟨0x3ff0000000000000⟩, .int 2]⟩]
  let step : Atom := ⟨"succ", .ordered [.var "Y", .var "X"]⟩
  let rules : List Rule := [
    ⟨⟨"odd", .ordered [.var "X"]⟩, [⟨"even", .ordered [.var "Y"]⟩, step], [], []⟩,
    ⟨⟨"even", .ordered [.var "X"]⟩, [⟨"odd", .ordered [.var "Y"]⟩, step], [], []⟩,
    ⟨⟨"pure", .ordered [.var "X"]⟩, [⟨"even", .ordered [.var "X"]⟩],
      [⟨"odd", .ordered [.var "X"]⟩], []⟩]
  rules.foldl (fun set rule => (set.addRule rule).1) (RuleSet.empty.withFacts facts)

/-- The strata of `parity`: the two relations that define each other, then the third. -/
def parityStrata : Stratification :=
  ⟨[⟨[0, 1], ["odd", "even"], true⟩, ⟨[2], ["pure"], false⟩]⟩

/-- Mutual recursion shares a stratum, and negation reads it from the next one. -/
theorem stratifies_parity :
    stratify parity = .ok parityStrata ∧ Stratifies parity.rules.toList parityStrata := by
  have accepted : stratify parity = .ok parityStrata := by decide +kernel
  exact ⟨accepted, stratify_stratifies accepted⟩

end Datalog
