import Mathlib.Data.Multiset.MapFold
import Datalog.Proofs.Evaluation.Model

/-!
# Equality of rules and rule sets

Rules are equal when their heads are and their bodies are rearrangements of each other, up to
the representation of terms; rule sets are equal when their facts and rules are
rearrangements of each other and their shapes agree. `Rule.beq_iff` and `RuleSet.beq_iff` say
this by multisets. What equal rules agree in is the rest of this module: the relations and
shapes that they use, the variables that they bind and need, and what they derive.
-/

namespace Datalog

/-- Lists with the same images have the same images place by place. -/
theorem forall₂_of_map_eq {α β : Type} {image : α → β} {left right : List α}
    (same : left.map image = right.map image) :
    List.Forall₂ (fun first second => image first = image second) left right := by
  rwa [← List.forall₂_eq_eq_eq, List.forall₂_map_left_iff, List.forall₂_map_right_iff] at same

/-- Members of one of two rearrangements have equal members of the other. -/
theorem exists_mem_of_perm_map {α β : Type} {image : α → β} {left right : List α}
    (same : (left.map image).Perm (right.map image)) {first : α} (member : first ∈ left) :
    ∃ second ∈ right, image first = image second := by
  obtain ⟨second, inRight, equal⟩ :=
    List.mem_map.1 (same.subset (List.mem_map_of_mem member))
  exact ⟨second, inRight, equal.symm⟩

namespace Rule

/-- What equality of rules depends on: the head, and the three parts of the body without
their order, each up to representation. -/
def essence (rule : Rule) :
    HeadAtom × Multiset Atom × Multiset Atom × Multiset Constraint :=
  (canonical rule.head, (rule.positive.map canonical : Multiset Atom),
    (rule.negative.map canonical : Multiset Atom),
    (rule.constraints.map canonical : Multiset Constraint))

/-- Rules are equal if their essences are. -/
theorem beq_iff {left right : Rule} :
    (left == right) = true ↔ left.essence = right.essence := by
  have unfolded : (left == right) = (left.head.relation == right.head.relation &&
      left.head == right.head && sameMembers left.positive right.positive &&
      sameMembers left.negative right.negative &&
      sameMembers left.constraints right.constraints) := rfl
  rw [unfolded]
  simp only [Bool.and_eq_true, sameMembers_iff, Canonical.beq_iff, essence, Prod.mk.injEq,
    Multiset.coe_eq_coe, and_assoc, beq_iff_eq]
  refine and_iff_right_of_imp fun same => ?_
  have sameRelation := congrArg AtomOf.relation same.1
  exact sameRelation

/-- Equality of rules has no direction. -/
theorem beq_symm {left right : Rule} (equal : (left == right) = true) :
    (right == left) = true :=
  beq_iff.2 (beq_iff.1 equal).symm

end Rule

section Parts

variable {τ : Type} [Canonical τ] {left right : AtomOf τ}

/-- Equal atoms are of one relation. -/
theorem AtomOf.relation_congr (equal : canonical left = canonical right) :
    left.relation = right.relation :=
  (AtomOf.mk.inj equal).1

/-- Equal atoms are of one shape. -/
theorem AtomOf.shape_congr (equal : canonical left = canonical right) :
    left.shape = right.shape := by
  have same := congrArg Args.shape (AtomOf.mk.inj equal).2
  rwa [Args.shape_map, Args.shape_map] at same

/-- Equal atoms have equal terms. -/
theorem AtomOf.terms_congr (equal : canonical left = canonical right) :
    left.terms.map canonical = right.terms.map canonical := by
  have same := congrArg Args.terms (AtomOf.mk.inj equal).2
  rwa [Args.terms_map, Args.terms_map] at same

end Parts

/-- The representation of a term does not touch its variable. -/
@[simp] theorem Term.var?_canonical (term : Term) : (canonical term).var? = term.var? := by
  cases term <;> rfl

/-- The representation of an argument of a head does not touch its variable. -/
@[simp] theorem HeadTerm.var?_canonical (term : HeadTerm) :
    (canonical term).var? = term.var? := by
  cases term <;> rfl

/-- Equal atoms have the same variables. -/
theorem Atom.variables_congr {left right : Atom} (equal : canonical left = canonical right) :
    left.variables = right.variables := by
  have same := congrArg (List.filterMap Term.var?) (AtomOf.terms_congr equal)
  simp only [List.filterMap_map, Function.comp_def, Term.var?_canonical] at same
  exact same

/-- Equal heads have the same variables. -/
theorem HeadAtom.variables_congr {left right : HeadAtom}
    (equal : canonical left = canonical right) : left.variables = right.variables := by
  have same := congrArg (List.filterMap HeadTerm.var?) (AtomOf.terms_congr equal)
  simp only [List.filterMap_map, Function.comp_def, HeadTerm.var?_canonical] at same
  exact same

/-- Equal constraints have the same variables. -/
theorem Constraint.variables_congr {left right : Constraint}
    (equal : canonical left = canonical right) : left.variables = right.variables := by
  obtain ⟨sameLeft, _, sameRight⟩ := Constraint.mk.inj equal
  have sameVariable := congrArg Term.var? sameRight
  rw [Term.var?_canonical, Term.var?_canonical] at sameVariable
  exact congrArg₂ (fun name (name? : Option String) => name :: name?.toList) sameLeft sameVariable

section Denotation

variable {valuation : Valuation}

/-- Equal terms match the same values. -/
theorem Term.Matches.of_canonical_eq {left right : Term}
    (equal : canonical left = canonical right) {value : Value}
    (isMatch : left.Matches valuation value) : right.Matches valuation value := by
  cases left <;> cases right <;> simp only [canonical, reduceCtorEq] at equal
  case constant.constant =>
    have sameValue := Canonical.beq_iff.2 (Term.constant.inj equal).symm
    exact BEq.trans sameValue isMatch
  case var.var =>
    rw [← Term.var.inj equal]
    exact isMatch
  case wildcard.wildcard => trivial

/-- Equal atoms match the same facts. -/
theorem Atom.Matches.of_canonical_eq {left right : Atom}
    (equal : canonical left = canonical right) {fact : Fact}
    (isMatch : left.Matches valuation fact) : right.Matches valuation fact := by
  refine ⟨isMatch.1.trans (AtomOf.relation_congr equal), ?_⟩
  have sameTerms := forall₂_of_map_eq (AtomOf.terms_congr equal)
  have areMatches := isMatch.2
  generalize left.terms = terms, right.terms = others, fact.values = values
    at sameTerms areMatches ⊢
  induction sameTerms generalizing values with
  | nil => exact areMatches
  | cons sameTerm _ inductionHypothesis =>
      cases areMatches with
      | cons first rest =>
          exact .cons (first.of_canonical_eq sameTerm) (inductionHypothesis _ rest)

/-- Equal constraints hold under the same valuations. -/
theorem Constraint.Holds.of_canonical_eq {left right : Constraint}
    (equal : canonical left = canonical right) (holds : left.Holds valuation) :
    right.Holds valuation := by
  obtain ⟨name, operator, operand⟩ := left
  obtain ⟨otherName, otherOperator, otherOperand⟩ := right
  simp only [canonical, mk.injEq] at equal
  obtain ⟨rfl, rfl, sameOperand⟩ := equal
  obtain ⟨value, isValue, accepted⟩ := holds
  dsimp only at isValue accepted
  cases operand <;> cases otherOperand <;>
    simp only [reduceCtorEq, Term.value?, Option.some.injEq] at sameOperand isValue
  case constant.constant expected other =>
    subst isValue
    refine ⟨other, rfl, ?_⟩
    have sameValue := Canonical.beq_iff.2 (Term.constant.inj sameOperand)
    rw [← Value.relate?_congr (BEq.refl (valuation name)) sameValue]
    exact accepted
  case var.var =>
    subst isValue
    exact ⟨_, rfl, Term.var.inj sameOperand ▸ accepted⟩

/-- Equal arguments of heads have equal values. -/
theorem HeadTerm.value_congr {left right : HeadTerm} (equal : canonical left = canonical right) :
    (left.value valuation == right.value valuation) = true := by
  cases left <;> cases right <;> simp only [canonical, reduceCtorEq] at equal
  case constant.constant => exact Canonical.beq_iff.2 (HeadTerm.constant.inj equal)
  case var.var =>
    rw [HeadTerm.var.inj equal]
    exact BEq.rfl

/-- Equal heads denote equal facts. -/
theorem HeadAtom.factUnder_congr {left right : HeadAtom}
    (equal : canonical left = canonical right) :
    (left.factUnder valuation == right.factUnder valuation) = true := by
  refine Fact.beq_iff.2 ⟨AtomOf.relation_congr equal, ?_⟩
  refine List.forall₂_map_left_iff.2 (List.forall₂_map_right_iff.2 ?_)
  exact (forall₂_of_map_eq (AtomOf.terms_congr equal)).imp fun _ _ => HeadTerm.value_congr

end Denotation

namespace Rule

variable {left right : Rule}

/-- Equal rules have equal heads. -/
theorem head_congr (equal : (left == right) = true) : canonical left.head = canonical right.head :=
  congrArg Prod.fst (beq_iff.1 equal)

/-- Each positive atom of a rule is equal to one of an equal rule. -/
theorem exists_positive (equal : (left == right) = true) {atom : Atom}
    (member : atom ∈ left.positive) :
    ∃ other ∈ right.positive, canonical atom = canonical other :=
  exists_mem_of_perm_map (Multiset.coe_eq_coe.1 (Prod.mk.inj (Prod.mk.inj (beq_iff.1 equal)).2).1)
    member

/-- Each negated atom of a rule is equal to one of an equal rule. -/
theorem exists_negative (equal : (left == right) = true) {atom : Atom}
    (member : atom ∈ left.negative) :
    ∃ other ∈ right.negative, canonical atom = canonical other := by
  have parts := (Prod.mk.inj (Prod.mk.inj (beq_iff.1 equal)).2).2
  exact exists_mem_of_perm_map (Multiset.coe_eq_coe.1 (Prod.mk.inj parts).1) member

/-- Each constraint of a rule is equal to one of an equal rule. -/
theorem exists_constraint (equal : (left == right) = true) {constraint : Constraint}
    (member : constraint ∈ left.constraints) :
    ∃ other ∈ right.constraints, canonical constraint = canonical other := by
  have parts := (Prod.mk.inj (Prod.mk.inj (beq_iff.1 equal)).2).2
  exact exists_mem_of_perm_map (Multiset.coe_eq_coe.1 (Prod.mk.inj parts).2) member

/-- Equal rules define one relation. -/
theorem relation_congr (equal : (left == right) = true) :
    left.head.relation = right.head.relation :=
  AtomOf.relation_congr (head_congr equal)

/-- Each atom in the body of a rule is equal to one in the body of an equal rule. -/
theorem exists_body (equal : (left == right) = true) {atom : Atom}
    (member : atom ∈ left.positive ++ left.negative) :
    ∃ other ∈ right.positive ++ right.negative, canonical atom = canonical other := by
  rcases List.mem_append.1 member with inPositive | inNegative
  · obtain ⟨other, inOther, same⟩ := exists_positive equal inPositive
    exact ⟨other, List.mem_append_left _ inOther, same⟩
  · obtain ⟨other, inOther, same⟩ := exists_negative equal inNegative
    exact ⟨other, List.mem_append_right _ inOther, same⟩

/-- Equal rules use the same relations in the same shapes. -/
theorem mem_usages_congr (equal : (left == right) = true) {usage : String × Shape}
    (member : usage ∈ left.usages) : usage ∈ right.usages := by
  rw [usages, List.mem_cons, List.mem_map] at member ⊢
  rcases member with rfl | ⟨atom, inBody, rfl⟩
  · exact .inl (Prod.ext (relation_congr equal) (AtomOf.shape_congr (head_congr equal)))
  · obtain ⟨other, inOther, same⟩ := exists_body equal inBody
    exact .inr ⟨other, inOther,
      Prod.ext (AtomOf.relation_congr same).symm (AtomOf.shape_congr same).symm⟩

/-- Equal rules need values for the same variables in the same places. -/
theorem mem_demands_congr (equal : (left == right) = true) {demand : String × Place}
    (member : demand ∈ left.demands) : demand ∈ right.demands := by
  simp only [demands, List.mem_append, List.mem_map, List.mem_flatMap] at member ⊢
  rcases member with (⟨name, inHead, rfl⟩ | ⟨name, ⟨atom, inBody, inAtom⟩, rfl⟩) |
    ⟨name, ⟨constraint, inBody, inConstraint⟩, rfl⟩
  · exact .inl (.inl ⟨name, HeadAtom.variables_congr (head_congr equal) ▸ inHead, rfl⟩)
  · obtain ⟨other, inOther, same⟩ := exists_negative equal inBody
    exact .inl (.inr ⟨name, ⟨other, inOther, Atom.variables_congr same ▸ inAtom⟩, rfl⟩)
  · obtain ⟨other, inOther, same⟩ := exists_constraint equal inBody
    exact .inr ⟨name, ⟨other, inOther, Constraint.variables_congr same ▸ inConstraint⟩, rfl⟩

/-- A rule is safe if an equal one is. -/
theorem safe_congr (equal : (left == right) = true) (safe : left.Safe) : right.Safe := by
  intro demand member
  obtain ⟨atom, inBody, binds⟩ := safe demand (mem_demands_congr (beq_symm equal) member)
  obtain ⟨other, inOther, same⟩ := exists_positive equal inBody
  exact ⟨other, inOther, Atom.variables_congr same ▸ binds⟩

/-- Where a rule applies, an equal one does among facts that its positive atoms can be matched
with and its negated atoms cannot. -/
theorem Applies.congr {lower known otherLower otherKnown : Set Fact} {valuation : Valuation}
    (applies : left.Applies lower known valuation) (equal : (left == right) = true)
    (moreKnown : ∀ atom ∈ right.positive, ∀ fact ∈ known, fact.relation = atom.relation →
      fact ∈ otherKnown)
    (fewerLower : ∀ atom ∈ right.negative, ∀ fact ∈ otherLower, fact.relation = atom.relation →
      fact ∈ lower) :
    right.Applies otherLower otherKnown valuation := by
  constructor
  · intro atom inBody
    obtain ⟨other, inOther, same⟩ := exists_positive (beq_symm equal) inBody
    obtain ⟨fact, isKnown, isMatch⟩ := applies.positive other inOther
    have matchesAtom := isMatch.of_canonical_eq same.symm
    exact ⟨fact, moreKnown atom inBody fact isKnown matchesAtom.1, matchesAtom⟩
  · rintro atom inBody ⟨fact, inLower, isMatch⟩
    obtain ⟨other, inOther, same⟩ := exists_negative (beq_symm equal) inBody
    exact applies.negative other inOther ⟨fact, fewerLower atom inBody fact inLower isMatch.1,
      isMatch.of_canonical_eq same⟩
  · intro constraint inBody
    obtain ⟨other, inOther, same⟩ := exists_constraint (beq_symm equal) inBody
    exact (applies.constraints other inOther).of_canonical_eq same.symm

end Rule

namespace RuleSet

variable {left right : RuleSet}

/-- Rule sets are equal if their facts and their rules are rearrangements of each other and
every relation has the same shape. -/
theorem beq_iff : (left == right) = true ↔
    (left.facts.toList.map canonical).Perm (right.facts.toList.map canonical) ∧
      (left.rules.toList.map Rule.essence).Perm (right.rules.toList.map Rule.essence) ∧
      left.shapes.toList = right.shapes.toList := by
  have unfolded : (left == right) = (sameMembers left.facts.toList right.facts.toList &&
      sameMembers left.rules.toList right.rules.toList &&
      left.shapes.toList == right.shapes.toList) := rfl
  rw [unfolded, Bool.and_eq_true, Bool.and_eq_true, sameMembers_iff, beq_iff_eq, and_assoc,
    sameMembers_iff_perm_map fun first second => Rule.beq_iff]

/-- A rule set lists no two equal rules. -/
theorem nodup_map_essence (ruleSet : RuleSet) :
    (ruleSet.rules.toList.map Rule.essence).Nodup := by
  refine List.pairwise_map.2 (ruleSet.distinct.imp fun different same => ?_)
  exact Bool.eq_false_iff.1 different (Rule.beq_iff.2 same)

/-- Equality of rule sets has no direction. -/
theorem beq_symm (equal : (left == right) = true) : (right == left) = true := by
  obtain ⟨sameFacts, sameRules, sameShapes⟩ := beq_iff.1 equal
  exact beq_iff.2 ⟨sameFacts.symm, sameRules.symm, sameShapes.symm⟩

/-- Equal rule sets state the same facts. -/
theorem statedFacts_congr (equal : (left == right) = true) :
    left.statedFacts = right.statedFacts := by
  have subset {left right : RuleSet} (equal : (left == right) = true) :
      left.statedFacts ⊆ right.statedFacts := by
    rintro fact ⟨stated, member, isStated⟩
    obtain ⟨other, inOther, same⟩ := exists_mem_of_perm_map (beq_iff.1 equal).1 member
    exact ⟨other, inOther, BEq.trans (Canonical.beq_iff.2 same.symm) isStated⟩
  exact Set.Subset.antisymm (subset equal) (subset (beq_symm equal))

/-- Each rule of a rule set is equal to one of an equal rule set. -/
theorem exists_rule (equal : (left == right) = true) {rule : Rule}
    (member : rule ∈ left.rules.toList) :
    ∃ other ∈ right.rules.toList, (rule == other) = true := by
  obtain ⟨other, inOther, same⟩ := exists_mem_of_perm_map (beq_iff.1 equal).2.1 member
  exact ⟨other, inOther, Rule.beq_iff.2 same⟩

/-- Equal rule sets know the same shapes. -/
theorem shapeOf?_congr (equal : (left == right) = true) (relation : String) :
    left.shapeOf? relation = right.shapeOf? relation := by
  refine Option.ext fun shape => ?_
  rw [shapeOf?, shapeOf?, ← Std.TreeMap.mem_toList_iff_getElem?_eq_some,
    ← Std.TreeMap.mem_toList_iff_getElem?_eq_some, (beq_iff.1 equal).2.2]

end RuleSet

end Datalog
