import Mathlib.Order.Bounds.Basic
import Datalog.Proofs.Pairing
import Datalog.Proofs.Stratification.Order
import Datalog.Proofs.Value.Comparison

/-!
# Stratified models

What a rule set means, without bindings, joins and passes. A rule applies under a valuation
of its variables, and a stratum adds to what lies below it the least set of facts that is
closed under the rules that stand in it (`Stratum.HasRule`); `RuleSet.stratifiedModel` does
this from the stated facts upwards. All sets of facts here respect `==`, so it does not matter
how a fact is written.
-/

namespace Datalog

/-- A value for every variable. -/
abbrev Valuation := String → Value

/-- A constant matches the values equal to it, a variable those equal to its value, and a
wildcard any value. -/
def Term.Matches (valuation : Valuation) : Term → Value → Prop
  | constant expected, value => (expected == value) = true
  | var name, value => (valuation name == value) = true
  | wildcard _, _ => True

/-- The value of an operand; wildcards have none. -/
def Term.value? (valuation : Valuation) : Term → Option Value
  | constant value => some value
  | var name => some (valuation name)
  | wildcard _ => none

/-- The value of an argument of a head. -/
def HeadTerm.value (valuation : Valuation) : HeadTerm → Value
  | constant value => value
  | var name => valuation name

/-- An atom matches the facts of its relation whose values match its terms one by one. -/
def Atom.Matches (atom : Atom) (valuation : Valuation) (fact : Fact) : Prop :=
  fact.relation = atom.relation ∧
    List.Forall₂ (Term.Matches valuation) atom.terms fact.values

/-- A constraint holds if its operator accepts the comparison of its operands. -/
def Constraint.Holds (constraint : Constraint) (valuation : Valuation) : Prop :=
  ∃ right, constraint.right.value? valuation = some right ∧
    constraint.operator.accepts ((valuation constraint.left).relate? right) = true

/-- The fact that a head denotes. -/
def HeadAtom.factUnder (head : HeadAtom) (valuation : Valuation) : Fact :=
  ⟨head.relation, head.terms.map (HeadTerm.value valuation)⟩

/-- A rule applies if each positive atom matches a known fact, no negated atom matches a fact
of the lower strata, and every constraint holds. -/
structure Rule.Applies (rule : Rule) (lower known : Set Fact) (valuation : Valuation) : Prop where
  positive : ∀ atom ∈ rule.positive, ∃ fact ∈ known, atom.Matches valuation fact
  negative : ∀ atom ∈ rule.negative, ¬ ∃ fact ∈ lower, atom.Matches valuation fact
  constraints : ∀ constraint ∈ rule.constraints, constraint.Holds valuation

/-- The order of rules has no part in what they mean, so a list of them is read as a set. -/
instance : Coe (List Rule) (Set Rule) where
  coe rules := {rule | rule ∈ rules}

/-- The facts that rules derive from known facts in one step. -/
def consequences (rules : Set Rule) (lower known : Set Fact) : Set Fact :=
  {fact | ∃ rule ∈ rules, ∃ valuation, rule.Applies lower known valuation ∧
    (rule.head.factUnder valuation == fact) = true}

/-- A set of facts above the lower strata to which the rules add nothing. -/
structure ClosedUnder (rules : Set Rule) (lower known : Set Fact) : Prop where
  above : lower ⊆ known
  respects : ∀ fact ∈ known, ∀ other : Fact, (fact == other) = true → other ∈ known
  closed : consequences rules lower known ⊆ known

/-- What every set closed under the rules contains. -/
def leastModel (rules : Set Rule) (lower : Set Fact) : Set Fact :=
  {fact | ∀ known, ClosedUnder rules lower known → fact ∈ known}

namespace RuleSet

/-- The explicit facts. -/
def statedFacts (ruleSet : RuleSet) : Set Fact :=
  {fact | ∃ stated ∈ ruleSet.facts.toList, (stated == fact) = true}

/-- The facts that hold once strata are closed one above the other, each under the rules that
stand in it. -/
def stratifiedModel (ruleSet : RuleSet) (strata : List Stratum) : Set Fact :=
  strata.foldl
    (fun lower stratum => leastModel {rule | stratum.HasRule ruleSet.rules.toList rule} lower)
    ruleSet.statedFacts

end RuleSet

/-- What matches one writing of a value matches every other. -/
theorem Term.Matches.congr {valuation : Valuation} {term : Term} {value other : Value}
    (isMatch : term.Matches valuation value) (equal : (value == other) = true) :
    term.Matches valuation other := by
  cases term with
  | constant expected => exact BEq.trans isMatch equal
  | var name => exact BEq.trans isMatch equal
  | wildcard name => trivial

/-- Equal facts are of one relation and have equal values. -/
theorem Fact.beq_iff {left right : Fact} :
    (left == right) = true ↔ left.relation = right.relation ∧
      List.Forall₂ (fun value other => (value == other) = true) left.values right.values := by
  simp only [Canonical.beq_iff, canonical, mk.injEq, ← List.forall₂_eq_eq_eq,
    List.forall₂_map_left_iff, List.forall₂_map_right_iff]

/-- What matches one writing of values matches every other. -/
theorem Term.forall₂_matches_congr {valuation : Valuation} {terms : List Term}
    {values others : List Value}
    (areMatches : List.Forall₂ (Term.Matches valuation) terms values)
    (equal : List.Forall₂ (fun value other => (value == other) = true) values others) :
    List.Forall₂ (Term.Matches valuation) terms others := by
  induction areMatches generalizing others with
  | nil => cases equal with
    | nil => exact .nil
  | cons isMatch _ inductionHypothesis => cases equal with
    | cons first rest => exact .cons (isMatch.congr first) (inductionHypothesis rest)

/-- What matches one writing of a fact matches every other. -/
theorem Atom.Matches.congr {atom : Atom} {valuation : Valuation} {fact other : Fact}
    (isMatch : atom.Matches valuation fact) (equal : (fact == other) = true) :
    atom.Matches valuation other := by
  obtain ⟨sameRelation, sameValues⟩ := Fact.beq_iff.1 equal
  exact ⟨sameRelation ▸ isMatch.1, Term.forall₂_matches_congr isMatch.2 sameValues⟩

/-- More known facts let rules apply to more. -/
theorem consequences_mono {rules : Set Rule} {lower known more : Set Fact}
    (included : known ⊆ more) : consequences rules lower known ⊆ consequences rules lower more := by
  rintro fact ⟨rule, member, valuation, applies, equal⟩
  refine ⟨rule, member, valuation, ⟨?_, applies.negative, applies.constraints⟩, equal⟩
  intro atom inBody
  obtain ⟨found, isKnown, isMatch⟩ := applies.positive atom inBody
  exact ⟨found, included isKnown, isMatch⟩

/-- The least model is the least set that is closed under the rules. -/
theorem isLeast_leastModel (rules : Set Rule) (lower : Set Fact) :
    IsLeast {known | ClosedUnder rules lower known} (leastModel rules lower) := by
  constructor
  · constructor
    · intro fact isLower known isClosed
      exact isClosed.above isLower
    · intro fact inLeast other equal known isClosed
      exact isClosed.respects fact (inLeast known isClosed) other equal
    · intro fact derived known isClosed
      apply isClosed.closed
      apply consequences_mono _ derived
      intro found inLeast
      exact inLeast known isClosed
  · intro known isClosed fact inLeast
    exact inLeast known isClosed

end Datalog
