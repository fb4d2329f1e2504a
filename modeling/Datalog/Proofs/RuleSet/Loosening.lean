import Mathlib.Logic.Function.Basic
import Datalog.Proofs.Evaluation.Candidates

/-!
# Joins as equality constraints

A variable that occurs twice in the positive atoms of a rule asks for equal values, and so does
a constant in one of them. A rule asks for the same when a fresh variable stands in the place of
the variable or the constant and a constraint equates the two (`Rule.Loosening`). Matching tells
values apart by `==` and constraints by `Value.relate?`; these differ for NaNs only, so among
facts without NaNs the two rules can be exchanged (`Rule.Loosening.interchangeable`).
-/

namespace Datalog

section Replacing

variable {τ : Type}

/-- The record with another value for the field in one place. -/
def Record.setPlace (record : Record τ) (place : Nat) (value : τ) : Record τ where
  entries := record.entries.modify place fun entry => (entry.1, value)
  ascending := by
    have sameNames : (record.entries.modify place fun entry => (entry.1, value)).map Prod.fst =
        record.entries.map Prod.fst := by
      refine List.ext_getElem? fun index => ?_
      rw [List.getElem?_map, List.getElem?_map, List.getElem?_modify]
      split <;> simp [Function.comp_def]
    rw [← List.pairwise_map (R := fun earlier later => compare earlier later = .lt), sameNames]
    exact List.pairwise_map.2 record.ascending

/-- The arguments with another term in one place. -/
def Args.setPlace (args : Args τ) (place : Nat) (term : τ) : Args τ :=
  match args with
  | ordered terms => ordered (terms.set place term)
  | named fields => named (fields.setPlace place term)

/-- The atom with another term in one place. -/
def AtomOf.setTerm (atom : AtomOf τ) (place : Nat) (term : τ) : AtomOf τ :=
  { atom with args := atom.args.setPlace place term }

/-- Setting a place keeps the fields. -/
@[simp] theorem Record.fields_setPlace (record : Record τ) (place : Nat) (value : τ) :
    (record.setPlace place value).fields = record.fields := by
  refine List.ext_getElem? fun index => ?_
  simp only [fields, setPlace, List.getElem?_map, List.getElem?_modify]
  split <;> simp [Function.comp_def]

/-- The values of a record with another value in one place. -/
@[simp] theorem Record.values_setPlace (record : Record τ) (place : Nat) (value : τ) :
    (record.setPlace place value).values = record.values.set place value := by
  refine List.ext_getElem? fun index => ?_
  simp only [values, setPlace, List.getElem?_map, List.getElem?_modify, List.getElem?_set,
    List.length_map]
  split
  next same =>
    subst same
    by_cases inBounds : place < record.entries.length <;> simp [inBounds]
  next => simp

/-- Setting a term keeps the relation. -/
@[simp] theorem AtomOf.relation_setTerm (atom : AtomOf τ) (place : Nat) (term : τ) :
    (atom.setTerm place term).relation = atom.relation := rfl

/-- Setting a term keeps the shape. -/
@[simp] theorem AtomOf.shape_setTerm (atom : AtomOf τ) (place : Nat) (term : τ) :
    (atom.setTerm place term).shape = atom.shape := by
  obtain ⟨relation, args⟩ := atom
  cases args <;> simp [setTerm, shape, Args.setPlace, Args.shape]

/-- The terms of an atom with another term in one place. -/
@[simp] theorem AtomOf.terms_setTerm (atom : AtomOf τ) (place : Nat) (term : τ) :
    (atom.setTerm place term).terms = atom.terms.set place term := by
  obtain ⟨relation, args⟩ := atom
  cases args <;> simp [setTerm, terms, Args.setPlace, Args.terms]

end Replacing

/-- A term with a variable is that variable. -/
theorem Term.eq_var_of_var? {term : Term} {name : String} (isVar : term.var? = some name) :
    term = .var name := by
  cases term with
  | var => rw [Option.some.inj isVar]
  | constant => cases isVar
  | wildcard => cases isVar

section Agreement

variable {valuation other : Valuation}

/-- A match depends on the value of the variable alone. -/
theorem Term.Matches.agree {term : Term} {value : Value}
    (agree : ∀ name, term.var? = some name → valuation name = other name)
    (isMatch : term.Matches valuation value) : term.Matches other value := by
  cases term with
  | constant => exact isMatch
  | var name =>
      change (other name == value) = true
      rw [← agree name rfl]
      exact isMatch
  | wildcard => trivial

/-- What an atom matches depends on the values of its variables alone. -/
theorem Atom.Matches.agree {atom : Atom} {fact : Fact}
    (agree : ∀ name ∈ atom.variables, valuation name = other name)
    (isMatch : atom.Matches valuation fact) : atom.Matches other fact := by
  have inAtom := (List.forall₂_and_left atom.terms fact.values).2 ⟨fun _ => id, isMatch.2⟩
  refine ⟨isMatch.1, inAtom.imp fun term value ⟨member, isTermMatch⟩ => ?_⟩
  exact isTermMatch.agree fun name isVar => agree name (List.mem_filterMap.2 ⟨_, member, isVar⟩)

/-- Whether a constraint holds depends on the values of its variables alone. -/
theorem Constraint.Holds.agree {constraint : Constraint}
    (agree : ∀ name ∈ constraint.variables, valuation name = other name)
    (holds : constraint.Holds valuation) : constraint.Holds other := by
  obtain ⟨right, isRight, accepted⟩ := holds
  have sameLeft := agree constraint.left List.mem_cons_self
  refine ⟨right, ?_, sameLeft ▸ accepted⟩
  obtain ⟨left, operator, operand⟩ := constraint
  cases operand with
  | constant => exact isRight
  | var name =>
      have same := agree name (List.mem_cons_of_mem _ (List.mem_singleton_self name))
      exact (congrArg some same.symm).trans isRight
  | wildcard => cases isRight

/-- The fact that a head denotes depends on the values of its variables alone. -/
theorem HeadAtom.factUnder_agree {head : HeadAtom}
    (agree : ∀ name ∈ head.variables, valuation name = other name) :
    head.factUnder valuation = head.factUnder other := by
  refine congrArg (Fact.mk head.relation) (List.map_congr_left fun term member => ?_)
  cases term with
  | constant => rfl
  | var name => exact agree name (List.mem_filterMap.2 ⟨_, member, rfl⟩)

end Agreement

/-- The variables of a rule, once for each occurrence. -/
def Rule.variables (rule : Rule) : List String :=
  rule.head.variables ++ (rule.positive ++ rule.negative).flatMap Atom.variables ++
    rule.constraints.flatMap Constraint.variables

/-- The variables of the atoms in the body are variables of the rule. -/
theorem Rule.mem_variables_of_body {rule : Rule} {atom : Atom} {name : String}
    (inBody : atom ∈ rule.positive ++ rule.negative) (occurs : name ∈ atom.variables) :
    name ∈ rule.variables :=
  List.mem_append_left _ (List.mem_append_right _ (List.mem_flatMap.2 ⟨atom, inBody, occurs⟩))

/-- The variables of the constraints are variables of the rule. -/
theorem Rule.mem_variables_of_constraint {rule : Rule} {constraint : Constraint} {name : String}
    (inBody : constraint ∈ rule.constraints) (occurs : name ∈ constraint.variables) :
    name ∈ rule.variables :=
  List.mem_append_right _ (List.mem_flatMap.2 ⟨constraint, inBody, occurs⟩)

/-- Whether a rule applies, and what it derives, depends on the values of its variables
alone. -/
theorem Rule.Applies.agree {rule : Rule} {lower known : Set Fact} {valuation other : Valuation}
    (agree : ∀ name ∈ rule.variables, valuation name = other name)
    (applies : rule.Applies lower known valuation) :
    rule.Applies lower known other ∧
      rule.head.factUnder valuation = rule.head.factUnder other := by
  have agreeBody {atom : Atom} (inBody : atom ∈ rule.positive ++ rule.negative) :
      ∀ name ∈ atom.variables, valuation name = other name :=
    fun name occurs => agree name (mem_variables_of_body inBody occurs)
  refine ⟨⟨?_, ?_, ?_⟩, HeadAtom.factUnder_agree fun name occurs => agree name ?_⟩
  · intro atom inBody
    obtain ⟨fact, isKnown, isMatch⟩ := applies.positive atom inBody
    exact ⟨fact, isKnown, isMatch.agree (agreeBody (List.mem_append_left _ inBody))⟩
  · rintro atom inBody ⟨fact, isLower, isMatch⟩
    refine applies.negative atom inBody ⟨fact, isLower, isMatch.agree fun name occurs => ?_⟩
    exact (agreeBody (List.mem_append_right _ inBody) name occurs).symm
  · intro constraint inBody
    exact (applies.constraints constraint inBody).agree fun name occurs =>
      agree name (mem_variables_of_constraint inBody occurs)
  · exact List.mem_append_left _ (List.mem_append_left _ occurs)

/-- The constraint that a term has the value of a fresh variable. -/
def Constraint.equating? (fresh : String) : Term → Option Constraint
  | .var name => some ⟨name, .equal, .var fresh⟩
  | .constant value => some ⟨fresh, .equal, .constant value⟩
  | .wildcard _ => none

/-- The facts without a NaN. -/
def comparableFacts : Set Fact :=
  {fact | ∀ value ∈ fact.values, ¬ value.Unordered}

section Equating

variable {valuation : Valuation} {fresh : String} {term : Term} {constraint : Constraint}

/-- The term that a constraint equates with a variable has a value, which it matches. -/
theorem Constraint.exists_value_of_equating? (equates : equating? fresh term = some constraint)
    (valuation : Valuation) :
    ∃ value, ∀ other, term.Matches valuation other ↔ (value == other) = true := by
  cases term with
  | constant value => exact ⟨value, fun _ => Iff.rfl⟩
  | var name => exact ⟨valuation name, fun _ => Iff.rfl⟩
  | wildcard => cases equates

/-- An equating constraint has the fresh variable and that of the term. -/
theorem Constraint.eq_or_of_mem_variables (equates : equating? fresh term = some constraint)
    {name : String} (occurs : name ∈ constraint.variables) :
    name = fresh ∨ term = .var name := by
  cases term with
  | constant value =>
      obtain rfl := Option.some.inj equates
      exact .inl (List.mem_singleton.1 occurs)
  | var other =>
      obtain rfl := Option.some.inj equates
      rcases List.mem_cons.1 occurs with rfl | isFresh
      · exact .inr rfl
      · exact .inl (List.mem_singleton.1 isFresh)
  | wildcard => cases equates

/-- An equating constraint holds if the term matches the value of the variable, which is no
NaN. -/
theorem Constraint.holds_iff_of_equating? (equates : equating? fresh term = some constraint) :
    constraint.Holds valuation ↔
      term.Matches valuation (valuation fresh) ∧ ¬ (valuation fresh).Unordered := by
  cases term with
  | constant value =>
      obtain rfl := Option.some.inj equates
      have holds : Holds ⟨fresh, .equal, .constant value⟩ valuation ↔
          Comparison.equal.accepts ((valuation fresh).relate? value) = true := by
        simp [Holds, Term.value?]
      rw [holds, Value.accepts_equal_iff]
      exact and_congr_left' ⟨BEq.symm, BEq.symm⟩
  | var name =>
      obtain rfl := Option.some.inj equates
      have holds : Holds ⟨name, .equal, .var fresh⟩ valuation ↔
          Comparison.equal.accepts ((valuation name).relate? (valuation fresh)) = true := by
        simp [Holds, Term.value?]
      rw [holds, Value.accepts_equal_iff]
      exact and_congr_right fun equal => not_congr (Value.unordered_congr equal)
  | wildcard => cases equates

end Equating

/-- An occurrence of a variable or a constant in a positive atom of a rule, with a fresh variable
to stand in its place. A variable must occur in another place as well. -/
structure Rule.Loosening (rule : Rule) where
  before : List Atom
  atom : Atom
  after : List Atom
  place : Nat
  term : Term
  fresh : String
  constraint : Constraint
  split : rule.positive = before ++ atom :: after
  atPlace : atom.terms[place]? = some term
  isFresh : fresh ∉ rule.variables
  equates : Constraint.equating? fresh term = some constraint
  elsewhere : ∀ name, term = .var name →
    ∃ other ∈ before ++ atom.setTerm place (.var fresh) :: after, name ∈ other.variables

namespace Rule.Loosening

variable {rule : Rule}

/-- The atom with the fresh variable. -/
def changed (loosening : rule.Loosening) : Atom :=
  loosening.atom.setTerm loosening.place (.var loosening.fresh)

/-- The rule with the fresh variable in place of the term, and the constraint for it. -/
def result (loosening : rule.Loosening) : Rule :=
  { rule with
    positive := loosening.before ++ loosening.changed :: loosening.after
    constraints := rule.constraints ++ [loosening.constraint] }

variable (loosening : rule.Loosening)

/-- The atom with the term is one of the rule. -/
theorem mem_positive : loosening.atom ∈ rule.positive := by
  rw [loosening.split]
  exact List.mem_append_right _ List.mem_cons_self

/-- The term stands in the atom. -/
theorem mem_terms : loosening.term ∈ loosening.atom.terms :=
  List.mem_of_getElem? loosening.atPlace

/-- Loosening changes one positive atom. -/
theorem forall_positive_iff {property : Atom → Prop} :
    (∀ atom ∈ rule.positive, property atom) ↔ property loosening.atom ∧
      ∀ atom ∈ loosening.before ++ loosening.after, property atom := by
  rw [loosening.split, List.forall_mem_append, List.forall_mem_cons, List.forall_mem_append]
  exact and_left_comm

/-- The positive atoms of the result are the changed one and the others. -/
theorem forall_positive_result_iff {property : Atom → Prop} :
    (∀ atom ∈ loosening.result.positive, property atom) ↔ property loosening.changed ∧
      ∀ atom ∈ loosening.before ++ loosening.after, property atom := by
  rw [result, List.forall_mem_append, List.forall_mem_cons, List.forall_mem_append]
  exact and_left_comm

section Denotation

variable {valuation : Valuation} {fact : Fact} {lower known : Set Fact}

/-- Where the constraint holds, the changed atom matches what the atom does. -/
theorem matches_changed_iff (holds : loosening.constraint.Holds valuation) :
    loosening.changed.Matches valuation fact ↔ loosening.atom.Matches valuation fact := by
  obtain ⟨expected, matches_iff⟩ :=
    Constraint.exists_value_of_equating? loosening.equates valuation
  obtain ⟨equal, _⟩ := (Constraint.holds_iff_of_equating? loosening.equates).1 holds
  have sameValue := (matches_iff _).1 equal
  obtain ⟨inBounds, atPlace⟩ := List.getElem?_eq_some_iff.1 loosening.atPlace
  refine and_congr_right fun _ => ?_
  rw [changed, AtomOf.terms_setTerm]
  constructor
  · intro areMatches
    have isFresh := List.getElem?_set_self (a := Term.var loosening.fresh) inBounds
    -- Putting the term back in its place undoes the change.
    have restored : (loosening.atom.terms.set loosening.place (.var loosening.fresh)).set
        loosening.place loosening.term = loosening.atom.terms := by
      rw [List.set_set, ← atPlace, List.set_getElem_self]
    rw [← restored]
    exact forall₂_set areMatches isFresh (fun value _ isEqual => equal.congr isEqual)
      fun _ _ _ isTermMatch => isTermMatch
  · intro areMatches
    refine forall₂_set areMatches loosening.atPlace (fun value _ isTermMatch => ?_)
      fun _ _ _ isTermMatch => isTermMatch
    exact BEq.trans (BEq.symm sameValue) ((matches_iff value).1 isTermMatch)

/-- The loosened rule applies where the rule does and the constraint holds. -/
theorem applies_result_iff :
    loosening.result.Applies lower known valuation ↔
      rule.Applies lower known valuation ∧ loosening.constraint.Holds valuation := by
  have sameBody (holds : loosening.constraint.Holds valuation) :
      (∀ atom ∈ loosening.result.positive, ∃ fact ∈ known, atom.Matches valuation fact) ↔
        ∀ atom ∈ rule.positive, ∃ fact ∈ known, atom.Matches valuation fact := by
    rw [forall_positive_result_iff, forall_positive_iff]
    refine and_congr_left' (exists_congr fun fact => and_congr_right fun _ => ?_)
    exact loosening.matches_changed_iff holds
  constructor
  · intro applies
    obtain ⟨constraints, isLast⟩ := List.forall_mem_append.1 applies.constraints
    have holds := isLast _ (List.mem_singleton_self _)
    exact ⟨⟨(sameBody holds).1 applies.positive, applies.negative, constraints⟩, holds⟩
  · rintro ⟨applies, holds⟩
    refine ⟨(sameBody holds).2 applies.positive, applies.negative, ?_⟩
    exact List.forall_mem_append.2 ⟨applies.constraints, by simpa using holds⟩

/-- Among facts without NaNs the fresh variable can be given the value of the term. -/
theorem exists_holds (isComparable : known ⊆ comparableFacts)
    (applies : rule.Applies lower known valuation) :
    ∃ later : Valuation, (∀ name ∈ rule.variables, valuation name = later name) ∧
      loosening.constraint.Holds later := by
  obtain ⟨expected, matches_iff⟩ :=
    Constraint.exists_value_of_equating? loosening.equates valuation
  have agree : ∀ name ∈ rule.variables,
      valuation name = Function.update valuation loosening.fresh expected name := by
    intro name occurs
    refine (Function.update_of_ne ?_ expected valuation).symm
    rintro rfl
    exact loosening.isFresh occurs
  refine ⟨_, agree, (Constraint.holds_iff_of_equating? loosening.equates).2 ⟨?_, ?_⟩⟩
  · rw [Function.update_self]
    refine ((matches_iff expected).2 BEq.rfl).agree fun name isVar => agree name ?_
    exact mem_variables_of_body (List.mem_append_left _ loosening.mem_positive)
      (List.mem_filterMap.2 ⟨_, loosening.mem_terms, isVar⟩)
  · -- The value of the term has been matched with one of a known fact.
    obtain ⟨fact, isKnown, isMatch⟩ := applies.positive _ loosening.mem_positive
    obtain ⟨found, inFact, isTermMatch⟩ := exists_mem_of_forall₂ isMatch.2 loosening.mem_terms
    rw [Function.update_self, Value.unordered_congr ((matches_iff found).1 isTermMatch)]
    exact isComparable isKnown found inFact

end Denotation

/-- A loosened rule uses the relations that the rule does, in the same shapes. -/
theorem usages_result : loosening.result.usages = rule.usages := by
  simp [usages, result, loosening.split, changed]

/-- A rule can be exchanged for a loosened one among facts without NaNs. -/
theorem interchangeable : rule.Interchangeable comparableFacts loosening.result where
  head := rfl
  positive := by
    rw [result, loosening.split, List.map_append, List.map_append]
    rfl
  negative := .refl _
  derives lower known isComparable := by
    ext fact
    simp only [mem_consequences_singleton_iff, loosening.applies_result_iff]
    constructor
    · rintro ⟨valuation, applies, isHead⟩
      obtain ⟨later, agree, holds⟩ := loosening.exists_holds isComparable applies
      obtain ⟨appliesLater, sameHead⟩ := applies.agree agree
      exact ⟨later, ⟨appliesLater, holds⟩, sameHead ▸ isHead⟩
    · rintro ⟨valuation, ⟨applies, _⟩, isHead⟩
      exact ⟨valuation, applies, isHead⟩

/-- What a positive atom of the rule binds is bound by one of the result. -/
theorem exists_bound_result {name : String} {atom : Atom} (inBody : atom ∈ rule.positive)
    (occurs : name ∈ atom.variables) :
    ∃ other ∈ loosening.result.positive, name ∈ other.variables := by
  rw [loosening.split, List.mem_append, List.mem_cons] at inBody
  rcases inBody with inBefore | rfl | inAfter
  · exact ⟨atom, List.mem_append_left _ inBefore, occurs⟩
  · obtain ⟨term, inAtom, isVar⟩ := List.mem_filterMap.1 occurs
    rcases mem_set_or_getElem? inAtom loosening.place (.var loosening.fresh) with stays | atPlace
    · refine ⟨loosening.changed, List.mem_append_right _ List.mem_cons_self, ?_⟩
      exact List.mem_filterMap.2 ⟨term, by rwa [changed, AtomOf.terms_setTerm], isVar⟩
    · refine loosening.elsewhere name ?_
      rw [loosening.atPlace, Option.some.injEq] at atPlace
      rw [atPlace, Term.eq_var_of_var? isVar]
  · exact ⟨atom, List.mem_append_right _ (List.mem_cons_of_mem _ inAfter), occurs⟩

/-- The result binds the fresh variable. -/
theorem fresh_mem_changed : loosening.fresh ∈ loosening.changed.variables := by
  obtain ⟨inBounds, _⟩ := List.getElem?_eq_some_iff.1 loosening.atPlace
  refine List.mem_filterMap.2 ⟨.var loosening.fresh, ?_, rfl⟩
  rw [changed, AtomOf.terms_setTerm]
  exact List.mem_set inBounds _

/-- A loosened rule is safe if the rule is. -/
theorem safe_result (safe : rule.Safe) : loosening.result.Safe := by
  let Bound (name : String) : Prop := ∃ atom ∈ loosening.result.positive, name ∈ atom.variables
  have stillBound : ∀ demand ∈ rule.demands, Bound demand.1 := by
    intro demand isDemanded
    obtain ⟨atom, inBody, occurs⟩ := safe demand isDemanded
    exact loosening.exists_bound_result inBody occurs
  obtain ⟨inHead, inNegative, inConstraints⟩ := forall_demands_iff.1 stillBound
  change ∀ demand ∈ loosening.result.demands, Bound demand.1
  refine forall_demands_iff.2 ⟨inHead, inNegative, List.forall_mem_append.2 ⟨inConstraints, ?_⟩⟩
  intro constraint isLast name occurs
  rw [List.mem_singleton.1 isLast] at occurs
  rcases Constraint.eq_or_of_mem_variables loosening.equates occurs with rfl | isTerm
  · exact ⟨loosening.changed, List.mem_append_right _ List.mem_cons_self,
      loosening.fresh_mem_changed⟩
  · exact loosening.elsewhere name isTerm

end Rule.Loosening

end Datalog
