import Datalog.Evaluation.Bindings
import Datalog.Proofs.Evaluation.Model

/-!
# Matching and valuations

Matching finds bindings, while rules apply under valuations. A valuation `Agrees` with
bindings if it gives equal values to the variables they bind; then matching succeeds and
keeps the agreement exactly if the valuation makes the atom match, which is what
`Atom.exists_unify_iff` says. Once all variables of an atom, a constraint or a head are
bound, bindings and valuation give the same answers.

`UnifiesAll` is the match of terms with values as a relation, one constructor for each step;
what a match preserves is proved by induction on it.
-/

namespace Datalog

namespace Bindings

/-- A valuation gives equal values to the variables that bindings give values to. -/
def Agrees (bindings : Bindings) (valuation : Valuation) : Prop :=
  ∀ name value, bindings.get? name = some value → (valuation name == value) = true

/-- A variable has a value. -/
def Bound (bindings : Bindings) (name : String) : Prop :=
  ∃ value, bindings.get? name = some value

/-- The values of bindings, and a constant for the variables without one. -/
def valuation (bindings : Bindings) : Valuation := fun name =>
  (bindings.get? name).getD .null

/-- Bindings agree with their own valuation. -/
theorem agrees_valuation (bindings : Bindings) : bindings.Agrees bindings.valuation := by
  intro name value isBound
  simp [valuation, isBound]

/-- Nothing is bound to disagree about. -/
theorem agrees_empty (valuation : Valuation) : (∅ : Bindings).Agrees valuation := by
  intro name value isBound
  cases isBound

/-- A new variable agrees if it has an equal value. -/
theorem agrees_bind_iff {bindings : Bindings} {name : String} {value : Value}
    {valuation : Valuation} (unbound : bindings.get? name = none) :
    (bindings.bind name value).Agrees valuation ↔
      bindings.Agrees valuation ∧ (valuation name == value) = true := by
  constructor
  · intro agrees
    constructor
    · intro other found isBound
      exact agrees other found (by simp [get?_bind, isBound])
    · exact agrees name value (by simp [get?_bind, unbound])
  · rintro ⟨agrees, equal⟩ other found isBound
    rw [get?_bind] at isBound
    cases already : bindings.get? other with
    | some bound =>
        rw [already] at isBound
        exact agrees other found (already.trans isBound)
    | none =>
        obtain ⟨rfl, rfl⟩ : other = name ∧ value = found := by simpa [already] using isBound
        exact equal

end Bindings

/-- Terms are matched with values one after the other, each from the bindings that the match
before it leaves. -/
inductive UnifiesAll : List Term → List Value → Bindings → Bindings → Prop where
  | nil {bindings : Bindings} : UnifiesAll [] [] bindings bindings
  | cons {term : Term} {value : Value} {terms : List Term} {values : List Value}
      {bindings middle extended : Bindings} (first : term.unify value bindings = some middle)
      (rest : UnifiesAll terms values middle extended) :
      UnifiesAll (term :: terms) (value :: values) bindings extended

section Terms

variable {valuation : Valuation} {bindings extended : Bindings}

/-- Matching a term keeps the agreement with a valuation under which the term matches. -/
theorem Term.exists_unify_iff {term : Term} {value : Value} :
    (∃ extended, term.unify value bindings = some extended ∧ extended.Agrees valuation) ↔
      bindings.Agrees valuation ∧ term.Matches valuation value := by
  cases term with
  | wildcard name => simp [unify, Matches]
  | constant expected => simp [unify, Matches, and_comm]
  | var name =>
      simp only [unify, Matches]
      cases isBound : bindings.get? name with
      | none => simp [Bindings.agrees_bind_iff isBound]
      | some bound =>
          simp only [Option.ite_none_right_eq_some, Option.some.injEq]
          constructor
          · rintro ⟨_, ⟨equal, rfl⟩, agrees⟩
            exact ⟨agrees, BEq.trans (agrees name bound isBound) equal⟩
          · rintro ⟨agrees, equal⟩
            exact ⟨_, ⟨BEq.trans (BEq.symm (agrees name bound isBound)) equal, rfl⟩, agrees⟩

/-- A match leaves bindings as they are or binds the one variable that had no value. -/
theorem Term.eq_or_eq_bind_of_unify {term : Term} {value : Value}
    (unified : term.unify value bindings = some extended) :
    (extended = bindings ∧ ∀ name, term.var? = some name → bindings.Bound name) ∨
      ∃ name, term.var? = some name ∧ bindings.get? name = none ∧
        extended = bindings.bind name value := by
  cases term with
  | wildcard name => exact .inl ⟨(Option.some.inj unified).symm, by simp [var?]⟩
  | constant expected =>
      simp only [unify, Option.ite_none_right_eq_some, Option.some.injEq] at unified
      exact .inl ⟨unified.2.symm, by simp [var?]⟩
  | var name =>
      simp only [unify] at unified
      cases isBound : bindings.get? name with
      | none =>
          rw [isBound] at unified
          exact .inr ⟨name, rfl, isBound, (Option.some.inj unified).symm⟩
      | some bound =>
          simp only [isBound, Option.ite_none_right_eq_some, Option.some.injEq] at unified
          refine .inl ⟨unified.2.symm, ?_⟩
          rintro other ⟨rfl⟩
          exact ⟨bound, isBound⟩

/-- A variable keeps its value, and a new one has the value that the term is matched with. -/
theorem Term.get?_unify {term : Term} {value : Value}
    (unified : term.unify value bindings = some extended) (name : String) :
    extended.get? name =
      (bindings.get? name <|> if term.var? = some name then some value else none) := by
  obtain ⟨rfl, bound⟩ | ⟨other, isVar, _, rfl⟩ := eq_or_eq_bind_of_unify unified
  · by_cases isVar : term.var? = some name
    · obtain ⟨found, isBound⟩ := bound name isVar
      simp [isBound]
    · simp [isVar]
  · rw [Bindings.get?_bind, isVar]
    simp only [Option.some.injEq, eq_comm]

/-- Matching a term binds its variable and no other. -/
theorem Term.bound_unify_iff {term : Term} {value : Value} {name : String}
    (unified : term.unify value bindings = some extended) :
    extended.Bound name ↔ bindings.Bound name ∨ term.var? = some name := by
  simp only [Bindings.Bound, get?_unify unified]
  cases bindings.get? name <;> simp

/-- Matching a term whose variable is bound changes nothing. -/
theorem Term.eq_of_unify {term : Term} {value : Value}
    (bound : ∀ name, term.var? = some name → bindings.Bound name)
    (unified : term.unify value bindings = some extended) : extended = bindings := by
  obtain ⟨same, _⟩ | ⟨name, isVar, unbound, _⟩ := eq_or_eq_bind_of_unify unified
  · exact same
  · obtain ⟨found, isBound⟩ := bound name isVar
    rw [unbound] at isBound
    cases isBound

/-- Matching terms keeps the agreement with a valuation under which all of them match. -/
theorem exists_unifyTerms_iff {terms : List Term} {values : List Value} :
    (∃ extended, unifyTerms terms values bindings = some extended ∧
        extended.Agrees valuation) ↔
      bindings.Agrees valuation ∧ List.Forall₂ (Term.Matches valuation) terms values := by
  induction terms generalizing values bindings with
  | nil => cases values <;> simp [unifyTerms]
  | cons term terms inductionHypothesis =>
      cases values with
      | nil => simp [unifyTerms]
      | cons value values =>
          rw [List.forall₂_cons, ← and_assoc, ← Term.exists_unify_iff]
          simp only [unifyTerms]
          cases term.unify value bindings with
          | none => simp
          | some middle => simp [inductionHypothesis]

/-- Terms are matched with values exactly if all of them are, one after the other. -/
theorem unifyTerms_eq_some_iff {terms : List Term} {values : List Value} :
    unifyTerms terms values bindings = some extended ↔
      UnifiesAll terms values bindings extended := by
  induction terms generalizing values bindings with
  | nil =>
      cases values with
      | nil =>
          constructor
          · rintro ⟨rfl⟩
            exact .nil
          · rintro ⟨⟩
            rfl
      | cons value values => exact ⟨nofun, nofun⟩
  | cons term terms inductionHypothesis =>
      cases values with
      | nil => exact ⟨nofun, nofun⟩
      | cons value values =>
          simp only [unifyTerms]
          constructor
          · intro unified
            cases first : term.unify value bindings with
            | none => simp [first] at unified
            | some middle =>
                rw [first] at unified
                exact .cons first (inductionHypothesis.1 unified)
          · rintro (_ | ⟨first, rest⟩)
            rw [first]
            exact inductionHypothesis.2 rest

/-- An atom is matched with a fact of its relation if its terms are matched with the values. -/
theorem Atom.unify_eq_some_iff {atom : Atom} {fact : Fact} :
    atom.unify fact bindings = some extended ↔
      fact.relation = atom.relation ∧ UnifiesAll atom.terms fact.values bindings extended := by
  rw [unify, Option.ite_none_right_eq_some, unifyTerms_eq_some_iff]

namespace UnifiesAll

variable {terms : List Term} {values : List Value}

/-- Terms are matched with as many values. -/
theorem length_eq (unifies : UnifiesAll terms values bindings extended) :
    terms.length = values.length := by
  induction unifies with
  | nil => rfl
  | cons _ _ inductionHypothesis => exact congrArg Nat.succ inductionHypothesis

/-- Matches of terms compose. -/
theorem append {middle : Bindings} {more : List Term} {others : List Value}
    (unifies : UnifiesAll terms values bindings middle)
    (rest : UnifiesAll more others middle extended) :
    UnifiesAll (terms ++ more) (values ++ others) bindings extended := by
  induction unifies with
  | nil => exact rest
  | cons first _ inductionHypothesis => exact .cons first (inductionHypothesis rest)

/-- Matching terms binds their variables and no others. -/
theorem bound_iff {name : String} (unifies : UnifiesAll terms values bindings extended) :
    extended.Bound name ↔ bindings.Bound name ∨ name ∈ terms.filterMap Term.var? := by
  induction unifies with
  | nil => simp
  | cons first _ inductionHypothesis =>
      rw [inductionHypothesis, Term.bound_unify_iff first, or_assoc]
      simp [List.mem_filterMap]

/-- Matching terms whose variables are bound changes nothing. -/
theorem eq_of_bound (unifies : UnifiesAll terms values bindings extended)
    (bound : ∀ name ∈ terms.filterMap Term.var?, bindings.Bound name) : extended = bindings := by
  induction unifies with
  | nil => rfl
  | @cons _ _ _ _ bindings middle _ first _ inductionHypothesis =>
      obtain rfl : middle = bindings := Term.eq_of_unify
        (fun name isVar => bound name (by simp [List.mem_filterMap, isVar])) first
      refine inductionHypothesis fun name member => bound name ?_
      rw [List.mem_filterMap] at member ⊢
      obtain ⟨other, inRest, isVar⟩ := member
      exact ⟨other, List.mem_cons_of_mem _ inRest, isVar⟩

end UnifiesAll

/-- Matching an atom keeps the agreement with a valuation under which it matches. -/
theorem Atom.exists_unify_iff {atom : Atom} {fact : Fact} :
    (∃ extended, atom.unify fact bindings = some extended ∧ extended.Agrees valuation) ↔
      bindings.Agrees valuation ∧ atom.Matches valuation fact := by
  by_cases same : fact.relation = atom.relation
  · simp only [unify, if_pos same, exists_unifyTerms_iff]
    rw [Matches, and_iff_right same]
  · simp [unify, Matches, same]

/-- Matching an atom binds its variables and no others. -/
theorem Atom.bound_unify_iff {atom : Atom} {fact : Fact} {name : String}
    (unified : atom.unify fact bindings = some extended) :
    extended.Bound name ↔ bindings.Bound name ∨ name ∈ atom.variables :=
  (unify_eq_some_iff.1 unified).2.bound_iff

/-- An atom whose variables are bound can be matched exactly with the facts that it matches
under a valuation that agrees. -/
theorem Atom.isSome_unify_iff {atom : Atom} {fact : Fact} (agrees : bindings.Agrees valuation)
    (bound : ∀ name ∈ atom.variables, bindings.Bound name) :
    (atom.unify fact bindings).isSome = true ↔ atom.Matches valuation fact := by
  rw [Option.isSome_iff_exists]
  constructor
  · rintro ⟨extended, unified⟩
    have same : extended = bindings := (unify_eq_some_iff.1 unified).2.eq_of_bound bound
    exact (exists_unify_iff.1 ⟨extended, unified, same ▸ agrees⟩).2
  · intro isMatch
    obtain ⟨extended, unified, _⟩ := exists_unify_iff.2 ⟨agrees, isMatch⟩
    exact ⟨extended, unified⟩

end Terms

section Denotation

variable {valuation : Valuation} {bindings : Bindings}

/-- A term that has a value matches the values equal to it. -/
theorem Term.matches_iff_of_resolve? {term : Term} {resolved value : Value}
    (agrees : bindings.Agrees valuation) (isResolved : term.resolve? bindings = some resolved) :
    term.Matches valuation value ↔ (resolved == value) = true := by
  cases term with
  | wildcard name => cases isResolved
  | constant expected =>
      cases isResolved
      rfl
  | var name =>
      have equal := agrees name resolved isResolved
      exact ⟨BEq.trans (BEq.symm equal), BEq.trans equal⟩

/-- An atom that denotes a fact matches the facts equal to it. -/
theorem Atom.matches_iff_of_ground? {atom : Atom} {ground fact : Fact}
    (agrees : bindings.Agrees valuation) (isGround : atom.ground? bindings = some ground) :
    atom.Matches valuation fact ↔ (ground == fact) = true := by
  simp only [ground?, Option.map_eq_some_iff, mapM_eq_some_iff] at isGround
  obtain ⟨values, resolved, rfl⟩ := isGround
  rw [Fact.beq_iff, Matches, eq_comm]
  refine and_congr_right fun _ => ?_
  dsimp only
  generalize atom.terms = terms, fact.values = others at *
  induction resolved generalizing others with
  | nil => simp
  | cons isResolved _ inductionHypothesis =>
      cases others with
      | nil => simp
      | cons other others =>
          rw [List.forall₂_cons, List.forall₂_cons, inductionHypothesis,
            Term.matches_iff_of_resolve? agrees isResolved]

/-- A constraint whose variables are bound holds for bindings as it does for a valuation that
agrees. -/
theorem Constraint.holds_iff {constraint : Constraint} (agrees : bindings.Agrees valuation)
    (bound : ∀ name ∈ constraint.variables, bindings.Bound name) :
    constraint.holds bindings = true ↔ constraint.Holds valuation := by
  obtain ⟨left, isLeft⟩ := bound constraint.left List.mem_cons_self
  have equalLeft := agrees _ left isLeft
  simp only [holds, isLeft, Holds]
  cases operand : constraint.right with
  | wildcard name => simp [Term.resolve?, Term.value?]
  | constant right =>
      simp [Term.resolve?, Term.value?, Value.relate?_congr equalLeft (BEq.refl right)]
  | var name =>
      obtain ⟨right, isRight⟩ := bound name (by simp [Constraint.variables, operand, Term.var?])
      have equalRight := agrees name right isRight
      simp [Term.resolve?, Term.value?, isRight, Value.relate?_congr equalLeft equalRight]

/-- Arguments of a head whose variables are bound have the values that they have under a
valuation that agrees. -/
theorem HeadTerm.exists_values {terms : List HeadTerm} (agrees : bindings.Agrees valuation)
    (bound : ∀ name ∈ terms.filterMap HeadTerm.var?, bindings.Bound name) :
    ∃ values, terms.mapM (HeadTerm.resolve? bindings) = some values ∧
      List.Forall₂ (fun value other => (value == other) = true)
        (terms.map (HeadTerm.value valuation)) values := by
  simp only [mapM_eq_some_iff]
  induction terms with
  | nil => exact ⟨[], .nil, .nil⟩
  | cons term terms inductionHypothesis =>
      cases term with
      | constant value =>
          obtain ⟨values, areResolved, areEqual⟩ := inductionHypothesis bound
          exact ⟨value :: values, .cons rfl areResolved, .cons BEq.rfl areEqual⟩
      | var name =>
          rw [List.filterMap_cons_some (show (var name).var? = some name from rfl),
            List.forall_mem_cons] at bound
          obtain ⟨values, areResolved, areEqual⟩ := inductionHypothesis bound.2
          obtain ⟨value, isBound⟩ := bound.1
          exact ⟨value :: values, .cons isBound areResolved,
            .cons (agrees name value isBound) areEqual⟩

/-- A head whose variables are bound denotes the fact that it denotes under a valuation that
agrees. -/
theorem HeadAtom.exists_ground? {head : HeadAtom} (agrees : bindings.Agrees valuation)
    (bound : ∀ name ∈ head.variables, bindings.Bound name) :
    ∃ fact, head.ground? bindings = some fact ∧ (head.factUnder valuation == fact) = true := by
  obtain ⟨values, areResolved, areEqual⟩ := HeadTerm.exists_values agrees bound
  refine ⟨⟨head.relation, values⟩, ?_, Fact.beq_iff.2 ⟨rfl, areEqual⟩⟩
  rw [ground?, areResolved]
  rfl

end Denotation

end Datalog
