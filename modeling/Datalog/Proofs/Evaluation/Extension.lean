import Datalog.Proofs.Evaluation.Matching

/-!
# Matching extends bindings as little as it can

A match keeps the bindings that it begins with and appends the variables that had no value,
once each, in the order in which the terms mention them first, with the values found there.
The result binds no variable twice if the beginning does not, so this carries over to every
sequence of matches. `Bindings.extendsLeast_of_distinct` states it, together with the exact
condition under which there is a match: some valuation that agrees with the bindings makes
the atom match.

Bindings are also extended in place, position by position, until one does not match
(`unifyInPlace`). That happens on a copy, so a failure halfway is not seen by the caller.
-/

namespace Datalog

/-- The value at the first position of a variable, where terms are read against values. -/
def firstValue? (readings : List (Term × Value)) (name : String) : Option Value :=
  (readings.find? fun reading => reading.1.var? = some name).map Prod.snd

/-- A variable is met at the first reading or at a later one. -/
theorem firstValue?_cons (term : Term) (value : Value) (readings : List (Term × Value))
    (name : String) :
    firstValue? ((term, value) :: readings) name =
      if term.var? = some name then some value else firstValue? readings name := by
  rw [firstValue?, List.find?_cons]
  by_cases isVar : term.var? = some name <;> simp [isVar, firstValue?]

/-- A variable is met among the first readings or among the later ones. -/
theorem firstValue?_append (readings more : List (Term × Value)) (name : String) :
    firstValue? (readings ++ more) name =
      (firstValue? readings name <|> firstValue? more name) := by
  rw [firstValue?, List.find?_append]
  cases isFound : readings.find? fun reading => reading.1.var? = some name <;>
    simp [firstValue?, isFound]

namespace Bindings

variable {bindings extended : Bindings} {name : String} {value : Value}

/-- The variables with values, in the order in which they got them. -/
def names (bindings : Bindings) : List String :=
  bindings.pairs.map Prod.fst

/-- No variable is bound twice. -/
def Distinct (bindings : Bindings) : Prop :=
  bindings.names.Nodup

instance (bindings : Bindings) : Decidable bindings.Distinct :=
  inferInstanceAs (Decidable bindings.names.Nodup)

/-- The bound variables are those listed. -/
theorem bound_iff_mem_names : bindings.Bound name ↔ name ∈ bindings.names := by
  rw [Bound, ← Option.isSome_iff_exists, get?, List.lookup_isSome_iff, names, List.mem_map]
  simp only [beq_iff_eq, eq_comm (a := name)]

/-- A variable has no value exactly if it is not listed. -/
theorem get?_eq_none_iff : bindings.get? name = none ↔ name ∉ bindings.names := by
  rw [← bound_iff_mem_names, Bound, ← Option.isSome_iff_exists]
  simp

/-- A new variable is bound once. -/
theorem Distinct.bind (distinct : bindings.Distinct) (unbound : bindings.get? name = none) :
    (bindings.bind name value).Distinct := by
  have isNew := get?_eq_none_iff.1 unbound
  rw [Distinct, names, Bindings.bind, List.map_append, List.map_singleton, List.nodup_append]
  refine ⟨distinct, List.pairwise_singleton .., fun other listed last isLast same => ?_⟩
  obtain rfl : last = name := List.mem_singleton.1 isLast
  exact isNew (same ▸ listed)

/-- Of distinct variables each has the value that stands beside it. -/
theorem Distinct.get?_eq_some_iff (distinct : bindings.Distinct) :
    bindings.get? name = some value ↔ (name, value) ∈ bindings.pairs := by
  obtain ⟨pairs⟩ := bindings
  rw [Distinct, names] at distinct
  rw [get?]
  dsimp only at distinct ⊢
  induction pairs with
  | nil => simp
  | cons pair pairs inductionHypothesis =>
      obtain ⟨other, found⟩ := pair
      obtain ⟨isNew, distinct⟩ := List.nodup_cons.1 distinct
      rw [List.lookup_cons, List.mem_cons, Prod.mk.injEq]
      by_cases same : name = other
      · subst same
        have notLater : (name, value) ∉ pairs := fun later =>
          isNew (List.mem_map.2 ⟨_, later, rfl⟩)
        simp [notLater, eq_comm]
      · simp [same, beq_eq_false_iff_ne.2 same, inductionHypothesis distinct]

/-- A valuation agrees with distinct variables if it agrees with each pair. -/
theorem Distinct.agrees_iff (distinct : bindings.Distinct) {valuation : Valuation} :
    bindings.Agrees valuation ↔
      ∀ pair ∈ bindings.pairs, (valuation pair.1 == pair.2) = true := by
  rw [Agrees, Prod.forall]
  simp only [distinct.get?_eq_some_iff]

/-- What bindings gain when terms are matched with values: the variables without a value, once
each, in the order of their first positions and with the values there. -/
structure Gains (bindings extended : Bindings) (terms : List Term) (values : List Value)
    (gained : List (String × Value)) : Prop where
  /-- The old pairs stay in front. -/
  pairs_eq : extended.pairs = bindings.pairs ++ gained
  /-- Behind them come the variables that were not bound. -/
  names_eq : gained.map Prod.fst = ((terms.filterMap Term.var?).filter
    fun name => (bindings.get? name).isNone).eraseDups
  /-- Each has the value that it was met with first. -/
  firstValue?_eq : ∀ pair ∈ gained, firstValue? (terms.zip values) pair.1 = some pair.2

end Bindings

section Terms

variable {bindings extended : Bindings} {term : Term} {value : Value}

/-- A match of a term binds no variable twice. -/
theorem Term.distinct_unify (unified : term.unify value bindings = some extended)
    (distinct : bindings.Distinct) : extended.Distinct := by
  obtain ⟨rfl, _⟩ | ⟨name, _, unbound, rfl⟩ := eq_or_eq_bind_of_unify unified
  · exact distinct
  · exact distinct.bind unbound

/-- A match of a term in front gains its variable, if that had no value. -/
theorem Bindings.Gains.cons {last : Bindings} {terms : List Term} {values : List Value}
    {gained : List (String × Value)} (gains : extended.Gains last terms values gained)
    (unified : term.unify value bindings = some extended) :
    ∃ all, bindings.Gains last (term :: terms) (value :: values) all := by
  -- What is gained later had no value before, so it is not the variable of this term.
  have isOther : ∀ pair ∈ gained, term.var? ≠ some pair.1 := by
    intro pair member isVar
    have listed : pair.1 ∈ gained.map Prod.fst := List.mem_map_of_mem member
    rw [gains.names_eq, List.mem_eraseDups, List.mem_filter, Option.isNone_iff_eq_none] at listed
    obtain ⟨found, isBound⟩ := (Term.bound_unify_iff unified).2 (.inr isVar)
    rw [isBound] at listed
    cases listed.2
  have firsts : ∀ pair ∈ gained,
      firstValue? ((term, value) :: terms.zip values) pair.1 = some pair.2 := by
    intro pair member
    rw [firstValue?_cons, if_neg (isOther pair member), gains.firstValue?_eq pair member]
  obtain ⟨rfl, bound⟩ | ⟨name, isVar, unbound, rfl⟩ := Term.eq_or_eq_bind_of_unify unified
  · refine ⟨gained, gains.pairs_eq, ?_, firsts⟩
    rw [gains.names_eq, List.filterMap_cons]
    cases isVar : term.var? with
    | none => rfl
    | some name =>
        obtain ⟨found, isBound⟩ := bound name isVar
        simp [isBound]
  · refine ⟨(name, value) :: gained, ?_, ?_, List.forall_mem_cons.2 ⟨?_, firsts⟩⟩
    · rw [gains.pairs_eq, Bindings.bind, List.append_assoc, List.singleton_append]
    · rw [List.map_cons, gains.names_eq, List.filterMap_cons, isVar]
      dsimp only
      rw [List.filter_cons_of_pos (by simp [unbound]), List.eraseDups_cons, List.filter_filter]
      refine congrArg (name :: List.eraseDups ·) (List.filter_congr fun other _ => ?_)
      rw [Bindings.get?_bind]
      by_cases same : other = name <;> simp [same]
    · rw [List.zip_cons_cons, firstValue?_cons, if_pos isVar]

namespace UnifiesAll

variable {terms : List Term} {values : List Value}

/-- Matching terms gains their variables, as far as they had no values. -/
theorem exists_gains (unifies : UnifiesAll terms values bindings extended) :
    ∃ gained, bindings.Gains extended terms values gained := by
  induction unifies with
  | nil => exact ⟨[], (List.append_nil _).symm, rfl, by simp⟩
  | cons first _ inductionHypothesis =>
      obtain ⟨gained, gains⟩ := inductionHypothesis
      exact gains.cons first

/-- Matching terms binds no variable twice. -/
theorem distinct (unifies : UnifiesAll terms values bindings extended)
    (distinct : bindings.Distinct) : extended.Distinct := by
  induction unifies with
  | nil => exact distinct
  | cons first _ inductionHypothesis =>
      exact inductionHypothesis (Term.distinct_unify first distinct)

/-- After a match of terms a variable has the value that it had or else the one that it was met
with first. -/
theorem get?_eq (unifies : UnifiesAll terms values bindings extended) (name : String) :
    extended.get? name = (bindings.get? name <|> firstValue? (terms.zip values) name) := by
  induction unifies with
  | nil => simp [firstValue?]
  | @cons term _ _ _ _ _ _ first _ inductionHypothesis =>
      rw [inductionHypothesis, Term.get?_unify first, List.zip_cons_cons, firstValue?_cons]
      by_cases isVar : term.var? = some name <;> simp [isVar]

end UnifiesAll

end Terms

section InPlace

/-- Match a term against a value and change the bindings in place: whether they match, and the
bindings as they are left. -/
def Term.unifyInPlace (value : Value) (bindings : Bindings) : Term → Bool × Bindings
  | wildcard _ => (true, bindings)
  | constant expected => (expected == value, bindings)
  | var name =>
      match bindings.get? name with
      | some bound => (bound == value, bindings)
      | none => (true, bindings.bind name value)

/-- Match terms against values in place until one does not match. -/
def unifyInPlace : List (Term × Value) → Bindings → Bool × Bindings
  | [], bindings => (true, bindings)
  | (term, value) :: readings, bindings =>
      let step := term.unifyInPlace value bindings
      if step.1 then unifyInPlace readings step.2 else step

/-- The bindings that a run in place leaves, if everything matched. -/
def Bindings.ofRun? (run : Bool × Bindings) : Option Bindings :=
  if run.1 then some run.2 else none

/-- A term is matched in place as it is matched. -/
theorem Term.ofRun?_unifyInPlace (term : Term) (value : Value) (bindings : Bindings) :
    Bindings.ofRun? (term.unifyInPlace value bindings) = term.unify value bindings := by
  cases term with
  | wildcard name => rfl
  | constant expected => rfl
  | var name =>
      simp only [unifyInPlace, unify]
      cases bindings.get? name <;> rfl

/-- Terms are matched in place with as many values as they are matched. -/
theorem ofRun?_unifyInPlace {terms : List Term} {values : List Value}
    (sameLength : values.length = terms.length) (bindings : Bindings) :
    Bindings.ofRun? (unifyInPlace (terms.zip values) bindings) =
      unifyTerms terms values bindings := by
  induction terms generalizing values bindings with
  | nil =>
      obtain rfl := List.length_eq_zero_iff.1 sameLength
      rfl
  | cons term terms inductionHypothesis =>
      cases values with
      | nil => cases sameLength
      | cons value values =>
          rw [List.zip_cons_cons, unifyInPlace, unifyTerms,
            ← Term.ofRun?_unifyInPlace term value bindings]
          by_cases isMatch : (term.unifyInPlace value bindings).1 = true
          · rw [if_pos isMatch, inductionHypothesis (Nat.succ.inj sameLength)]
            simp [Bindings.ofRun?, isMatch]
          · simp [Bindings.ofRun?, isMatch]

end InPlace

namespace Bindings

/-- A match that is asked for. -/
inductive Call where
  | matchTerm (term : Term) (value : Value)
  | matchAtom (atom : Atom) (fact : Fact)

/-- The bindings after a match, if there is one. -/
def Call.result? (bindings : Bindings) : Call → Option Bindings
  | matchTerm term value => term.unify value bindings
  | matchAtom atom fact => atom.unify fact bindings

/-- Match in place: whether everything matched, and the bindings as they are left. -/
def Call.run (bindings : Bindings) : Call → Bool × Bindings
  | matchTerm term value => term.unifyInPlace value bindings
  | matchAtom atom fact =>
      if fact.relation = atom.relation ∧ fact.values.length = atom.arity then
        unifyInPlace (atom.terms.zip fact.values) bindings
      else (false, bindings)

/-- Match on a copy of the bindings, which replaces them if everything matched. -/
def attempt (bindings : Bindings) (call : Call) : Bindings :=
  let copy := call.run bindings
  if copy.1 then copy.2 else bindings

/-- Matches that are asked for one after the other. -/
def attemptAll (bindings : Bindings) (calls : List Call) : Bindings :=
  calls.foldl attempt bindings

variable {bindings extended : Bindings}

/-- A match in place has the result of the match. -/
theorem Call.ofRun?_run (call : Call) (bindings : Bindings) :
    ofRun? (call.run bindings) = call.result? bindings := by
  cases call with
  | matchTerm term value => exact term.ofRun?_unifyInPlace value bindings
  | matchAtom atom fact =>
      rw [run, result?]
      split
      next fits => rw [ofRun?_unifyInPlace fits.2, Atom.unify, if_pos fits.1]
      next differs =>
        cases unified : atom.unify fact bindings with
        | none => rfl
        | some extended =>
            obtain ⟨sameRelation, unifies⟩ := Atom.unify_eq_some_iff.1 unified
            exact absurd ⟨sameRelation, unifies.length_eq.symm⟩ differs

/-- What a match leaves is its result, or the bindings before it if there is none. -/
theorem attempt_eq (bindings : Bindings) (call : Call) :
    bindings.attempt call = (call.result? bindings).getD bindings := by
  rw [attempt, ← call.ofRun?_run, ofRun?]
  split <;> rfl

/-- A match binds no variable twice. -/
theorem Distinct.of_result? (distinct : bindings.Distinct) {call : Call}
    (isResult : call.result? bindings = some extended) : extended.Distinct := by
  cases call with
  | matchTerm term value => exact Term.distinct_unify isResult distinct
  | matchAtom atom fact => exact (Atom.unify_eq_some_iff.1 isResult).2.distinct distinct

/-- A match, successful or not, binds no variable twice. -/
theorem Distinct.attempt (distinct : bindings.Distinct) (call : Call) :
    (bindings.attempt call).Distinct := by
  rw [attempt_eq]
  cases isResult : call.result? bindings with
  | none => exact distinct
  | some extended => exact distinct.of_result? isResult

/-- Matches, successful or not, bind no variable twice. -/
theorem Distinct.attemptAll (distinct : bindings.Distinct) (calls : List Call) :
    (bindings.attemptAll calls).Distinct := by
  induction calls generalizing bindings with
  | nil => exact distinct
  | cons call calls inductionHypothesis => exact inductionHypothesis (distinct.attempt call)

/-- A match that fails may as well not be asked for. -/
theorem attemptAll_of_result?_eq_none {earlier : List Call} {call : Call}
    (fails : call.result? (bindings.attemptAll earlier) = none) (later : List Call) :
    bindings.attemptAll (earlier ++ call :: later) = bindings.attemptAll (earlier ++ later) := by
  have unchanged : (bindings.attemptAll earlier).attempt call = bindings.attemptAll earlier := by
    rw [attempt_eq, fails, Option.getD_none]
  simp only [Bindings.attemptAll, List.foldl_append, List.foldl_cons] at unchanged ⊢
  rw [unchanged]

/-- An atom can be matched with a fact if some valuation that agrees with the bindings makes
them match. -/
theorem isSome_unify_iff_exists {atom : Atom} {fact : Fact} :
    (atom.unify fact bindings).isSome = true ↔
      ∃ valuation, bindings.Agrees valuation ∧ atom.Matches valuation fact := by
  simp only [← Atom.exists_unify_iff, Option.isSome_iff_exists]
  constructor
  · rintro ⟨extended, unified⟩
    exact ⟨extended.valuation, extended, unified, extended.agrees_valuation⟩
  · rintro ⟨_, extended, unified, _⟩
    exact ⟨extended, unified⟩

/-- Matches extend bindings as little as they can. -/
structure ExtendsLeast (bindings : Bindings) : Prop where
  /-- An atom can be matched with a fact of its relation and arity if there is a valuation that
  has the bound values and makes every term match the value at its position. -/
  isSome_unify_iff : ∀ (atom : Atom) (fact : Fact),
    (atom.unify fact bindings).isSome = true ↔
      fact.relation = atom.relation ∧ fact.values.length = atom.arity ∧
        ∃ valuation : Valuation,
          (∀ pair ∈ bindings.pairs, (valuation pair.1 == pair.2) = true) ∧
          ∀ (position : Nat) term value, atom.terms[position]? = some term →
            fact.values[position]? = some value → term.Matches valuation value
  /-- The result has the old pairs in front and gains the variables of the atom that were not
  bound. -/
  exists_gains : ∀ (atom : Atom) (fact : Fact) extended,
    atom.unify fact bindings = some extended →
      ∃ gained, bindings.Gains extended atom.terms fact.values gained
  /-- No valuation is shut out by more than the match: those that agree with the result are
  those that agree with the bindings and make the atom match. -/
  agrees_iff : ∀ (atom : Atom) (fact : Fact) extended,
    atom.unify fact bindings = some extended → ∀ valuation,
      extended.Agrees valuation ↔ bindings.Agrees valuation ∧ atom.Matches valuation fact
  /-- A match in place on a copy leaves the result to the caller, or else what was there. -/
  attempt_eq : ∀ call, bindings.attempt call = (call.result? bindings).getD bindings
  /-- No variable is bound twice after any sequence of matches. -/
  distinct : ∀ calls, (bindings.attemptAll calls).Distinct
  /-- A match that fails leaves all that comes later as it would be without it. -/
  unchanged : ∀ earlier call, call.result? (bindings.attemptAll earlier) = none →
    ∀ later, bindings.attemptAll (earlier ++ call :: later) =
      bindings.attemptAll (earlier ++ later)

/-- Matches extend bindings of distinct variables as little as they can. -/
theorem extendsLeast_of_distinct (distinct : bindings.Distinct) : bindings.ExtendsLeast where
  isSome_unify_iff atom fact := by
    rw [isSome_unify_iff_exists]
    simp only [distinct.agrees_iff, Atom.Matches, forall₂_iff_getElem?, AtomOf.arity]
    constructor
    · rintro ⟨valuation, agrees, sameRelation, sameLength, areMatches⟩
      exact ⟨sameRelation, sameLength.symm, valuation, agrees, areMatches⟩
    · rintro ⟨sameRelation, sameLength, valuation, agrees, areMatches⟩
      exact ⟨valuation, agrees, sameRelation, sameLength.symm, areMatches⟩
  exists_gains atom fact extended unified := (Atom.unify_eq_some_iff.1 unified).2.exists_gains
  agrees_iff atom fact extended unified valuation := by
    rw [← Atom.exists_unify_iff, unified]
    simp
  attempt_eq := bindings.attempt_eq
  distinct := distinct.attemptAll
  unchanged earlier call fails := attemptAll_of_result?_eq_none fails

/-- The value `1.0` for `X` alone is extended as little as can be. -/
theorem extendsLeast_shared :
    (⟨[("X", .float ⟨0x3ff0000000000000⟩)]⟩ : Bindings).Distinct ∧
      (⟨[("X", .float ⟨0x3ff0000000000000⟩)]⟩ : Bindings).ExtendsLeast := by
  have distinct : (⟨[("X", .float ⟨0x3ff0000000000000⟩)]⟩ : Bindings).Distinct := by decide
  exact ⟨distinct, extendsLeast_of_distinct distinct⟩

/-- `X` keeps the writing of its value, `Y` has that of its first position. -/
example : Atom.unify ⟨"e", .ordered [.var "X", .var "Y", .wildcard "_", .var "Y"]⟩
    ⟨"e", [.int 1, .int 2, .null, .float ⟨0x4000000000000000⟩]⟩
    ⟨[("X", .float ⟨0x3ff0000000000000⟩)]⟩ =
      some ⟨[("X", .float ⟨0x3ff0000000000000⟩), ("Y", .int 2)]⟩ := by decide +kernel

/-- Where the second `Y` does not match, the copy has bound the first one already, but the
caller sees nothing of it. -/
example :
    let call : Call :=
      .matchAtom ⟨"e", .ordered [.var "Y", .var "Y"]⟩ ⟨"e", [.int 1, .int 2]⟩
    call.run ∅ = (false, ⟨[("Y", .int 1)]⟩) ∧ (∅ : Bindings).attempt call = ∅ := by decide

end Bindings

end Datalog
