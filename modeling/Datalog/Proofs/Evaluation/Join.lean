import Datalog.Evaluation.Join
import Datalog.Proofs.Evaluation.Matching
import Datalog.Proofs.FactStore.Growth

/-!
# Joins as searches of boxes

The spans of a join form a box, whose points are combinations of places, one for each
positive atom. A join tries every point of its box once, in lexicographic order:
`Rule.join_eq` writes it as a filter over `combinations`, and `Rule.derive?` is what a rule
derives from one combination. Over all combinations of a store these are the consequences of
its content, which `Rule.exists_derive?_iff` says for safe rules.
-/

namespace Datalog

/-- A place is within a span. -/
def Span.Contains (span : Span) (index : Nat) : Prop :=
  span.start ≤ index ∧ index < span.stop

/-- One span for each atom of a join. -/
abbrev Box := List Span

/-- A combination takes a place from each span of a box. -/
def Box.Contains (box : Box) (combination : List Nat) : Prop :=
  List.Forall₂ Span.Contains box combination

/-- The combinations in a box, in lexicographic order. -/
def combinations : Box → List (List Nat)
  | [] => [[]]
  | span :: box =>
      (List.range' span.start (span.stop - span.start)).flatMap fun index =>
        (combinations box).map (index :: ·)

/-- The combinations in a box are those it contains. -/
theorem mem_combinations_iff {box : Box} {combination : List Nat} :
    combination ∈ combinations box ↔ box.Contains combination := by
  induction box generalizing combination with
  | nil => simp [combinations, Box.Contains]
  | cons span box inductionHypothesis =>
      simp only [combinations, List.mem_flatMap, List.mem_range'_1, List.mem_map,
        inductionHypothesis]
      constructor
      · rintro ⟨index, inSpan, rest, inBox, rfl⟩
        exact .cons ⟨inSpan.1, by omega⟩ inBox
      · intro inside
        cases inside with
        | @cons _ index _ rest inSpan inBox =>
            obtain ⟨notBefore, before⟩ := inSpan
            exact ⟨index, ⟨notBefore, by omega⟩, rest, inBox, rfl⟩

/-- The combinations of a box come in lexicographic order. -/
theorem pairwise_combinations (box : Box) : (combinations box).Pairwise (· < ·) := by
  induction box with
  | nil => exact List.pairwise_singleton ..
  | cons span box inductionHypothesis =>
      -- Combinations with one first place differ later, all others at the first place.
      refine List.pairwise_flatMap.2 ⟨fun index _ => ?_, ?_⟩
      · exact List.pairwise_map.2 (inductionHypothesis.imp fun less =>
          List.cons_lt_cons_iff.2 (.inr ⟨rfl, less⟩))
      · refine List.Pairwise.imp (fun less => ?_) (List.pairwise_lt_range' (s := span.start))
        simp only [List.mem_map]
        rintro _ ⟨first, _, rfl⟩ _ ⟨second, _, rfl⟩
        exact List.cons_lt_cons_iff.2 (.inl less)

/-- A box lists each combination once. -/
theorem nodup_combinations (box : Box) : (combinations box).Nodup := by
  refine List.Pairwise.imp ?_ (pairwise_combinations box)
  rintro combination _ less rfl
  exact List.lt_irrefl combination less

/-- The box of the spans that atoms read, the first of them at a given place. -/
def boxFrom (spans : Nat → String → Span) (place : Nat) (atoms : List Atom) : Box :=
  (atoms.zipIdx place).map fun entry => spans entry.2 entry.1.relation

/-- Match atoms with the facts at given places of their relations, from left to right. -/
def unifyAt (store : FactStore) : List Atom → List Nat → Bindings → Option Bindings
  | [], [], bindings => some bindings
  | atom :: atoms, index :: indices, bindings =>
      (store.factsOf atom.relation)[index]?.bind fun fact =>
        (atom.unify fact bindings).bind fun extended => unifyAt store atoms indices extended
  | _, _, _ => none

/-- What a rule derives from the facts at given places, if they match. -/
def Rule.derive? (rule : Rule) (store : FactStore) (combination : List Nat) : Option Fact :=
  (unifyAt store rule.positive combination ∅).bind fun bindings =>
    if rule.admits store bindings then rule.head.ground? bindings else none

/-- The facts in a span are those at its places. -/
theorem factsIn_eq (store : FactStore) (relation : String) (span : Span) :
    store.factsIn relation span =
      (List.range' span.start (span.stop - span.start)).filterMap
        ((store.factsOf relation)[·]?) := by
  obtain ⟨start, stop⟩ := span
  rw [FactStore.factsIn, Array.toList_extract, List.extract_eq_take_drop]
  simp only [← Array.getElem?_toList]
  generalize (store.factsOf relation).toList = facts, stop - start = length
  induction length generalizing start with
  | zero => simp
  | succ length inductionHypothesis =>
      rw [List.range'_succ, List.filterMap_cons, ← inductionHypothesis]
      cases atStart : facts[start]? with
      | none =>
          have beyond := List.getElem?_eq_none_iff.1 atStart
          rw [List.drop_eq_nil_of_le beyond, List.drop_eq_nil_of_le (by omega)]
          simp
      | some fact =>
          obtain ⟨inBounds, rfl⟩ := List.getElem?_eq_some_iff.1 atStart
          rw [List.drop_eq_getElem_cons inBounds, List.take_succ_cons]

/-- A join from left to right tries the combinations of its box. -/
theorem joinAtoms_eq (store : FactStore) (spans : Nat → String → Span) (place : Nat)
    (atoms : List Atom) (frontier : List Bindings) :
    joinAtoms store spans place atoms frontier = frontier.flatMap fun bindings =>
      (combinations (boxFrom spans place atoms)).filterMap fun combination =>
        unifyAt store atoms combination bindings := by
  induction atoms generalizing place frontier with
  | nil => simp [joinAtoms, boxFrom, combinations, unifyAt]
  | cons atom atoms inductionHypothesis =>
      have box : boxFrom spans place (atom :: atoms) =
          spans place atom.relation :: boxFrom spans (place + 1) atoms := rfl
      rw [joinAtoms, inductionHypothesis, box, Atom.extend, List.flatMap_assoc]
      refine congrArg frontier.flatMap (funext fun bindings => ?_)
      simp only [factsIn_eq, combinations, List.filterMap_eq_flatMap_toList, List.flatMap_assoc,
        List.flatMap_map]
      refine congrArg (List.flatMap · _) (funext fun index => ?_)
      cases atIndex : (store.factsOf atom.relation)[index]? with
      | none => simp [unifyAt, atIndex]
      | some fact =>
          cases unified : atom.unify fact bindings with
          | none => simp [unifyAt, atIndex, unified]
          | some extended => simp [unifyAt, atIndex, unified]

namespace Rule

/-- The box that a rule searches. -/
def box (rule : Rule) (spans : Nat → String → Span) : Box :=
  boxFrom spans 0 rule.positive

/-- A rule derives what it derives from the combinations of its box, in their order. -/
theorem join_eq (rule : Rule) (store : FactStore) (spans : Nat → String → Span) :
    rule.join store spans = (combinations (rule.box spans)).filterMap (rule.derive? store) := by
  rw [join, joinAtoms_eq, List.flatMap_singleton, List.filterMap_filterMap]
  rfl

end Rule

section Meaning

variable {store : FactStore} {valuation : Valuation} {bindings extended : Bindings}

/-- The fact at some place of an atom's relation matches the atom. -/
def Atom.MatchesAt (atom : Atom) (store : FactStore) (valuation : Valuation) (index : Nat) :
    Prop :=
  ∃ fact, (store.factsOf atom.relation)[index]? = some fact ∧ atom.Matches valuation fact

/-- Atoms unify with the facts at given places in agreement with a valuation under which they
match them. -/
theorem exists_unifyAt_iff {atoms : List Atom} {combination : List Nat} :
    (∃ extended, unifyAt store atoms combination bindings = some extended ∧
        extended.Agrees valuation) ↔
      bindings.Agrees valuation ∧
        List.Forall₂ (Atom.MatchesAt · store valuation) atoms combination := by
  induction atoms generalizing combination bindings with
  | nil => cases combination <;> simp [unifyAt]
  | cons atom atoms inductionHypothesis =>
      cases combination with
      | nil => simp [unifyAt]
      | cons index combination =>
          rw [List.forall₂_cons, ← and_assoc, Atom.MatchesAt]
          simp only [unifyAt]
          cases (store.factsOf atom.relation)[index]? with
          | none => simp
          | some fact =>
              simp only [Option.bind_some, Option.some.injEq, exists_eq_left',
                ← Atom.exists_unify_iff]
              cases atom.unify fact bindings with
              | none => simp
              | some middle => simp [inductionHypothesis]

/-- A match of atoms is one of all their terms with the values of stored facts. -/
theorem exists_unifiesAll_of_unifyAt {atoms : List Atom} {combination : List Nat}
    (unified : unifyAt store atoms combination bindings = some extended) :
    ∃ facts, List.Forall₂ (fun atom fact => fact ∈ store.factsOf atom.relation) atoms facts ∧
      UnifiesAll (atoms.flatMap AtomOf.terms) (facts.flatMap Fact.values) bindings extended := by
  induction atoms generalizing combination bindings with
  | nil =>
      cases combination with
      | nil =>
          cases unified
          exact ⟨[], .nil, .nil⟩
      | cons index combination => cases unified
  | cons atom atoms inductionHypothesis =>
      cases combination with
      | nil => cases unified
      | cons index combination =>
          simp only [unifyAt, Option.bind_eq_some_iff] at unified
          obtain ⟨fact, atIndex, middle, first, rest⟩ := unified
          obtain ⟨facts, areStored, unifies⟩ := inductionHypothesis rest
          exact ⟨fact :: facts, .cons (Array.mem_of_getElem? atIndex) areStored,
            (Atom.unify_eq_some_iff.1 first).2.append unifies⟩

/-- Unifying atoms binds all of their variables. -/
theorem bound_of_unifyAt {atoms : List Atom} {combination : List Nat}
    (unified : unifyAt store atoms combination bindings = some extended) {name : String} :
    extended.Bound name ↔ bindings.Bound name ∨ ∃ atom ∈ atoms, name ∈ atom.variables := by
  obtain ⟨facts, _, unifies⟩ := exists_unifiesAll_of_unifyAt unified
  rw [unifies.bound_iff, List.filterMap_flatMap, List.mem_flatMap]
  rfl

/-- Some listed fact matches an atom if some fact of the store does. -/
theorem exists_matches_iff {atom : Atom} :
    (∃ stored ∈ store.factsOf atom.relation, atom.Matches valuation stored) ↔
      ∃ fact ∈ store.facts, atom.Matches valuation fact := by
  constructor
  · rintro ⟨stored, isStored, isMatch⟩
    exact ⟨stored, FactStore.mem_facts_of_mem_factsOf isStored isMatch.1, isMatch⟩
  · rintro ⟨fact, member, isMatch⟩
    obtain ⟨stored, isStored, equal⟩ := FactStore.mem_facts_iff.1 member
    exact ⟨stored, isMatch.1 ▸ isStored, isMatch.congr (BEq.symm equal)⟩

/-- An atom whose variables are bound is matched exactly if it matches a fact of the store. -/
theorem Atom.isMatched_iff {atom : Atom} (agrees : bindings.Agrees valuation)
    (bound : ∀ name ∈ atom.variables, bindings.Bound name) :
    atom.isMatched store bindings = true ↔ ∃ fact ∈ store.facts, atom.Matches valuation fact := by
  rw [isMatched]
  cases isGround : atom.ground? bindings with
  | some ground =>
      simp only [matches_iff_of_ground? agrees isGround]
      constructor
      · intro present
        exact ⟨ground, present, BEq.rfl⟩
      · rintro ⟨fact, member, equal⟩
        exact FactStore.mem_facts_congr (BEq.symm equal) member
  | none =>
      simp only [← exists_matches_iff, List.any_eq_true, Array.mem_toList_iff,
        isSome_unify_iff agrees bound]

end Meaning

namespace Rule

variable {rule : Rule} {store : FactStore} {valuation : Valuation} {bindings : Bindings}

/-- What is demanded of variables is demanded in the head, the negated atoms and the
constraints. -/
theorem forall_demands_iff {property : String → Prop} :
    (∀ demand ∈ rule.demands, property demand.1) ↔
      (∀ name ∈ rule.head.variables, property name) ∧
        (∀ atom ∈ rule.negative, ∀ name ∈ atom.variables, property name) ∧
        ∀ constraint ∈ rule.constraints, ∀ name ∈ constraint.variables, property name := by
  simp only [demands, List.forall_mem_append, List.forall_mem_map, List.forall_mem_flatMap,
    and_assoc]

/-- Bindings of all variables are admitted exactly if no negated atom matches a fact of the
store and every constraint holds. -/
theorem admits_iff (agrees : bindings.Agrees valuation)
    (bound : ∀ demand ∈ rule.demands, bindings.Bound demand.1) :
    rule.admits store bindings = true ↔
      (∀ atom ∈ rule.negative, ¬ ∃ fact ∈ store.facts, atom.Matches valuation fact) ∧
        ∀ constraint ∈ rule.constraints, constraint.Holds valuation := by
  obtain ⟨_, inNegative, inConstraints⟩ := forall_demands_iff.1 bound
  rw [admits, Bool.and_eq_true, Bool.not_eq_true', List.any_eq_false, List.all_eq_true]
  refine and_congr ?_ ?_
  · refine forall₂_congr fun atom member => ?_
    rw [Atom.isMatched_iff agrees (inNegative atom member)]
  · refine forall₂_congr fun constraint member => ?_
    rw [Constraint.holds_iff agrees (inConstraints constraint member)]

/-- Matching the positive atoms of a safe rule gives values to all variables that need one. -/
theorem bound_of_safe (safe : rule.Safe) {combination : List Nat}
    (unified : unifyAt store rule.positive combination ∅ = some bindings) :
    ∀ demand ∈ rule.demands, bindings.Bound demand.1 := fun demand isDemanded =>
  (bound_of_unifyAt unified).2 (.inr (safe demand isDemanded))

/-- A rule applies to the facts at given places: they match its positive atoms, and no negated
atom and no constraint refuses the match. -/
structure AppliesAt (rule : Rule) (store : FactStore) (valuation : Valuation)
    (combination : List Nat) : Prop where
  positive : List.Forall₂ (Atom.MatchesAt · store valuation) rule.positive combination
  negative : ∀ atom ∈ rule.negative, ¬ ∃ fact ∈ store.facts, atom.Matches valuation fact
  constraints : ∀ constraint ∈ rule.constraints, constraint.Holds valuation

/-- Where a safe rule derives something from a combination, it applies there under the values
that the combination gives to the variables. -/
theorem exists_appliesAt_of_derive? (safe : rule.Safe) {combination : List Nat} {derived : Fact}
    (isDerived : rule.derive? store combination = some derived) :
    ∃ valuation, rule.AppliesAt store valuation combination ∧
      (rule.head.factUnder valuation == derived) = true := by
  simp only [derive?, Option.bind_eq_some_iff, Option.ite_none_right_eq_some] at isDerived
  obtain ⟨bindings, unified, admitted, isGround⟩ := isDerived
  have agrees := bindings.agrees_valuation
  have bound := bound_of_safe safe unified
  obtain ⟨negative, constraints⟩ := (admits_iff agrees bound).1 admitted
  have places := (exists_unifyAt_iff.1 ⟨bindings, unified, agrees⟩).2
  obtain ⟨fact, isFact, same⟩ := HeadAtom.exists_ground? agrees (forall_demands_iff.1 bound).1
  rw [isGround, Option.some.injEq] at isFact
  exact ⟨bindings.valuation, ⟨places, negative, constraints⟩, isFact ▸ same⟩

/-- Where a safe rule applies to a combination, it derives its head from it. -/
theorem exists_derive?_of_appliesAt (safe : rule.Safe) {combination : List Nat}
    (applies : rule.AppliesAt store valuation combination) :
    ∃ derived, rule.derive? store combination = some derived ∧
      (rule.head.factUnder valuation == derived) = true := by
  obtain ⟨bindings, unified, agrees⟩ :=
    exists_unifyAt_iff.2 ⟨Bindings.agrees_empty valuation, applies.positive⟩
  have bound := bound_of_safe safe unified
  obtain ⟨derived, isGround, same⟩ :=
    HeadAtom.exists_ground? agrees (forall_demands_iff.1 bound).1
  refine ⟨derived, ?_, same⟩
  rw [derive?, unified, Option.bind_some,
    if_pos ((admits_iff agrees bound).2 ⟨applies.negative, applies.constraints⟩), isGround]

/-- A rule that applies to a combination applies to the content of the store. -/
theorem AppliesAt.applies {combination : List Nat}
    (applies : rule.AppliesAt store valuation combination) :
    rule.Applies store.facts store.facts valuation where
  positive atom inBody := by
    obtain ⟨index, _, fact, atIndex, isMatch⟩ := exists_mem_of_forall₂ applies.positive inBody
    exact exists_matches_iff.1 ⟨fact, Array.mem_of_getElem? atIndex, isMatch⟩
  negative := applies.negative
  constraints := applies.constraints

/-- A rule that applies to the content of a store applies to some combination. -/
theorem exists_appliesAt (applies : rule.Applies store.facts store.facts valuation) :
    ∃ combination, rule.AppliesAt store valuation combination := by
  have places : ∀ atom ∈ rule.positive, ∃ index, atom.MatchesAt store valuation index := by
    intro atom inBody
    obtain ⟨stored, isStored, isMatch⟩ := exists_matches_iff.2 (applies.positive atom inBody)
    obtain ⟨index, atIndex⟩ := Array.mem_iff_getElem?.1 isStored
    exact ⟨index, stored, atIndex, isMatch⟩
  obtain ⟨combination, matched⟩ := exists_forall₂ places
  exact ⟨combination, matched, applies.negative, applies.constraints⟩

/-- A safe rule derives exactly its consequences from the combinations of a store. -/
theorem exists_derive?_iff (safe : rule.Safe) {fact : Fact} :
    (∃ combination derived, rule.derive? store combination = some derived ∧
        (derived == fact) = true) ↔
      ∃ valuation, rule.Applies store.facts store.facts valuation ∧
        (rule.head.factUnder valuation == fact) = true := by
  constructor
  · rintro ⟨combination, derived, isDerived, equal⟩
    obtain ⟨valuation, applies, same⟩ := exists_appliesAt_of_derive? safe isDerived
    exact ⟨valuation, applies.applies, BEq.trans same equal⟩
  · rintro ⟨valuation, applies, equal⟩
    obtain ⟨combination, appliesAt⟩ := exists_appliesAt applies
    obtain ⟨derived, isDerived, same⟩ := exists_derive?_of_appliesAt safe appliesAt
    exact ⟨combination, derived, isDerived, BEq.trans (BEq.symm same) equal⟩

/-- A combination takes places that facts have in a store. -/
def Within (rule : Rule) (countOf : String → Nat) (combination : List Nat) : Prop :=
  List.Forall₂ (fun atom index => index < countOf atom.relation) rule.positive combination

/-- Only combinations of stored facts derive something. -/
theorem within_of_derive? {combination : List Nat} {derived : Fact}
    (isDerived : rule.derive? store combination = some derived) :
    rule.Within store.countOf combination := by
  simp only [derive?, Option.bind_eq_some_iff] at isDerived
  obtain ⟨bindings, unified, _⟩ := isDerived
  have matched := (exists_unifyAt_iff.1 ⟨bindings, unified, bindings.agrees_valuation⟩).2
  refine matched.imp fun atom index => ?_
  rintro ⟨fact, atIndex, _⟩
  exact (Array.getElem?_eq_some_iff.1 atIndex).1

/-- What a rule derives is its head with the values that its positive atoms were matched
with. -/
theorem exists_resolved_of_derive? {combination : List Nat} {derived : Fact}
    (isDerived : rule.derive? store combination = some derived) :
    ∃ bindings, unifyAt store rule.positive combination ∅ = some bindings ∧
      derived.relation = rule.head.relation ∧
      List.Forall₂ (fun term value => HeadTerm.resolve? bindings term = some value)
        rule.head.terms derived.values := by
  simp only [derive?, Option.bind_eq_some_iff, Option.ite_none_right_eq_some,
    HeadAtom.ground?, Option.map_eq_some_iff] at isDerived
  obtain ⟨bindings, unified, _, resolved, areResolved, rfl⟩ := isDerived
  exact ⟨bindings, unified, rfl, mapM_eq_some_iff.1 areResolved⟩

/-- What a rule derives is of the relation of its head. -/
theorem relation_of_derive? {combination : List Nat} {derived : Fact}
    (isDerived : rule.derive? store combination = some derived) :
    derived.relation = rule.head.relation := by
  obtain ⟨_, _, ofHead, _⟩ := exists_resolved_of_derive? isDerived
  exact ofHead

/-- Admission only looks at the facts of negated relations. -/
theorem admits_congr {later : FactStore}
    (unchanged : ∀ atom ∈ rule.negative,
      later.setOf atom.relation = store.setOf atom.relation) :
    rule.admits later bindings = rule.admits store bindings := by
  refine congrArg (!· && _) (Bool.eq_iff_iff.2 ?_)
  simp only [List.any_eq_true]
  refine exists_congr fun atom => and_congr_right fun member => ?_
  have sameSet := unchanged atom member
  simp only [Atom.isMatched, FactStore.factsOf, sameSet]
  cases isGround : atom.ground? bindings with
  | none => rfl
  | some ground =>
      simp only [Atom.ground?, Option.map_eq_some_iff] at isGround
      obtain ⟨values, _, rfl⟩ := isGround
      simp only [FactStore.contains, sameSet]

/-- A combination derives later what it derived before, if no fact of a negated relation came
in between. -/
theorem derive?_of_grows {later : FactStore} (grows : store.Grows later)
    (unchanged : ∀ atom ∈ rule.negative,
      later.setOf atom.relation = store.setOf atom.relation)
    {combination : List Nat} (within : rule.Within store.countOf combination) :
    rule.derive? later combination = rule.derive? store combination := by
  have unified (bindings : Bindings) : unifyAt later rule.positive combination bindings =
      unifyAt store rule.positive combination bindings := by
    rw [Within] at within
    generalize rule.positive = atoms at within ⊢
    induction within generalizing bindings with
    | nil => rfl
    | cons inBounds _ inductionHypothesis =>
        simp only [unifyAt, grows.getElem?_factsOf inBounds, inductionHypothesis]
  simp only [derive?, unified, admits_congr unchanged]

end Rule

end Datalog
