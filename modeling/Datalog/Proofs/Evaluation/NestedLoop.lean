import Datalog.Proofs.Evaluation.Extension
import Datalog.Proofs.Evaluation.Join
import Datalog.Proofs.FactStore.History

/-!
# Joins as nested loops

A nested loop over the positive atoms of a rule takes for each of them the facts within its
span, in the order in which they were stored. `Rule.NestedLoop` says which combinations of
facts it finds and which heads come of them: every combination that some valuation fits, once,
in lexicographic order, with the head written in the values that its variables met first.
`Rule.exists_nestedLoop` says that a join of a safe rule derives these heads.
-/

namespace Datalog

/-- A fact and its place among the facts of its relation. -/
@[ext]
structure Pick where
  index : Nat
  fact : Fact

/-- A pick takes a stored fact of the relation of an atom, at a place within the span for it. -/
def Pick.IsFrom (store : FactStore) (spans : Nat → String → Span) (entry : Atom × Nat)
    (pick : Pick) : Prop :=
  (spans entry.2 entry.1.relation).Contains pick.index ∧
    (store.factsOf entry.1.relation)[pick.index]? = some pick.fact

/-- A combination picks a fact for each atom, the first of them at a given place. -/
def CombinesFrom (store : FactStore) (spans : Nat → String → Span) (place : Nat)
    (atoms : List Atom) (combination : List Pick) : Prop :=
  List.Forall₂ (fun entry pick => pick.IsFrom store spans entry) (atoms.zipIdx place) combination

/-- What atoms read in the facts picked for them, from left to right. -/
def readings (atoms : List Atom) (combination : List Pick) : List (Term × Value) :=
  (atoms.zip combination).flatMap fun entry => entry.1.terms.zip entry.2.fact.values

/-- The first atom is read first. -/
theorem readings_cons (atom : Atom) (atoms : List Atom) (pick : Pick) (combination : List Pick) :
    readings (atom :: atoms) (pick :: combination) =
      atom.terms.zip pick.fact.values ++ readings atoms combination := rfl

/-- An argument of a head is written as its constant or as its variable was met first. -/
def HeadTerm.IsWritten (readings : List (Term × Value)) : HeadTerm → Value → Prop
  | constant value, written => written = value
  | var name, written => firstValue? readings name = some written

namespace Rule

/-- A combination picks a fact for each positive atom. -/
def Combines (rule : Rule) (store : FactStore) (spans : Nat → String → Span)
    (combination : List Pick) : Prop :=
  CombinesFrom store spans 0 rule.positive combination

/-- Some valuation makes each positive atom match the fact picked for it, no negated atom match
any fact of the store, and every constraint hold. -/
def Fits (rule : Rule) (store : FactStore) (combination : List Pick) : Prop :=
  ∃ valuation : Valuation,
    List.Forall₂ (fun atom pick => atom.Matches valuation pick.fact) rule.positive combination ∧
      (∀ atom ∈ rule.negative, ¬ ∃ fact ∈ store.allFacts, atom.Matches valuation fact) ∧
      ∀ constraint ∈ rule.constraints, constraint.Holds valuation

/-- A fact is the head of a rule, with the values that its variables met first. -/
def IsHead (rule : Rule) (combination : List Pick) (fact : Fact) : Prop :=
  fact.relation = rule.head.relation ∧
    List.Forall₂ (HeadTerm.IsWritten (readings rule.positive combination)) rule.head.terms
      fact.values

/-- Heads are those of a nested loop over the positive atoms, one for each combination found. -/
structure NestedLoop (rule : Rule) (store : FactStore) (spans : Nat → String → Span)
    (found : List (List Pick)) (heads : List Fact) : Prop where
  /-- The combinations found are those that some valuation fits. -/
  mem_found_iff : ∀ combination, combination ∈ found ↔
    rule.Combines store spans combination ∧ rule.Fits store combination
  /-- A constraint with a wildcard never holds, so nothing is found. -/
  found_eq_nil : ∀ constraint ∈ rule.constraints, ∀ name,
    constraint.right = .wildcard name → found = []
  /-- Their places are in lexicographic order, and none is found twice. -/
  ascending : (found.map fun combination => combination.map Pick.index).Pairwise (· < ·)
  /-- Each has one head, whose variables have the values that they met first. -/
  areHeads : List.Forall₂ rule.IsHead found heads

end Rule

section Stored

variable {store : FactStore} {atoms : List Atom} {combination : List Pick}

/-- The facts of a combination are those at its places. -/
def Picked (store : FactStore) (atoms : List Atom) (combination : List Pick) : Prop :=
  List.Forall₂ (fun atom pick => (store.factsOf atom.relation)[pick.index]? = some pick.fact)
    atoms combination

/-- Atoms match the facts at the places of a combination if they match its facts. -/
theorem Picked.matchesAt_iff (picked : Picked store atoms combination) {valuation : Valuation} :
    List.Forall₂ (Atom.MatchesAt · store valuation) atoms (combination.map Pick.index) ↔
      List.Forall₂ (fun atom pick => atom.Matches valuation pick.fact) atoms combination := by
  induction picked with
  | nil => simp
  | cons atIndex _ inductionHypothesis =>
      rw [List.map_cons, List.forall₂_cons, List.forall₂_cons, inductionHypothesis]
      simp [Atom.MatchesAt, atIndex]

/-- After a match of atoms a variable has the value that it had or else the one that it was met
with first. -/
theorem Picked.get?_of_unifyAt (picked : Picked store atoms combination)
    {bindings extended : Bindings}
    (unified : unifyAt store atoms (combination.map Pick.index) bindings = some extended)
    (name : String) :
    extended.get? name =
      (bindings.get? name <|> firstValue? (readings atoms combination) name) := by
  induction picked generalizing bindings with
  | nil =>
      cases unified
      simp [readings, firstValue?]
  | cons atIndex _ inductionHypothesis =>
      rw [List.map_cons, unifyAt, atIndex, Option.bind_some, Option.bind_eq_some_iff] at unified
      obtain ⟨middle, first, rest⟩ := unified
      rw [inductionHypothesis rest, (Atom.unify_eq_some_iff.1 first).2.get?_eq, readings_cons,
        firstValue?_append]
      simp [Option.or_assoc]

/-- Places within a box at which there are facts are those of a combination. -/
theorem exists_combination {spans : Nat → String → Span} {place : Nat} {places : List Nat}
    (inside : (boxFrom spans place atoms).Contains places)
    (within : List.Forall₂ (fun atom index => index < store.countOf atom.relation) atoms places) :
    ∃ combination, combination.map Pick.index = places ∧
      CombinesFrom store spans place atoms combination := by
  induction within generalizing place with
  | nil => exact ⟨[], rfl, .nil⟩
  | cons inBounds _ inductionHypothesis =>
      cases inside with
      | cons inSpan inRest =>
          obtain ⟨combination, rfl, combines⟩ := inductionHypothesis inRest
          exact ⟨⟨_, _⟩ :: combination, rfl,
            .cons ⟨inSpan, Array.getElem?_eq_getElem inBounds⟩ combines⟩

/-- A combination of stored facts is one of picks within the spans. -/
theorem Picked.of_combinesFrom {spans : Nat → String → Span} {place : Nat}
    (combines : CombinesFrom store spans place atoms combination) :
    Picked store atoms combination := by
  induction atoms generalizing place combination with
  | nil =>
      cases combines
      exact .nil
  | cons atom atoms inductionHypothesis =>
      cases combines with
      | cons first rest => exact .cons first.2 (inductionHypothesis rest)

/-- The places of picks within the spans are in the box. -/
theorem contains_boxFrom {spans : Nat → String → Span} {place : Nat}
    (combines : CombinesFrom store spans place atoms combination) :
    (boxFrom spans place atoms).Contains (combination.map Pick.index) := by
  rw [Box.Contains, boxFrom, List.forall₂_map_left_iff, List.forall₂_map_right_iff]
  exact combines.imp fun _ _ => And.left

/-- Places have one combination of facts. -/
theorem Picked.eq_of_map_index_eq {other : List Pick} (picked : Picked store atoms combination)
    (otherPicked : Picked store atoms other)
    (samePlaces : combination.map Pick.index = other.map Pick.index) : combination = other := by
  induction picked generalizing other with
  | nil =>
      cases otherPicked
      rfl
  | @cons _ pick _ _ atIndex _ inductionHypothesis =>
      cases otherPicked with
      | @cons _ otherPick _ _ otherAtIndex rest =>
          rw [List.map_cons, List.map_cons, List.cons.injEq] at samePlaces
          obtain ⟨sameIndex, samePlaces⟩ := samePlaces
          have sameFact : pick.fact = otherPick.fact := by
            rw [sameIndex, otherAtIndex, Option.some.injEq] at atIndex
            exact atIndex.symm
          rw [Pick.ext sameIndex sameFact, inductionHypothesis rest samePlaces]

/-- Some fact that a well-formed store lists matches an atom if some fact of its content does. -/
theorem FactStore.WellFormed.exists_matches_iff (wellFormed : store.WellFormed) {atom : Atom}
    {valuation : Valuation} :
    (∃ fact ∈ store.allFacts, atom.Matches valuation fact) ↔
      ∃ fact ∈ store.facts, atom.Matches valuation fact := by
  simp only [← wellFormed.exists_mem_allFacts_iff]
  constructor
  · rintro ⟨fact, listed, isMatch⟩
    exact ⟨fact, ⟨fact, listed, BEq.rfl⟩, isMatch⟩
  · rintro ⟨fact, ⟨stored, listed, equal⟩, isMatch⟩
    exact ⟨stored, listed, isMatch.congr (BEq.symm equal)⟩

end Stored

namespace Rule

variable {rule : Rule} {store : FactStore} {combination : List Pick}

/-- A safe rule derives something from the places of a combination if some valuation fits it. -/
theorem isSome_derive?_iff_fits (safe : rule.Safe) (wellFormed : store.WellFormed)
    (picked : Picked store rule.positive combination) :
    (rule.derive? store (combination.map Pick.index)).isSome = true ↔
      rule.Fits store combination := by
  rw [Option.isSome_iff_exists]
  simp only [Fits, ← picked.matchesAt_iff, wellFormed.exists_matches_iff]
  constructor
  · rintro ⟨derived, isDerived⟩
    obtain ⟨valuation, applies, _⟩ := exists_appliesAt_of_derive? safe isDerived
    exact ⟨valuation, applies.positive, applies.negative, applies.constraints⟩
  · rintro ⟨valuation, positive, negative, constraints⟩
    obtain ⟨derived, isDerived, _⟩ :=
      exists_derive?_of_appliesAt safe ⟨positive, negative, constraints⟩
    exact ⟨derived, isDerived⟩

/-- No combination fits a rule with a wildcard in a constraint. -/
theorem not_fits_of_wildcard {constraint : Constraint} (member : constraint ∈ rule.constraints)
    {name : String} (isWildcard : constraint.right = .wildcard name) :
    ¬ rule.Fits store combination := by
  rintro ⟨valuation, _, _, constraints⟩
  obtain ⟨right, isRight, _⟩ := constraints constraint member
  rw [isWildcard] at isRight
  cases isRight

/-- The head that a rule derives from a combination is written in the values that its variables
met first. -/
theorem isHead_of_derive? (picked : Picked store rule.positive combination) {derived : Fact}
    (isDerived : rule.derive? store (combination.map Pick.index) = some derived) :
    rule.IsHead combination derived := by
  obtain ⟨bindings, unified, ofHead, areResolved⟩ := exists_resolved_of_derive? isDerived
  refine ⟨ofHead, areResolved.imp fun term value isResolved => ?_⟩
  cases term with
  | constant expected => exact (Option.some.inj isResolved).symm
  | var name =>
      have isBound : bindings.get? name = some value := isResolved
      rw [picked.get?_of_unifyAt unified name] at isBound
      exact isBound

/-- The combinations from whose places a rule derives something. -/
structure Finds (rule : Rule) (store : FactStore) (spans : Nat → String → Span)
    (found : List (List Pick)) : Prop where
  combines : ∀ combination ∈ found, rule.Combines store spans combination
  /-- They stand in the order in which the box lists their places. -/
  map_index_eq : (found.map fun combination => combination.map Pick.index) =
    (combinations (rule.box spans)).filter fun places => (rule.derive? store places).isSome

/-- Wherever a rule derives something there is a combination of facts. -/
theorem exists_finds (rule : Rule) (store : FactStore) (spans : Nat → String → Span) :
    ∃ found, rule.Finds store spans found := by
  have picks : ∀ places ∈ (combinations (rule.box spans)).filter fun places =>
      (rule.derive? store places).isSome, ∃ combination : List Pick,
        rule.Combines store spans combination ∧ combination.map Pick.index = places := by
    intro places member
    obtain ⟨inBox, isSome⟩ := List.mem_filter.1 member
    obtain ⟨derived, isDerived⟩ := Option.isSome_iff_exists.1 isSome
    obtain ⟨combination, samePlaces, combines⟩ :=
      exists_combination (mem_combinations_iff.1 inBox) (within_of_derive? isDerived)
    exact ⟨combination, combines, samePlaces⟩
  obtain ⟨found, paired⟩ := exists_forall₂ picks
  refine ⟨found, fun combination member => ?_, ?_⟩
  · obtain ⟨places, _, combines, _⟩ := exists_mem_of_forall₂ paired.flip member
    exact combines
  · rw [← List.forall₂_eq_eq_eq, List.forall₂_map_left_iff]
    exact paired.flip.imp fun _ _ => And.right

namespace Finds

variable {spans : Nat → String → Span} {found : List (List Pick)}

/-- What is found consists of stored facts. -/
theorem picked (finds : rule.Finds store spans found) :
    ∀ combination ∈ found, Picked store rule.positive combination := fun combination member =>
  .of_combinesFrom (finds.combines combination member)

/-- A safe rule finds the combinations that some valuation fits. -/
theorem mem_iff (finds : rule.Finds store spans found) (safe : rule.Safe)
    (wellFormed : store.WellFormed) (combination : List Pick) :
    combination ∈ found ↔ rule.Combines store spans combination ∧ rule.Fits store combination := by
  have derives : combination.map Pick.index ∈ (found.map fun other => other.map Pick.index) ↔
      (rule.box spans).Contains (combination.map Pick.index) ∧
        (rule.derive? store (combination.map Pick.index)).isSome = true := by
    rw [finds.map_index_eq, List.mem_filter, mem_combinations_iff]
  constructor
  · intro member
    have isSome := (derives.1 (List.mem_map_of_mem member)).2
    exact ⟨finds.combines combination member,
      (isSome_derive?_iff_fits safe wellFormed (finds.picked combination member)).1 isSome⟩
  · rintro ⟨combines, fits⟩
    -- What is found at the places of this combination has the same facts there.
    have isPicked := Picked.of_combinesFrom combines
    have isSome := (isSome_derive?_iff_fits safe wellFormed isPicked).2 fits
    obtain ⟨other, member, samePlaces⟩ :=
      List.mem_map.1 (derives.2 ⟨contains_boxFrom combines, isSome⟩)
    exact (finds.picked other member).eq_of_map_index_eq isPicked samePlaces ▸ member

/-- The places of what is found are in lexicographic order. -/
theorem ascending (finds : rule.Finds store spans found) :
    (found.map fun combination => combination.map Pick.index).Pairwise (· < ·) := by
  rw [finds.map_index_eq]
  exact (pairwise_combinations _).filter _

/-- A join derives one head from each combination found. -/
theorem areHeads (finds : rule.Finds store spans found) :
    List.Forall₂ rule.IsHead found (rule.join store spans) := by
  have derived := forall₂_filterMap (rule.derive? store) (combinations (rule.box spans))
  rw [← finds.map_index_eq, List.forall₂_map_left_iff, ← join_eq] at derived
  refine ((List.forall₂_and_left _ _).2 ⟨finds.picked, derived⟩).imp fun combination head => ?_
  rintro ⟨isPicked, _, isDerived⟩
  exact isHead_of_derive? isPicked isDerived

end Finds

/-- A join of a safe rule is a nested loop over its positive atoms. -/
theorem exists_nestedLoop (checked : rule.unboundVariable? = none)
    (shapes : Std.TreeMap String Shape) (calls : List FactStore.Call)
    (spans : Nat → String → Span) :
    ∃ found, rule.NestedLoop ((FactStore.withShapes shapes).performAll calls) spans found
      (rule.join ((FactStore.withShapes shapes).performAll calls) spans) := by
  have wellFormed := FactStore.wellFormed_performAll shapes calls
  have safe := unboundVariable?_eq_none_iff.1 checked
  obtain ⟨found, finds⟩ := exists_finds rule _ spans
  have mem_found_iff := finds.mem_iff safe wellFormed
  refine ⟨found, mem_found_iff, ?_, finds.ascending, finds.areHeads⟩
  intro constraint member name isWildcard
  refine List.eq_nil_iff_forall_not_mem.2 fun combination isFound => ?_
  exact not_fits_of_wildcard member isWildcard ((mem_found_iff combination).1 isFound).2

/-- Two steps to a place that is not blocked and no smaller. -/
def twoSteps : Rule where
  head := ⟨"reached", .ordered [.var "X", .var "Z"]⟩
  positive := [⟨"step", .ordered [.var "X", .var "Y"]⟩, ⟨"step", .ordered [.var "Y", .var "Z"]⟩]
  negative := [⟨"blocked", .ordered [.var "Z", .wildcard "_"]⟩]
  constraints := [⟨"X", .lessOrEqual, .var "Z"⟩]

/-- Steps from `1` to `2`, from `2.0` to `3` and from `2` to `1.0`; `3.0` is blocked. -/
def someSteps : List FactStore.Call :=
  [.add ⟨"step", [.int 1, .int 2]⟩,
    .extend [⟨"step", [.float ⟨0x4000000000000000⟩, .int 3]⟩,
      ⟨"blocked", [.float ⟨0x4008000000000000⟩, .null]⟩],
    .add ⟨"step", [.int 2, .float ⟨0x3ff0000000000000⟩]⟩]

/-- Of the steps from `1` to `2` and on, and of those from `2` to `1.0` and on, the ones that
are not blocked reach `1.0` and `2`. -/
theorem nestedLoop_twoSteps :
    twoSteps.unboundVariable? = none ∧
      twoSteps.join ((FactStore.withShapes ∅).performAll someSteps) (fun _ _ => ⟨0, 3⟩) =
        [⟨"reached", [.int 1, .float ⟨0x3ff0000000000000⟩]⟩,
          ⟨"reached", [.int 2, .int 2]⟩] ∧
      ∃ found, twoSteps.NestedLoop ((FactStore.withShapes ∅).performAll someSteps)
        (fun _ _ => ⟨0, 3⟩) found
        (twoSteps.join ((FactStore.withShapes ∅).performAll someSteps) fun _ _ => ⟨0, 3⟩) := by
  have checked : twoSteps.unboundVariable? = none := by decide +kernel
  exact ⟨checked, by decide +kernel, exists_nestedLoop checked ∅ someSteps fun _ _ => ⟨0, 3⟩⟩

end Rule

end Datalog
