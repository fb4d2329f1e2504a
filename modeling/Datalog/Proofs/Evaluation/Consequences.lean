import Datalog.Proofs.Evaluation.Passes

/-!
# What a pass adds

`Pass.Sound` is the invariant of the loop over the rules of a stratum, whatever it remembers:
the store has only grown since the start, no relation that the rules negate has changed, and
every match among the remembered facts has been derived already. A pass therefore adds the
consequences of the facts at its start (`Pass.Sound.mem_after_iff`), and passes that start
with the same content end with the same content (`Pass.Sound.exists_outcome`).
-/

namespace Datalog

/-- Safe rules, none of which negates a relation that one of them defines. -/
structure Semipositive (rules : List Rule) : Prop where
  safe : ∀ rule ∈ rules, rule.Safe
  negative : ∀ rule ∈ rules, ∀ atom ∈ rule.negative, ∀ other ∈ rules,
    other.head.relation ≠ atom.relation

/-- More facts leave room for more combinations. -/
theorem Rule.Within.mono {rule : Rule} {countOf laterCountOf : String → Nat}
    {combination : List Nat} (within : rule.Within countOf combination)
    (grown : ∀ atom ∈ rule.positive, countOf atom.relation ≤ laterCountOf atom.relation) :
    rule.Within laterCountOf combination := by
  obtain ⟨sameLength, inBounds⟩ := forall₂_iff_getElem?.1 within
  refine forall₂_iff_getElem?.2 ⟨sameLength, fun place atom index atPlace isIndex => ?_⟩
  exact Nat.lt_of_lt_of_le (inBounds place atom index atPlace isIndex)
    (grown atom (List.mem_of_getElem? atPlace))

namespace Pass

variable {pass : Pass} {rules : List Rule} {start : FactStore}

/-- The store with the facts that a pass derives. -/
def after (pass : Pass) (rules : List Rule) : FactStore :=
  pass.store.addMany (pass.derived rules)

/-- The snapshot of a pass counts the facts that rules read. -/
theorem countOf_current (pass : Pass) {rule : Rule} (member : rule ∈ rules) :
    ∀ atom ∈ rule.positive,
      (pass.current rules).countOf atom.relation = pass.store.countOf atom.relation :=
  fun _ inBody => Snapshot.countOf_take member inBody pass.store

/-- The combinations of the snapshot of a pass are those of its store. -/
theorem within_current_iff (pass : Pass) {rule : Rule} (member : rule ∈ rules)
    {combination : List Nat} :
    rule.Within (pass.current rules).countOf combination ↔
      rule.Within pass.store.countOf combination := by
  have counts := pass.countOf_current member
  exact ⟨fun within => within.mono fun atom inBody => (counts atom inBody).le,
    fun within => within.mono fun atom inBody => (counts atom inBody).ge⟩

/-- A pass derives what its rules derive from the combinations of their boxes. -/
theorem mem_derived_iff {fact : Fact} :
    fact ∈ pass.derived rules ↔ ∃ rule ∈ rules,
      ∃ box ∈ rule.boxes pass.previous (pass.current rules),
        ∃ combination, box.Contains combination ∧
          rule.derive? pass.store combination = some fact := by
  simp only [derived, Rule.fire_eq, List.mem_flatMap, List.mem_filterMap, mem_combinations_iff]
  refine exists_congr fun rule => and_congr_right fun _ => ?_
  constructor
  · rintro ⟨combination, ⟨box, isBox, inside⟩, isDerived⟩
    exact ⟨box, isBox, combination, inside, isDerived⟩
  · rintro ⟨box, isBox, combination, inside, isDerived⟩
    exact ⟨combination, ⟨box, isBox, inside⟩, isDerived⟩

/-- What a pass derives is defined by its rules. -/
theorem exists_head_of_mem_derived {fact : Fact} (isDerived : fact ∈ pass.derived rules) :
    ∃ rule ∈ rules, rule.head.relation = fact.relation := by
  obtain ⟨rule, member, _, _, combination, _, isDerived⟩ := mem_derived_iff.1 isDerived
  exact ⟨rule, member, (Rule.relation_of_derive? isDerived).symm⟩

/-- The outcome of a pass, if there is room, is the store after it and its growth. -/
theorem outcome_eq_ok_iff {limits : Limits} {store : FactStore} {added : Nat} :
    pass.outcome limits rules = .ok (store, added) ↔
      (store = pass.after rules ∧ added = (pass.after rules).size - pass.store.size) ∧
        ((pass.after rules).size ≤ limits.maxFacts ∨
          (pass.after rules).size = pass.store.size) := by
  rw [outcome, Limits.addFacts_eq_ok_iff, Nat.zero_add]
  constructor
  · rintro ⟨⟨rfl, isAdded⟩, fits⟩
    exact ⟨⟨rfl, isAdded⟩, fits⟩
  · rintro ⟨⟨rfl, isAdded⟩, fits⟩
    exact ⟨⟨rfl, isAdded⟩, fits⟩

/-- The start of a pass that continues the work since a given store. -/
structure Sound (pass : Pass) (rules : List Rule) (start : FactStore) : Prop where
  grows : start.Grows pass.store
  wellFormed : pass.store.WellFormed
  /-- No negated relation has changed. -/
  unchanged : ∀ rule ∈ rules, ∀ atom ∈ rule.negative,
    pass.store.setOf atom.relation = start.setOf atom.relation
  /-- Remembered facts are still there. -/
  remembered_le : ∀ old, pass.previous = some old → ∀ rule ∈ rules, ∀ atom ∈ rule.positive,
    old.countOf atom.relation ≤ pass.store.countOf atom.relation
  /-- What the remembered facts derive is stored. -/
  remembered_mem : ∀ old, pass.previous = some old → ∀ rule ∈ rules, ∀ combination,
    rule.Within old.countOf combination → ∀ fact,
      rule.derive? pass.store combination = some fact → fact ∈ pass.store.facts

/-- A loop starts soundly. -/
theorem sound_first (wellFormed : start.WellFormed) : Sound ⟨none, start⟩ rules start where
  grows := .refl start
  wellFormed := wellFormed
  unchanged _ _ _ _ := rfl
  remembered_le _ impossible := by cases impossible
  remembered_mem _ impossible := by cases impossible

namespace Sound

/-- A pass searches the combinations that it does not remember. -/
theorem exists_box_iff (sound : pass.Sound rules start) {rule : Rule} (member : rule ∈ rules)
    {combination : List Nat} :
    (∃ box ∈ rule.boxes pass.previous (pass.current rules), box.Contains combination) ↔
      rule.Within pass.store.countOf combination ∧
        ∀ old, pass.previous = some old → ¬ rule.Within old.countOf combination := by
  cases isPrevious : pass.previous with
  | none => simp [Rule.exists_box_first_iff, pass.within_current_iff member]
  | some old =>
      rw [Rule.exists_box_iff, pass.within_current_iff member]
      · simp
      · intro atom inBody
        rw [pass.countOf_current member atom inBody]
        exact sound.remembered_le old isPrevious rule member atom inBody

/-- Everything that the facts at the start of a pass derive is stored after it. -/
theorem mem_after (sound : pass.Sound rules start) {rule : Rule} (member : rule ∈ rules)
    {combination : List Nat} {fact : Fact}
    (isDerived : rule.derive? pass.store combination = some fact) :
    fact ∈ (pass.after rules).facts := by
  by_cases isOld : ∃ old, pass.previous = some old ∧ rule.Within old.countOf combination
  · obtain ⟨old, isPrevious, within⟩ := isOld
    exact FactStore.mem_facts_addMany.2
      (.inl (sound.remembered_mem old isPrevious rule member combination within fact isDerived))
  · obtain ⟨box, isBox, inside⟩ := (sound.exists_box_iff member).2
      ⟨Rule.within_of_derive? isDerived, fun old isPrevious within =>
        isOld ⟨old, isPrevious, within⟩⟩
    have inDerived : fact ∈ pass.derived rules :=
      mem_derived_iff.2 ⟨rule, member, box, isBox, combination, inside, isDerived⟩
    exact FactStore.mem_facts_addMany.2 (.inr ⟨fact, inDerived, BEq.rfl⟩)

/-- A pass adds the consequences of the facts at its start. -/
theorem mem_after_iff (sound : pass.Sound rules start) (semipositive : Semipositive rules)
    {fact : Fact} :
    fact ∈ (pass.after rules).facts ↔
      fact ∈ pass.store.facts ∨ fact ∈ consequences rules pass.store.facts pass.store.facts := by
  constructor
  · intro inAfter
    refine (FactStore.mem_facts_addMany.1 inAfter).imp_right ?_
    rintro ⟨derived, inDerived, equal⟩
    obtain ⟨rule, member, _, _, combination, _, isDerived⟩ := mem_derived_iff.1 inDerived
    exact ⟨rule, member, (Rule.exists_derive?_iff (semipositive.safe rule member)).1
      ⟨combination, derived, isDerived, equal⟩⟩
  · rintro (old | ⟨rule, member, applies⟩)
    · exact FactStore.mem_facts_addMany.2 (.inl old)
    · obtain ⟨combination, derived, isDerived, equal⟩ :=
        (Rule.exists_derive?_iff (semipositive.safe rule member)).2 applies
      exact FactStore.mem_facts_congr equal (sound.mem_after member isDerived)

/-- A pass leaves negated relations alone. -/
theorem setOf_after (semipositive : Semipositive rules) {rule : Rule} (member : rule ∈ rules)
    {atom : Atom} (inBody : atom ∈ rule.negative) :
    (pass.after rules).setOf atom.relation = pass.store.setOf atom.relation := by
  apply FactStore.setOf_addMany
  intro fact isDerived
  obtain ⟨other, isRule, isHead⟩ := exists_head_of_mem_derived isDerived
  exact isHead ▸ semipositive.negative rule member atom inBody other isRule

/-- What a sound pass leaves behind is the start of a sound pass. -/
theorem next (sound : pass.Sound rules start) (semipositive : Semipositive rules)
    (strategy : Strategy) :
    Sound ⟨strategy.remember (pass.current rules), pass.after rules⟩ rules start := by
  have grows : pass.store.Grows (pass.after rules) := FactStore.grows_addMany _ _
  have remembers (old : Snapshot) (isPrevious : strategy.remember (pass.current rules) = some old) :
      old = pass.current rules := by
    cases strategy with
    | semiNaive => exact (Option.some.inj isPrevious).symm
    | naive => cases isPrevious
  constructor
  · exact sound.grows.trans grows
  · exact sound.wellFormed.addMany _
  · intro rule member atom inBody
    rw [setOf_after semipositive member inBody]
    exact sound.unchanged rule member atom inBody
  · intro old isPrevious rule member atom inBody
    rw [remembers old isPrevious, pass.countOf_current member atom inBody]
    exact grows.countOf_le atom.relation
  · intro old isPrevious rule member combination within fact isDerived
    rw [remembers old isPrevious, pass.within_current_iff member] at within
    rw [Rule.derive?_of_grows grows (fun atom => setOf_after semipositive member) within]
      at isDerived
    exact sound.mem_after member isDerived

/-- Sound passes with the same content at their start have outcomes with the same content. -/
theorem exists_outcome {other : Pass} {otherStart : FactStore}
    (sound : pass.Sound rules start) (otherSound : other.Sound rules otherStart)
    (semipositive : Semipositive rules) (same : pass.store.facts = other.store.facts)
    {limits : Limits} {store : FactStore} {added : Nat}
    (isOutcome : pass.outcome limits rules = .ok (store, added)) :
    ∃ otherStore, other.outcome limits rules = .ok (otherStore, added) ∧
      store.facts = otherStore.facts := by
  obtain ⟨⟨rfl, rfl⟩, fits⟩ := outcome_eq_ok_iff.1 isOutcome
  have sameAfter : (pass.after rules).facts = (other.after rules).facts := by
    ext fact
    rw [sound.mem_after_iff semipositive, otherSound.mem_after_iff semipositive, same]
  have size := sound.wellFormed.size_eq otherSound.wellFormed same
  have sizeAfter := (sound.wellFormed.addMany _).size_eq (otherSound.wellFormed.addMany _)
    sameAfter
  change (pass.after rules).size = (other.after rules).size at sizeAfter
  refine ⟨other.after rules, outcome_eq_ok_iff.2 ⟨⟨rfl, ?_⟩, ?_⟩, sameAfter⟩
  · rw [size, sizeAfter]
  · rw [← size, ← sizeAfter]
    exact fits

end Sound

end Pass

/-- Every pass that a loop begins is sound. -/
theorem Begins.sound {strategy : Strategy} {limits : Limits} {rules : List Rule}
    {start : FactStore} {passes : List Pass}
    (begun : Begins strategy limits rules start passes) (wellFormed : start.WellFormed)
    (semipositive : Semipositive rules) : ∀ pass ∈ passes, pass.Sound rules start := by
  induction begun with
  | first => simpa using Pass.sound_first wellFormed
  | next begun isOutcome isNew inductionHypothesis =>
      refine List.forall_mem_cons.2 ⟨?_, inductionHypothesis⟩
      obtain ⟨⟨rfl, _⟩, _⟩ := Pass.outcome_eq_ok_iff.1 isOutcome
      exact (inductionHypothesis _ List.mem_cons_self).next semipositive strategy

/-- The latest pass that a loop has begun is sound. -/
theorem Begins.latest_sound {strategy : Strategy} {limits : Limits} {rules : List Rule}
    {start : FactStore} {pass : Pass} {earlier : List Pass}
    (begun : Begins strategy limits rules start (pass :: earlier))
    (wellFormed : start.WellFormed) (semipositive : Semipositive rules) :
    pass.Sound rules start :=
  begun.sound wellFormed semipositive pass List.mem_cons_self

end Datalog
