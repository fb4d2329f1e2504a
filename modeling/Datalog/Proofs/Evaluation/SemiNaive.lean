import Datalog.Proofs.Evaluation.Closure

/-!
# Semi-naive evaluation

`RefinesNaive` compares the loop of the evaluator with the one that joins all facts in every
pass. The boxes that a rule searches in the passes so far are disjoint and fill the whole
product of its relations, so each combination of facts is joined once; and pass by pass both
loops have the same content, add as many facts and close together. `semiNaive_refinesNaive`
proves this for every stratum that the evaluation of an accepted rule set reaches.
-/

namespace Datalog

/-- The boxes that a rule has searched in passes. -/
def Rule.searched (rule : Rule) (rules : List Rule) (passes : List Pass) : List Box :=
  passes.flatMap fun pass => rule.boxes pass.previous (pass.current rules)

/-- Two passes start with the same facts. -/
def Pass.SameContent (pass other : Pass) : Prop :=
  pass.store.facts = other.store.facts

/-- The loop of the evaluator over rules does, combination by combination and pass by pass,
what the naive loop does. -/
structure RefinesNaive (limits : Limits) (rules : List Rule) (start : FactStore) : Prop where
  /-- The evaluator closes the stratum in the pass that adds nothing. -/
  closeStratum_eq_ok_iff : ∀ number budget closed,
    limits.closeStratum number rules budget none start = .ok closed ↔
      ∃ pass earlier, Begins .semiNaive limits rules start (pass :: earlier) ∧
        earlier.length < budget ∧ pass.outcome limits rules = .ok (closed, 0)
  /-- A rule joins the combinations of its boxes. -/
  fire_eq : ∀ rule ∈ rules, ∀ pass : Pass,
    rule.fire pass.store pass.previous (pass.current rules) =
      ((rule.searched rules [pass]).flatMap combinations).filterMap (rule.derive? pass.store)
  /-- The boxes of all passes so far are disjoint. -/
  disjoint : ∀ passes, Begins .semiNaive limits rules start passes → ∀ rule ∈ rules,
    (rule.searched rules passes).Pairwise Box.Disjoint
  /-- The boxes of all passes so far hold the combinations of the facts at the start of the
  last pass. -/
  exists_searched_iff : ∀ pass earlier,
    Begins .semiNaive limits rules start (pass :: earlier) → ∀ rule ∈ rules, ∀ combination,
      (∃ box ∈ rule.searched rules (pass :: earlier), box.Contains combination) ↔
        List.Forall₂ (fun atom index => index < pass.store.countOf atom.relation)
          rule.positive combination
  /-- Each of these combinations has been joined once. -/
  count_eq_one : ∀ pass earlier,
    Begins .semiNaive limits rules start (pass :: earlier) → ∀ rule ∈ rules, ∀ combination,
      List.Forall₂ (fun atom index => index < pass.store.countOf atom.relation)
          rule.positive combination →
        ((rule.searched rules (pass :: earlier)).flatMap combinations).count combination = 1
  /-- The loops begin equally many passes. -/
  begins_iff : ∀ count,
    (∃ passes, Begins .semiNaive limits rules start passes ∧ passes.length = count) ↔
      ∃ passes, Begins .naive limits rules start passes ∧ passes.length = count
  /-- Their passes start with the same facts. -/
  same_content : ∀ passes others, Begins .semiNaive limits rules start passes →
    Begins .naive limits rules start others → passes.length = others.length →
      List.Forall₂ Pass.SameContent passes others
  /-- Their passes end with the same facts and add equally many. -/
  same_outcome : ∀ pass earlier other otherEarlier,
    Begins .semiNaive limits rules start (pass :: earlier) →
    Begins .naive limits rules start (other :: otherEarlier) →
    earlier.length = otherEarlier.length →
      Alike (fun left right => left.1.facts = right.1.facts ∧ left.2 = right.2)
        (pass.outcome limits rules) (other.outcome limits rules)
  /-- They close with the same facts, within the same number of passes. -/
  same_closing : ∀ number budget,
    Alike (fun left right => left.facts = right.facts)
      (limits.closeStratum number rules budget none start)
      (limits.closeNaively number rules budget start)

namespace Begins

variable {limits : Limits} {rules : List Rule} {start : FactStore}

section Search

variable {passes : List Pass}

/-- The passes so far have searched the combinations of the facts at the start of the last
one. -/
theorem exists_searched_iff (begun : Begins .semiNaive limits rules start passes)
    (wellFormed : start.WellFormed) (semipositive : Semipositive rules) {pass : Pass}
    {earlier : List Pass} (split : passes = pass :: earlier) {rule : Rule}
    (member : rule ∈ rules) {combination : List Nat} :
    (∃ box ∈ rule.searched rules (pass :: earlier), box.Contains combination) ↔
      rule.Within pass.store.countOf combination := by
  induction begun generalizing pass earlier with
  | first =>
      cases split
      have sound : Pass.Sound ⟨none, start⟩ rules start := Pass.sound_first wellFormed
      simpa [Rule.searched] using sound.exists_box_iff member
  | @next before earlier after added begun isOutcome isNew inductionHypothesis =>
      cases split
      have sound := (begun.next isOutcome isNew).latest_sound wellFormed semipositive
      have grown : ∀ atom ∈ rule.positive,
          before.store.countOf atom.relation ≤ after.countOf atom.relation := by
        obtain ⟨⟨rfl, _⟩, _⟩ := Pass.outcome_eq_ok_iff.1 isOutcome
        exact fun atom _ => (FactStore.grows_addMany _ _).countOf_le atom.relation
      let pass : Pass := ⟨some (before.current rules), after⟩
      have here : (∃ box ∈ rule.boxes pass.previous (pass.current rules),
          box.Contains combination) ↔
          rule.Within after.countOf combination ∧
            ¬ rule.Within before.store.countOf combination := by
        rw [← before.within_current_iff member]
        simpa [pass, Strategy.remember] using sound.exists_box_iff member
      have there := inductionHypothesis rfl
      rw [Rule.searched] at there
      rw [Rule.searched, List.flatMap_cons]
      simp only [List.mem_append, or_and_right, exists_or]
      rw [there]
      refine (or_congr_left here).trans ⟨?_, fun within => ?_⟩
      · rintro (isNew | isOld)
        · exact isNew.1
        · exact isOld.mono grown
      · exact (Classical.em _).symm.imp_left fun notOld => ⟨within, notOld⟩

/-- The passes so far have searched no combination twice. -/
theorem pairwise_searched (begun : Begins .semiNaive limits rules start passes)
    (wellFormed : start.WellFormed) (semipositive : Semipositive rules) {rule : Rule}
    (member : rule ∈ rules) : (rule.searched rules passes).Pairwise Box.Disjoint := by
  have own {pass : Pass} (sound : pass.Sound rules start) :
      (rule.boxes pass.previous (pass.current rules)).Pairwise Box.Disjoint := by
    refine Rule.pairwise_boxes pass.previous fun old isPrevious atom inBody => ?_
    rw [pass.countOf_current member atom inBody]
    exact sound.remembered_le old isPrevious rule member atom inBody
  induction begun with
  | first => simpa [Rule.searched] using own (Pass.sound_first wellFormed)
  | @next before earlier after added begun isOutcome isNew inductionHypothesis =>
      have sound := (begun.next isOutcome isNew).latest_sound wellFormed semipositive
      rw [Rule.searched, List.flatMap_cons, List.pairwise_append]
      refine ⟨own sound, inductionHypothesis, fun box isBox other isOther combination => ?_⟩
      -- The pass leaves out what it remembers, which is all that was searched before.
      intro inside inOther
      have notOld := ((sound.exists_box_iff member).1 ⟨box, isBox, inside⟩).2 _ rfl
      have isOld := (begun.exists_searched_iff wellFormed semipositive rfl member).1
        ⟨other, isOther, inOther⟩
      exact notOld ((before.within_current_iff member).2 isOld)

/-- The passes so far have joined each combination of facts once. -/
theorem count_searched (begun : Begins .semiNaive limits rules start passes)
    (wellFormed : start.WellFormed) (semipositive : Semipositive rules) {pass : Pass}
    {earlier : List Pass} (split : passes = pass :: earlier) {rule : Rule}
    (member : rule ∈ rules) {combination : List Nat}
    (within : rule.Within pass.store.countOf combination) :
    ((rule.searched rules passes).flatMap combinations).count combination = 1 := by
  have nodup : ((rule.searched rules passes).flatMap combinations).Nodup := by
    refine List.nodup_flatMap.2 ⟨fun box _ => nodup_combinations box, ?_⟩
    refine (begun.pairwise_searched wellFormed semipositive member).imp ?_
    intro box other disjoint combination inBox inOther
    exact disjoint combination (mem_combinations_iff.1 inBox) (mem_combinations_iff.1 inOther)
  refine List.count_eq_one_of_mem nodup ?_
  obtain ⟨box, isBox, inside⟩ :=
    (begun.exists_searched_iff wellFormed semipositive split member).2 within
  exact List.mem_flatMap.2 ⟨box, split ▸ isBox, mem_combinations_iff.2 inside⟩

end Search

section Comparison

variable {strategy other : Strategy} {passes others : List Pass}

/-- A loop under any strategy begins as many passes, with the same facts. -/
theorem exists_aligned (begun : Begins strategy limits rules start passes)
    (wellFormed : start.WellFormed) (semipositive : Semipositive rules) (other : Strategy) :
    ∃ others, Begins other limits rules start others ∧
      List.Forall₂ Pass.SameContent passes others := by
  induction begun with
  | first => exact ⟨[⟨none, start⟩], .first, .cons rfl .nil⟩
  | next begun isOutcome isNew inductionHypothesis =>
      obtain ⟨others, othersBegun, same⟩ := inductionHypothesis
      cases same with
      | @cons _ partner _ earlier sameContent sameEarlier =>
          have sound := begun.latest_sound wellFormed semipositive
          have partnerSound := othersBegun.latest_sound wellFormed semipositive
          obtain ⟨store, isPartnerOutcome, sameAfter⟩ :=
            sound.exists_outcome partnerSound semipositive sameContent isOutcome
          exact ⟨_, othersBegun.next isPartnerOutcome isNew,
            .cons sameAfter (.cons sameContent sameEarlier)⟩

/-- Passes of two loops that are counted alike start with the same facts. -/
theorem aligned (begun : Begins strategy limits rules start passes)
    (othersBegun : Begins other limits rules start others)
    (wellFormed : start.WellFormed) (semipositive : Semipositive rules)
    (sameLength : passes.length = others.length) :
    List.Forall₂ Pass.SameContent passes others := by
  induction begun generalizing others with
  | first =>
      cases othersBegun with
      | first => exact .cons rfl .nil
      | next => simp at sameLength
  | next begun isOutcome isNew inductionHypothesis =>
      cases othersBegun with
      | first => simp at sameLength
      | next partnerBegun isPartnerOutcome _ =>
          have same := inductionHypothesis partnerBegun (Nat.succ.inj sameLength)
          have sound := begun.latest_sound wellFormed semipositive
          have partnerSound := partnerBegun.latest_sound wellFormed semipositive
          obtain ⟨store, isSame, sameAfter⟩ := sound.exists_outcome partnerSound semipositive
            (List.forall₂_cons.1 same).1 isOutcome
          rw [isPartnerOutcome, Except.ok.injEq, Prod.mk.injEq] at isSame
          exact .cons (isSame.1 ▸ sameAfter) same

/-- A loop under any strategy closes within the same number of passes, with the same facts. -/
theorem exists_close (wellFormed : start.WellFormed) (semipositive : Semipositive rules)
    {number budget : Nat} {closed : FactStore}
    (isClosed : strategy.close limits number rules budget ⟨none, start⟩ = .ok closed)
    (other : Strategy) :
    ∃ otherClosed, other.close limits number rules budget ⟨none, start⟩ = .ok otherClosed ∧
      closed.facts = otherClosed.facts := by
  obtain ⟨pass, earlier, begun, inBudget, isOutcome⟩ := Strategy.close_eq_ok_iff.1 isClosed
  obtain ⟨others, othersBegun, same⟩ := begun.exists_aligned wellFormed semipositive other
  cases same with
  | @cons _ partner _ otherEarlier sameContent sameEarlier =>
      have sound := begun.latest_sound wellFormed semipositive
      have partnerSound := othersBegun.latest_sound wellFormed semipositive
      obtain ⟨otherClosed, isPartnerOutcome, sameClosed⟩ :=
        sound.exists_outcome partnerSound semipositive sameContent isOutcome
      refine ⟨otherClosed, Strategy.close_eq_ok_iff.2 ?_, sameClosed⟩
      exact ⟨partner, otherEarlier, othersBegun, sameEarlier.length_eq ▸ inBudget,
        isPartnerOutcome⟩

end Comparison

end Begins

/-- Semi-naive evaluation of semipositive rules refines naive evaluation. -/
theorem refinesNaive_of_semipositive {limits : Limits} {rules : List Rule} {start : FactStore}
    (wellFormed : start.WellFormed) (semipositive : Semipositive rules) :
    RefinesNaive limits rules start where
  closeStratum_eq_ok_iff number budget closed := by
    rw [← Strategy.close_semiNaive limits number rules budget ⟨none, start⟩,
      Strategy.close_eq_ok_iff]
  fire_eq rule _ pass := by
    rw [Rule.fire_eq, Rule.searched, List.flatMap_singleton]
  disjoint passes begun rule member := begun.pairwise_searched wellFormed semipositive member
  exists_searched_iff pass earlier begun rule member combination :=
    begun.exists_searched_iff wellFormed semipositive rfl member
  count_eq_one pass earlier begun rule member combination within :=
    begun.count_searched wellFormed semipositive rfl member within
  begins_iff count := by
    constructor
    · rintro ⟨passes, begun, rfl⟩
      obtain ⟨others, othersBegun, same⟩ := begun.exists_aligned wellFormed semipositive .naive
      exact ⟨others, othersBegun, same.length_eq.symm⟩
    · rintro ⟨passes, begun, rfl⟩
      obtain ⟨others, othersBegun, same⟩ :=
        begun.exists_aligned wellFormed semipositive .semiNaive
      exact ⟨others, othersBegun, same.length_eq.symm⟩
  same_content passes others begun othersBegun sameLength :=
    begun.aligned othersBegun wellFormed semipositive sameLength
  same_outcome pass earlier other otherEarlier begun otherBegun sameLength := by
    have same := begun.aligned otherBegun wellFormed semipositive (congrArg (· + 1) sameLength)
    have sameContent : pass.store.facts = other.store.facts := (List.forall₂_cons.1 same).1
    have sound := begun.latest_sound wellFormed semipositive
    have otherSound := otherBegun.latest_sound wellFormed semipositive
    apply Alike.of_forall
    · rintro ⟨store, added⟩ isOutcome
      obtain ⟨otherStore, isOtherOutcome, sameAfter⟩ :=
        sound.exists_outcome otherSound semipositive sameContent isOutcome
      exact ⟨(otherStore, added), isOtherOutcome, sameAfter, rfl⟩
    · rintro ⟨store, added⟩ isOutcome
      obtain ⟨otherStore, isOtherOutcome, _⟩ :=
        otherSound.exists_outcome sound semipositive sameContent.symm isOutcome
      exact ⟨(otherStore, added), isOtherOutcome⟩
  same_closing number budget := by
    rw [← Strategy.close_semiNaive limits number rules budget ⟨none, start⟩,
      ← Strategy.close_naive]
    apply Alike.of_forall
    · intro closed isClosed
      exact Begins.exists_close wellFormed semipositive isClosed .naive
    · intro closed isClosed
      obtain ⟨otherClosed, isOtherClosed, _⟩ :=
        Begins.exists_close wellFormed semipositive isClosed .semiNaive
      exact ⟨otherClosed, isOtherClosed⟩

/-- In every stratum that the evaluation of an accepted rule set reaches, semi-naive
evaluation of the rules that stand in it refines naive evaluation. -/
theorem semiNaive_refinesNaive {ruleSet : RuleSet} {limits : Limits}
    {stratification : Stratification} {place : Nat} {stratum : Stratum} {start : FactStore}
    (checked : ruleSet.check = .ok ()) (accepted : stratify ruleSet = .ok stratification)
    (atPlace : stratification.strata[place]? = some stratum)
    (reached : ruleSet.run limits ⟨stratification.strata.take place⟩ = .ok start) :
    (∀ rule, rule ∈ ruleSet.rulesOf stratum ↔ stratum.HasRule ruleSet.rules.toList rule) ∧
      RefinesNaive limits (ruleSet.rulesOf stratum) start := by
  have semipositive := RuleSet.semipositive_rulesOf checked accepted
  have wellFormed := (RuleSet.facts_eq_of_run
    (fun lower inStrata => semipositive lower (List.mem_of_mem_take inStrata)) reached).1
  exact ⟨fun _ => RuleSet.mem_rulesOf_iff,
    refinesNaive_of_semipositive wellFormed (semipositive stratum (List.mem_of_getElem? atPlace))⟩

/-- The mutual recursion of `parity` is evaluated as the naive loop would. -/
theorem refinesNaive_parity :
    parity.check = .ok () ∧ stratify parity = .ok parityStrata ∧
      ∃ start, parity.run .standard ⟨parityStrata.strata.take 0⟩ = .ok start ∧
        (∀ rule, rule ∈ parity.rulesOf ⟨[0, 1], ["odd", "even"], true⟩ ↔
          Stratum.HasRule ⟨[0, 1], ["odd", "even"], true⟩ parity.rules.toList rule) ∧
        RefinesNaive .standard (parity.rulesOf ⟨[0, 1], ["odd", "even"], true⟩) start := by
  have checked : parity.check = .ok () := by decide +kernel
  have accepted : stratify parity = .ok parityStrata := by decide +kernel
  have reaches : (parity.run .standard ⟨parityStrata.strata.take 0⟩).isOk = true := by
    decide +kernel
  refine ⟨checked, accepted, ?_⟩
  cases reached : parity.run .standard ⟨parityStrata.strata.take 0⟩ with
  | error exhaustion =>
      rw [reached] at reaches
      cases reaches
  | ok start =>
      have first : parityStrata.strata[0]? = some ⟨[0, 1], ["odd", "even"], true⟩ := rfl
      exact ⟨start, rfl, semiNaive_refinesNaive checked accepted first reached⟩

end Datalog
