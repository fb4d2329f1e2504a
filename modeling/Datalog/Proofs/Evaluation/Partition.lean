import Mathlib.Data.Nat.Find
import Datalog.Evaluation.Passes
import Datalog.Proofs.Evaluation.Join

/-!
# The partition of a pass

`Rule.boxes` lists the boxes that a rule searches in a pass. In the first pass there is one,
with all combinations of the facts present. Later there is one for each place among the
positive atoms at which facts were added, and together they hold the combinations that use a
new fact, each in the box of the first place that has one: `Rule.exists_box_iff` says which
combinations are searched and `Rule.pairwise_boxes` that none is searched twice.
-/

namespace Datalog

/-- No combination is in both boxes. -/
def Box.Disjoint (first second : Box) : Prop :=
  ∀ combination, first.Contains combination → ¬ second.Contains combination

namespace Snapshot

/-- Writing the values of a function at some keys changes a map at these keys. -/
theorem getD_foldl_insert (values : String → Nat) (atoms : List Atom)
    (counts : Std.TreeMap String Nat) (relation : String) :
    (atoms.foldl (fun counts atom => counts.insert atom.relation (values atom.relation))
        counts).getD relation 0 =
      if ∃ atom ∈ atoms, atom.relation = relation then values relation
      else counts.getD relation 0 := by
  induction atoms generalizing counts with
  | nil => simp
  | cons atom atoms inductionHypothesis =>
      rw [List.foldl_cons, inductionHypothesis, Std.TreeMap.getD_insert]
      simp only [List.exists_mem_cons_iff, Std.LawfulEqCmp.compare_eq_iff_eq]
      by_cases later : ∃ atom ∈ atoms, atom.relation = relation
      · simp [later]
      · by_cases same : atom.relation = relation
        · simp [later, same]
        · simp [later, same]

/-- A snapshot has the counts of the relations that the rules read. -/
theorem countOf_take {rules : List Rule} {rule : Rule} (member : rule ∈ rules) {atom : Atom}
    (inBody : atom ∈ rule.positive) (store : FactStore) :
    (take rules store).countOf atom.relation = store.countOf atom.relation := by
  rw [countOf, take, getD_foldl_insert, if_pos]
  exact ⟨atom, List.mem_flatMap.2 ⟨rule, member, inBody⟩, rfl⟩

end Snapshot

/-- The span of a place up to the newest one holds old facts, that of the newest one new facts,
and that of a later one all facts. -/
theorem contains_deltaSpans_iff {previous current : Snapshot} {newest place index : Nat}
    {relation : String} (grown : previous.countOf relation ≤ current.countOf relation) :
    (deltaSpans previous current newest place relation).Contains index ↔
      (place < newest → index < previous.countOf relation) ∧
        (place = newest → previous.countOf relation ≤ index) ∧
        index < current.countOf relation := by
  simp only [deltaSpans, Span.Contains, Snapshot.everything, Nat.min_eq_left grown]
  rcases Nat.lt_trichotomy place newest with before | rfl | after
  · simp only [Nat.compare_eq_lt.2 before, before, before.ne, forall_const, false_implies,
      true_and]
    omega
  · simp only [Nat.compare_eq_eq.2, Nat.lt_irrefl, forall_const, false_implies, true_and]
  · simp only [Nat.compare_eq_gt.2 after, after.not_gt, after.ne', false_implies, true_and,
      Nat.zero_le]

namespace Rule

variable {rule : Rule} {previous current : Snapshot} {combination : List Nat}

/-- The boxes that a rule searches in a pass, in order. -/
def boxes (rule : Rule) (previous : Option Snapshot) (current : Snapshot) : List Box :=
  match previous with
  | none => [rule.box fun _ relation => current.everything relation]
  | some previous =>
      rule.positive.zipIdx.filterMap fun (atom, newest) =>
        if previous.countOf atom.relation < current.countOf atom.relation then
          some (rule.box (deltaSpans previous current newest))
        else none

/-- A rule derives in a pass what it derives from the combinations of its boxes. -/
theorem fire_eq (rule : Rule) (store : FactStore) (previous : Option Snapshot)
    (current : Snapshot) :
    rule.fire store previous current =
      ((rule.boxes previous current).flatMap combinations).filterMap (rule.derive? store) := by
  cases previous with
  | none => simp [fire, boxes, join_eq]
  | some previous =>
      simp only [fire, boxes, List.filterMap_eq_flatMap_toList, List.flatMap_assoc, join_eq]
      refine congrArg (List.flatMap · _) (funext fun entry => ?_)
      split
      next => simp
      next => simp

/-- A box contains a combination if each place is in the span for it. -/
theorem contains_box_iff {spans : Nat → String → Span} :
    (rule.box spans).Contains combination ↔ rule.positive.length = combination.length ∧
      ∀ (place : Nat) atom index, rule.positive[place]? = some atom →
        combination[place]? = some index → (spans place atom.relation).Contains index := by
  rw [box, boxFrom, Box.Contains, forall₂_iff_getElem?, List.length_map, List.length_zipIdx]
  refine and_congr_right fun _ => forall_congr' fun place => ?_
  simp only [List.getElem?_map, List.getElem?_zipIdx, Option.map_map, Option.map_eq_some_iff,
    Function.comp_apply, Nat.zero_add]
  constructor
  · intro inside atom index atPlace
    exact inside _ index ⟨atom, atPlace, rfl⟩
  · rintro inside _ index ⟨atom, atPlace, rfl⟩
    exact inside atom index atPlace

/-- A combination that does not stay below some counts has a first place that does not. -/
theorem exists_newest {countOf : String → Nat}
    (sameLength : rule.positive.length = combination.length)
    (notOld : ¬ rule.Within countOf combination) :
    ∃ (newest : Nat) (atom : Atom) (index : Nat), rule.positive[newest]? = some atom ∧
      combination[newest]? = some index ∧ countOf atom.relation ≤ index ∧
      ∀ place < newest, ∀ (other : Atom) found, rule.positive[place]? = some other →
        combination[place]? = some found → found < countOf other.relation := by
  let IsNew (place : Nat) : Prop := ∃ atom index, rule.positive[place]? = some atom ∧
    combination[place]? = some index ∧ countOf atom.relation ≤ index
  have someNew : ∃ place, IsNew place := by
    by_contra noneNew
    apply notOld
    refine forall₂_iff_getElem?.2 ⟨sameLength, fun place atom index atPlace isIndex => ?_⟩
    by_contra notBelow
    exact noneNew ⟨place, atom, index, atPlace, isIndex, Nat.not_lt.1 notBelow⟩
  classical
  obtain ⟨atom, index, atNewest, isIndex, isNew⟩ := Nat.find_spec someNew
  refine ⟨Nat.find someNew, atom, index, atNewest, isIndex, isNew, ?_⟩
  intro place before other found atPlace isFound
  by_contra notBelow
  exact Nat.find_min someNew before ⟨other, found, atPlace, isFound, Nat.not_lt.1 notBelow⟩

/-- After the first pass, a rule searches the combinations that use a new fact. -/
theorem exists_box_iff
    (grown : ∀ atom ∈ rule.positive,
      previous.countOf atom.relation ≤ current.countOf atom.relation) :
    (∃ box ∈ rule.boxes (some previous) current, box.Contains combination) ↔
      rule.Within current.countOf combination ∧ ¬ rule.Within previous.countOf combination := by
  simp only [boxes, List.mem_filterMap, Option.ite_none_right_eq_some, Option.some.injEq,
    Prod.exists, List.mk_mem_zipIdx_iff_getElem?]
  constructor
  · rintro ⟨_, ⟨atom, newest, atNewest, _, rfl⟩, inside⟩
    obtain ⟨sameLength, inSpans⟩ := contains_box_iff.1 inside
    constructor
    · refine forall₂_iff_getElem?.2 ⟨sameLength, fun place other index atPlace isIndex => ?_⟩
      exact ((contains_deltaSpans_iff (grown other (List.mem_of_getElem? atPlace))).1
        (inSpans place other index atPlace isIndex)).2.2
    · intro isOld
      have inBounds := (List.getElem?_eq_some_iff.1 atNewest).1
      have isIndex := List.getElem?_eq_getElem (sameLength ▸ inBounds)
      have old := (forall₂_iff_getElem?.1 isOld).2 newest atom _ atNewest isIndex
      have new := ((contains_deltaSpans_iff (grown atom (List.mem_of_getElem? atNewest))).1
        (inSpans newest atom _ atNewest isIndex)).2.1 rfl
      omega
  · rintro ⟨isCurrent, notOld⟩
    obtain ⟨sameLength, inBounds⟩ := forall₂_iff_getElem?.1 isCurrent
    -- The box is that of the first place that does not hold an old fact.
    obtain ⟨newest, atom, index, atNewest, isIndex, isNew, isFirst⟩ :=
      exists_newest sameLength notOld
    have below := inBounds newest atom index atNewest isIndex
    refine ⟨_, ⟨atom, newest, atNewest, by omega, rfl⟩, ?_⟩
    refine contains_box_iff.2 ⟨sameLength, fun place other found atPlace isFound => ?_⟩
    refine (contains_deltaSpans_iff (grown other (List.mem_of_getElem? atPlace))).2
      ⟨fun before => ?_, fun same => ?_, inBounds place other found atPlace isFound⟩
    · exact isFirst place before other found atPlace isFound
    · subst same
      rw [atPlace, Option.some.injEq] at atNewest
      rw [isFound, Option.some.injEq] at isIndex
      subst atNewest isIndex
      exact isNew

/-- In the first pass, a rule searches all combinations of the facts present. -/
theorem exists_box_first_iff :
    (∃ box ∈ rule.boxes none current, box.Contains combination) ↔
      rule.Within current.countOf combination := by
  simp only [boxes, List.mem_singleton, exists_eq_left, contains_box_iff, Within,
    forall₂_iff_getElem?, Snapshot.everything, Span.Contains, Nat.zero_le, true_and]

/-- A rule searches no combination twice in a pass. -/
theorem pairwise_boxes (previous : Option Snapshot)
    (grown : ∀ old, previous = some old → ∀ atom ∈ rule.positive,
      old.countOf atom.relation ≤ current.countOf atom.relation) :
    (rule.boxes previous current).Pairwise Box.Disjoint := by
  cases previous with
  | none => exact List.pairwise_singleton ..
  | some previous =>
      have ordered : rule.positive.zipIdx.Pairwise fun first second => first.2 < second.2 := by
        rw [← List.pairwise_map, List.zipIdx_map_snd]
        exact List.pairwise_lt_range'
      refine List.pairwise_filterMap.2 (ordered.imp_of_mem ?_)
      rintro ⟨first, earlier⟩ ⟨second, later⟩ inFirst inSecond less box isBox other isOther
      simp only [Option.ite_none_right_eq_some, Option.some.injEq] at isBox isOther
      obtain ⟨_, rfl⟩ := isBox
      obtain ⟨_, rfl⟩ := isOther
      intro combination inBox inOther
      obtain ⟨sameLength, inSpans⟩ := contains_box_iff.1 inBox
      have atEarlier := List.mk_mem_zipIdx_iff_getElem?.1 inFirst
      have inBounds := (List.getElem?_eq_some_iff.1 atEarlier).1
      have isIndex := List.getElem?_eq_getElem (sameLength ▸ inBounds)
      have grown := grown previous rfl first (List.mem_of_getElem? atEarlier)
      -- At the earlier place one box reads new facts and the other one old facts.
      have new := ((contains_deltaSpans_iff grown).1
        (inSpans earlier first _ atEarlier isIndex)).2.1 rfl
      have old := ((contains_deltaSpans_iff grown).1
        ((contains_box_iff.1 inOther).2 earlier first _ atEarlier isIndex)).1 less
      omega

end Rule

end Datalog
