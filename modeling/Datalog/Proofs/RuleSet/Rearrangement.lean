import Datalog.Proofs.Evaluation.OrderIndependence
import Datalog.Proofs.RuleSet.Acceptance

/-!
# The order of clauses

Clauses, the parts of a body and the fields of an atom can be written in any order. What they
state is rearranged with them (`Draft.ReadsClause.rearranged`), and what has been collected
from statements does not depend on their order (`Draft.Collects.beq`), so rearranged clauses
are accepted together and then make equal rule sets (`RuleSet.compileClauses_rearranged`).
-/

namespace Datalog

/-- One list is a rearrangement of another up to a relation between their elements. -/
def RearrangedBy {α : Type} (related : α → α → Prop) (left right : List α) : Prop :=
  ∃ middle, left.Perm middle ∧ List.Forall₂ related middle right

namespace RearrangedBy

variable {α β : Type} {related : α → α → Prop} {left right : List α}

/-- Rearrangements up to a relation without direction have none. -/
theorem symm (isSymm : ∀ ⦃first second⦄, related first second → related second first)
    (rearranged : RearrangedBy related left right) : RearrangedBy related right left := by
  obtain ⟨middle, perm, areRelated⟩ := rearranged
  obtain ⟨other, areOther, perm⟩ := List.perm_comp_forall₂ perm areRelated
  exact ⟨other, perm.symm, (areOther.imp fun _ _ isRelated => isSymm isRelated).flip⟩

/-- Every element has a counterpart in a rearrangement. -/
theorem exists_mem (rearranged : RearrangedBy related left right) {first : α}
    (member : first ∈ left) : ∃ second ∈ right, related first second := by
  obtain ⟨middle, perm, areRelated⟩ := rearranged
  exact exists_mem_of_forall₂ areRelated (perm.mem_iff.1 member)

/-- What a partial function finds is rearranged if it finds related things in related
elements. -/
theorem filterMap {alike : β → β → Prop} {function : α → Option β}
    (congr : ∀ ⦃first second⦄, related first second →
      Option.Rel alike (function first) (function second))
    (rearranged : RearrangedBy related left right) :
    RearrangedBy alike (left.filterMap function) (right.filterMap function) := by
  obtain ⟨middle, perm, areRelated⟩ := rearranged
  exact ⟨_, perm.filterMap function, List.rel_filterMap congr areRelated⟩

/-- What elements have, a rearrangement of them has in another order. -/
theorem exists_perm {reads : α → β → Prop}
    (transport : ∀ ⦃first second result⦄, related first second → reads first result →
      reads second result)
    (rearranged : RearrangedBy related left right) {results : List β}
    (areRead : List.Forall₂ reads left results) :
    ∃ others, List.Forall₂ reads right others ∧ results.Perm others := by
  obtain ⟨middle, perm, areRelated⟩ := rearranged
  obtain ⟨others, areOthers, permResults⟩ := List.perm_comp_forall₂ perm.symm areRead
  refine ⟨others, ?_, permResults.symm⟩
  clear perm permResults areRead
  induction areRelated generalizing others with
  | nil => exact areOthers
  | cons isRelated _ inductionHypothesis =>
      cases areOthers with
      | cons isRead rest => exact .cons (transport isRelated isRead) (inductionHypothesis _ rest)

end RearrangedBy

namespace Source

/-- Arguments in another order, which only fields can have. -/
inductive Args.Rearranged : Args → Args → Prop where
  | ordered (terms : List Term) : Rearranged (.ordered terms) (.ordered terms)
  | named {fields others : List (Token × Term)} (perm : fields.Perm others) :
      Rearranged (.named fields) (.named others)

/-- An atom with its fields in another order. -/
structure Atom.Rearranged (left right : Atom) : Prop where
  relation : left.relation = right.relation
  args : left.args.Rearranged right.args

/-- A part of a body with the fields of its atom in another order. -/
inductive Literal.Rearranged : Literal → Literal → Prop where
  | positive {left right : Atom} (atom : left.Rearranged right) :
      Rearranged (.positive left) (.positive right)
  | negated {left right : Atom} (atom : left.Rearranged right) :
      Rearranged (.negated left) (.negated right)
  | comparison (left : Term) (operator : Token) (right : Term) :
      Rearranged (.comparison left operator right) (.comparison left operator right)

/-- A clause with the parts of its body and the fields of its atoms in another order. -/
inductive Clause.Rearranged : Clause → Clause → Prop where
  | fact {left right : Atom} (head : left.Rearranged right) :
      Rearranged (.fact left) (.fact right)
  | rule {left right : Atom} {body others : List Literal} (head : left.Rearranged right)
      (parts : RearrangedBy Literal.Rearranged body others) :
      Rearranged (.rule left body) (.rule right others)

/-- The order of fields can be changed back. -/
theorem Args.Rearranged.symm {left right : Args} (rearranged : left.Rearranged right) :
    right.Rearranged left := by
  cases rearranged with
  | ordered terms => exact .ordered terms
  | named perm => exact .named perm.symm

/-- The order within an atom can be changed back. -/
theorem Atom.Rearranged.symm {left right : Atom} (rearranged : left.Rearranged right) :
    right.Rearranged left :=
  ⟨rearranged.relation.symm, rearranged.args.symm⟩

/-- The order within a part of a body can be changed back. -/
theorem Literal.Rearranged.symm ⦃left right : Literal⦄ (rearranged : left.Rearranged right) :
    right.Rearranged left := by
  cases rearranged with
  | positive atom => exact .positive atom.symm
  | negated atom => exact .negated atom.symm
  | comparison => exact .comparison ..

/-- The order within a clause can be changed back. -/
theorem Clause.Rearranged.symm ⦃left right : Clause⦄ (rearranged : left.Rearranged right) :
    right.Rearranged left := by
  cases rearranged with
  | fact head => exact .fact head.symm
  | rule head parts => exact .rule head.symm (parts.symm Literal.Rearranged.symm)

/-- Rearranged parts have rearranged positive atoms. -/
theorem Literal.Rearranged.rel_positive? ⦃left right : Literal⦄
    (rearranged : left.Rearranged right) :
    Option.Rel Atom.Rearranged left.positive? right.positive? := by
  cases rearranged with
  | positive atom => exact .some atom
  | negated => exact .none
  | comparison => exact .none

/-- Rearranged parts have rearranged negated atoms. -/
theorem Literal.Rearranged.rel_negated? ⦃left right : Literal⦄
    (rearranged : left.Rearranged right) :
    Option.Rel Atom.Rearranged left.negated? right.negated? := by
  cases rearranged with
  | positive => exact .none
  | negated atom => exact .some atom
  | comparison => exact .none

/-- Rearranged parts have the same comparison. -/
theorem Literal.Rearranged.rel_comparison? ⦃left right : Literal⦄
    (rearranged : left.Rearranged right) :
    Option.Rel Eq left.comparison? right.comparison? := by
  cases rearranged with
  | positive => exact .none
  | negated => exact .none
  | comparison => exact .some rfl

end Source

namespace Draft

section Transport

variable {τ : Type} {reads : Source.Term → τ → Prop}

/-- Atoms mean the same with their fields in another order. -/
theorem ReadsAtom.rearranged ⦃source other : Source.Atom⦄ ⦃atom : AtomOf τ⦄
    (rearranged : source.Rearranged other) (isRead : ReadsAtom reads source atom) :
    ReadsAtom reads other atom := by
  refine ⟨isRead.relation.trans (congrArg Source.Token.lexeme rearranged.relation), ?_⟩
  obtain ⟨_, sameArgs⟩ := rearranged
  obtain ⟨_, isArgs⟩ := isRead
  generalize source.args = args, other.args = otherArgs, atom.args = results
    at sameArgs isArgs ⊢
  cases sameArgs with
  | ordered terms => exact isArgs
  | named perm =>
      cases isArgs with
      | named areRead distinct =>
          obtain ⟨others, areOthers, permOthers⟩ := List.perm_comp_forall₂ perm.symm areRead
          rw [Record.ofList_eq_of_perm permOthers.symm distinct]
          exact .named areOthers (((permOthers.map Prod.fst).nodup_iff).2 distinct)

/-- Rearranged bodies mean rearranged parts. -/
theorem ReadsBody.rearranged {body others : List Source.Literal} {positive negative : List Atom}
    {constraints : List Constraint}
    (rearranged : RearrangedBy Source.Literal.Rearranged body others)
    (isRead : ReadsBody body positive negative constraints) :
    ∃ otherPositive otherNegative otherConstraints,
      ReadsBody others otherPositive otherNegative otherConstraints ∧
        positive.Perm otherPositive ∧ negative.Perm otherNegative ∧
        constraints.Perm otherConstraints := by
  obtain ⟨arePositive, areNegated, areConstraints⟩ := readsBody_iff.1 isRead
  obtain ⟨otherPositive, areOtherPositive, permPositive⟩ :=
    (rearranged.filterMap Source.Literal.Rearranged.rel_positive?).exists_perm
      ReadsAtom.rearranged arePositive
  obtain ⟨otherNegative, areOtherNegative, permNegative⟩ :=
    (rearranged.filterMap Source.Literal.Rearranged.rel_negated?).exists_perm
      ReadsAtom.rearranged areNegated
  obtain ⟨otherConstraints, areOtherConstraints, permConstraints⟩ :=
    (rearranged.filterMap Source.Literal.Rearranged.rel_comparison?).exists_perm
      (fun _ _ _ same isConstraint => same ▸ isConstraint) areConstraints
  exact ⟨otherPositive, otherNegative, otherConstraints,
    readsBody_iff.2 ⟨areOtherPositive, areOtherNegative, areOtherConstraints⟩,
    permPositive, permNegative, permConstraints⟩

/-- Rearranged clauses state the same. -/
theorem ReadsClause.rearranged {clause other : Source.Clause} {statement : Statement}
    (rearranged : clause.Rearranged other) (isRead : ReadsClause clause statement) :
    ∃ otherStatement, ReadsClause other otherStatement ∧ statement.Same otherStatement := by
  cases rearranged with
  | fact head =>
      cases isRead with
      | fact isAtom => exact ⟨_, .fact (isAtom.rearranged head), .fact rfl⟩
  | rule head parts =>
      cases isRead with
      | @rule _ _ rule isRule safe =>
          obtain ⟨positive, negative, constraints, isBody, permPositive, permNegative,
            permConstraints⟩ := isRule.body.rearranged parts
          have equal : (rule == ⟨rule.head, positive, negative, constraints⟩) = true := by
            rw [Rule.beq_iff, Rule.essence, Rule.essence,
              Multiset.coe_eq_coe.2 (permPositive.map canonical),
              Multiset.coe_eq_coe.2 (permNegative.map canonical),
              Multiset.coe_eq_coe.2 (permConstraints.map canonical)]
          exact ⟨.rule ⟨rule.head, positive, negative, constraints⟩,
            .rule ⟨isRule.head.rearranged head, isBody⟩ (Rule.safe_congr equal safe),
            .rule equal⟩

end Transport

section Collected

variable {clauses others : List Source.Clause} {statements otherStatements : List Statement}

/-- What is stated by clauses is also stated when they are rearranged. -/
theorem exists_same_of_rearranged
    (rearranged : RearrangedBy Source.Clause.Rearranged clauses others)
    (areRead : List.Forall₂ ReadsClause clauses statements)
    (areOthers : List.Forall₂ ReadsClause others otherStatements) :
    ∀ statement ∈ statements, ∃ other ∈ otherStatements, statement.Same other := by
  intro statement member
  obtain ⟨clause, inClauses, isRead⟩ := exists_mem_of_forall₂ areRead.flip member
  obtain ⟨otherClause, inOthers, isRearranged⟩ := rearranged.exists_mem inClauses
  obtain ⟨other, inOther, isOther⟩ := exists_mem_of_forall₂ areOthers inOthers
  obtain ⟨transported, isTransported, same⟩ := isRead.rearranged isRearranged
  exact ⟨other, inOther, same.trans (isTransported.same isOther)⟩

section SameStatements

variable (same : ∀ statement ∈ statements, ∃ other ∈ otherStatements, statement.Same other)
include same

/-- Equal statements use the same relations in the same shapes, wherever they stand. -/
theorem mem_usages_of_same {usage : String × Shape}
    (member : usage ∈ statements.flatMap Statement.usages) :
    usage ∈ otherStatements.flatMap Statement.usages := by
  obtain ⟨statement, inStatements, isUsed⟩ := List.mem_flatMap.1 member
  obtain ⟨other, inOthers, isSame⟩ := same statement inStatements
  exact List.mem_flatMap.2 ⟨other, inOthers, isSame.mem_usages isUsed⟩

/-- Equal statements state equal facts. -/
theorem mem_facts_of_same {image : Fact}
    (member : image ∈ (statements.filterMap Statement.fact?).map canonical) :
    image ∈ (otherStatements.filterMap Statement.fact?).map canonical := by
  rw [List.map_filterMap, List.mem_filterMap] at member ⊢
  obtain ⟨statement, inStatements, isImage⟩ := member
  obtain ⟨other, inOthers, isSame⟩ := same statement inStatements
  exact ⟨other, inOthers, isSame.map_canonical_fact?.symm.trans isImage⟩

variable {draft otherDraft : Draft}

/-- Drafts that have collected equal statements have equal rules. -/
theorem Collects.mem_map_essence (collects : draft.Collects statements)
    (otherCollects : otherDraft.Collects otherStatements)
    {essence : HeadAtom × Multiset Atom × Multiset Atom × Multiset Constraint}
    (member : essence ∈ draft.ruleSet.rules.toList.map Rule.essence) :
    essence ∈ otherDraft.ruleSet.rules.toList.map Rule.essence := by
  obtain ⟨rule, listed, rfl⟩ := List.mem_map.1 member
  obtain ⟨stated, isStated, equal⟩ :=
    (collects.rules_iff rule).1 ⟨rule, listed, Rule.beq_iff.2 rfl⟩
  obtain ⟨statement, inStatements, isRule⟩ := List.mem_filterMap.1 isStated
  obtain ⟨other, inOthers, isSame⟩ := same statement inStatements
  cases isSame with
  | fact => cases isRule
  | @rule left right sameRule =>
      obtain rfl := Option.some.inj isRule
      obtain ⟨found, isFound, isEqual⟩ := (otherCollects.rules_iff right).2
        ⟨right, List.mem_filterMap.2 ⟨_, inOthers, rfl⟩, Rule.beq_iff.2 rfl⟩
      refine List.mem_map.2 ⟨found, isFound, ?_⟩
      rw [Rule.beq_iff.1 isEqual, ← Rule.beq_iff.1 sameRule, Rule.beq_iff.1 equal]

end SameStatements

variable {draft otherDraft : Draft}

/-- Drafts that have collected equal statements have equal rule sets. -/
theorem Collects.beq (collects : draft.Collects statements)
    (otherCollects : otherDraft.Collects otherStatements)
    (forth : ∀ statement ∈ statements, ∃ other ∈ otherStatements, statement.Same other)
    (back : ∀ other ∈ otherStatements, ∃ statement ∈ statements, other.Same statement) :
    (draft.ruleSet == otherDraft.ruleSet) = true := by
  refine RuleSet.beq_iff.2 ⟨?_, ?_, ?_⟩
  · refine (List.perm_ext_iff_of_nodup (Fact.nodup_map_canonical _)
      (Fact.nodup_map_canonical _)).2 fun image => ?_
    rw [collects.facts_eq, otherCollects.facts_eq, Fact.mem_map_canonical_ofList,
      Fact.mem_map_canonical_ofList]
    exact ⟨mem_facts_of_same forth, mem_facts_of_same back⟩
  · refine (List.perm_ext_iff_of_nodup draft.ruleSet.nodup_map_essence
      otherDraft.ruleSet.nodup_map_essence).2 fun essence => ?_
    exact ⟨Collects.mem_map_essence forth collects otherCollects,
      Collects.mem_map_essence back otherCollects collects⟩
  · refine Std.TreeMap.equiv_iff_toList_eq.1 (.of_forall_constGet?_eq fun relation => ?_)
    refine Option.ext fun shape => ?_
    refine (collects.shapes_iff relation shape).trans
      (.trans ?_ (otherCollects.shapes_iff relation shape).symm)
    exact ⟨mem_usages_of_same forth, mem_usages_of_same back⟩

/-- Rearranged clauses have a draft as well, with an equal rule set. -/
theorem exists_ofClauses_rearranged
    (rearranged : RearrangedBy Source.Clause.Rearranged clauses others)
    (isOk : ofClauses clauses = .ok draft) :
    ∃ otherDraft, ofClauses others = .ok otherDraft ∧
      (draft.ruleSet == otherDraft.ruleSet) = true := by
  have back := rearranged.symm Source.Clause.Rearranged.symm
  obtain ⟨statements, areRead, agree⟩ := exists_ofClauses_iff.1 ⟨draft, isOk⟩
  obtain ⟨otherStatements, areOthers⟩ :
      ∃ otherStatements, List.Forall₂ ReadsClause others otherStatements := by
    refine exists_forall₂ fun other inOthers => ?_
    obtain ⟨clause, inClauses, isRearranged⟩ := back.exists_mem inOthers
    obtain ⟨statement, _, isRead⟩ := exists_mem_of_forall₂ areRead inClauses
    obtain ⟨otherStatement, isOther, _⟩ := isRead.rearranged isRearranged.symm
    exact ⟨otherStatement, isOther⟩
  have otherAgree : Agree (otherStatements.flatMap Statement.usages) := by
    have included {usage : String × Shape}
        (member : usage ∈ otherStatements.flatMap Statement.usages) :
        usage ∈ statements.flatMap Statement.usages :=
      mem_usages_of_same (exists_same_of_rearranged back areOthers areRead) member
    exact fun first isFirst second isSecond =>
      agree first (included isFirst) second (included isSecond)
  obtain ⟨otherDraft, isOtherOk⟩ := exists_ofClauses_iff.2 ⟨otherStatements, areOthers, otherAgree⟩
  obtain ⟨collected, areCollected, collects⟩ := exists_collects isOk
  obtain ⟨otherCollected, areOtherCollected, otherCollects⟩ := exists_collects isOtherOk
  exact ⟨otherDraft, isOtherOk, collects.beq otherCollects
    (exists_same_of_rearranged rearranged areCollected areOtherCollected)
    (exists_same_of_rearranged back areOtherCollected areCollected)⟩

end Collected

end Draft

namespace RuleSet

/-- Clauses in another order, with the parts of their bodies and the fields of their atoms in
another order, are compiled alike: either both are refused, or their rule sets are equal. -/
theorem compileClauses_rearranged {clauses others : List Source.Clause}
    (rearranged : RearrangedBy Source.Clause.Rearranged clauses others) (source : String) :
    Alike (fun left right => (left == right) = true) (compileClauses source clauses)
      (compileClauses source others) := by
  have forth {clauses others : List Source.Clause}
      (rearranged : RearrangedBy Source.Clause.Rearranged clauses others) {ruleSet : RuleSet}
      (isOk : compileClauses source clauses = .ok ruleSet) :
      ∃ other, compileClauses source others = .ok other ∧ (ruleSet == other) = true := by
    obtain ⟨draft, isDraft, rfl, stratification, accepted⟩ := compileClauses_eq_ok_iff.1 isOk
    obtain ⟨otherDraft, isOther, equal⟩ := Draft.exists_ofClauses_rearranged rearranged isDraft
    exact ⟨_, compileClauses_eq_ok_iff.2
      ⟨otherDraft, isOther, rfl, exists_stratify_congr equal accepted⟩, equal⟩
  refine Alike.of_forall (fun ruleSet isOk => forth rearranged isOk) fun other isOk => ?_
  obtain ⟨ruleSet, isRuleSet, _⟩ := forth (rearranged.symm Source.Clause.Rearranged.symm) isOk
  exact ⟨ruleSet, isRuleSet⟩

end RuleSet

/-- The clauses of `q(2). p(b: 2, a: 1). q(X) :- not p(a: X, b: X), p(b: _, a: X).` -/
def marked : List Source.Clause :=
  [.fact ⟨⟨"q", 0⟩, .ordered [.literal ⟨"2", 2⟩ (.int 2)]⟩,
    .fact ⟨⟨"p", 6⟩, .named [(⟨"b", 8⟩, .literal ⟨"2", 11⟩ (.int 2)),
      (⟨"a", 14⟩, .literal ⟨"1", 17⟩ (.int 1))]⟩,
    .rule ⟨⟨"q", 21⟩, .ordered [.identifier ⟨"X", 23⟩]⟩
      [.negated ⟨⟨"p", 33⟩, .named [(⟨"a", 35⟩, .identifier ⟨"X", 38⟩),
          (⟨"b", 41⟩, .identifier ⟨"X", 44⟩)]⟩,
        .positive ⟨⟨"p", 48⟩, .named [(⟨"b", 50⟩, .wildcard ⟨"_", 53⟩),
          (⟨"a", 56⟩, .identifier ⟨"X", 59⟩)]⟩]]

/-- `marked` the other way round: clauses, parts of the body and fields. -/
def markedReversed : List Source.Clause :=
  [.rule ⟨⟨"q", 21⟩, .ordered [.identifier ⟨"X", 23⟩]⟩
      [.positive ⟨⟨"p", 48⟩, .named [(⟨"a", 56⟩, .identifier ⟨"X", 59⟩),
          (⟨"b", 50⟩, .wildcard ⟨"_", 53⟩)]⟩,
        .negated ⟨⟨"p", 33⟩, .named [(⟨"b", 41⟩, .identifier ⟨"X", 44⟩),
          (⟨"a", 35⟩, .identifier ⟨"X", 38⟩)]⟩],
    .fact ⟨⟨"p", 6⟩, .named [(⟨"a", 14⟩, .literal ⟨"1", 17⟩ (.int 1)),
      (⟨"b", 8⟩, .literal ⟨"2", 11⟩ (.int 2))]⟩,
    .fact ⟨⟨"q", 0⟩, .ordered [.literal ⟨"2", 2⟩ (.int 2)]⟩]

/-- The reversed clauses are a rearrangement of those in the text. -/
theorem rearrangedBy_markedReversed :
    RearrangedBy Source.Clause.Rearranged marked markedReversed := by
  have reversed {left right : Source.Token × Source.Term} {relation : Source.Token} :
      Source.Atom.Rearranged ⟨relation, .named [left, right]⟩ ⟨relation, .named [right, left]⟩ :=
    ⟨rfl, .named (.swap _ _ _)⟩
  refine ⟨marked.reverse, (List.reverse_perm _).symm, ?_⟩
  refine .cons (.rule ⟨rfl, .ordered _⟩ ⟨_, .swap _ _ _, ?_⟩)
    (.cons (.fact reversed) (.cons (.fact ⟨rfl, .ordered _⟩) .nil))
  exact .cons (.positive reversed) (.cons (.negated reversed) .nil)

/-- Reversing the clauses of a text that is accepted makes an equal rule set. -/
theorem alike_markedReversed :
    let source := "q(2). p(b: 2, a: 1). q(X) :- not p(a: X, b: X), p(b: _, a: X)."
    Source.parse source = .ok marked ∧ (RuleSet.compileClauses source marked).isOk = true ∧
      RearrangedBy Source.Clause.Rearranged marked markedReversed ∧
      Alike (fun left right => (left == right) = true) (RuleSet.compileClauses source marked)
        (RuleSet.compileClauses source markedReversed) := by
  refine ⟨by decide +kernel, by decide +kernel, rearrangedBy_markedReversed, ?_⟩
  exact RuleSet.compileClauses_rearranged rearrangedBy_markedReversed _

end Datalog
