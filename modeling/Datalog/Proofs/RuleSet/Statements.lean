import Datalog.Proofs.FactStore.Insertion
import Datalog.Proofs.RuleSet.Draft

/-!
# What clauses state

A clause states a fact or a rule. What it states is settled up to the numbers of anonymous
wildcards (`Draft.ReadsClause.same`), and a draft has collected exactly what its clauses
state: the facts in their order, the rules up to equality, and the shapes in which relations
are used (`Draft.exists_collects`).
-/

namespace Datalog

/-- What a clause states: a fact, as an atom of values, or a rule. -/
inductive Statement where
  | fact (atom : AtomOf Value)
  | rule (rule : Rule)

namespace Statement

/-- The fact that is stated, if it is one. -/
def fact? : Statement → Option Fact
  | .fact atom => some ⟨atom.relation, atom.terms⟩
  | .rule _ => none

/-- The rule that is stated, if it is one. -/
def rule? : Statement → Option Rule
  | .fact _ => none
  | .rule stated => some stated

/-- The relations that a statement uses, each with its shape. -/
def usages : Statement → List (String × Shape)
  | .fact atom => [(atom.relation, atom.shape)]
  | .rule stated => stated.usages

/-- Statements that are equal up to representation. -/
inductive Same : Statement → Statement → Prop where
  | fact {left right : AtomOf Value} (equal : canonical left = canonical right) :
      Same (.fact left) (.fact right)
  | rule {left right : Rule} (equal : (left == right) = true) : Same (.rule left) (.rule right)

/-- Equal statements use the same relations in the same shapes. -/
theorem Same.mem_usages {left right : Statement} (same : left.Same right)
    {usage : String × Shape} (member : usage ∈ left.usages) : usage ∈ right.usages := by
  cases same with
  | fact equal =>
      rw [List.mem_singleton.1 member, AtomOf.relation_congr equal, AtomOf.shape_congr equal]
      exact List.mem_singleton_self _
  | rule equal => exact Rule.mem_usages_congr equal member

/-- Equal statements state equal facts, or none. -/
theorem Same.map_canonical_fact? {left right : Statement} (same : left.Same right) :
    left.fact?.map canonical = right.fact?.map canonical := by
  cases same with
  | fact equal =>
      exact congrArg some
        (congrArg₂ Fact.mk (AtomOf.relation_congr equal) (AtomOf.terms_congr equal))
  | rule => rfl

/-- Equality of statements has no direction. -/
theorem Same.symm {left right : Statement} (same : left.Same right) : right.Same left := by
  cases same with
  | fact equal => exact .fact equal.symm
  | rule equal => exact .rule (Rule.beq_symm equal)

/-- Statements that are equal to one statement are equal. -/
theorem Same.trans {first second third : Statement} (same : first.Same second)
    (other : second.Same third) : first.Same third := by
  cases same with
  | fact equal =>
      cases other with
      | fact equalAlso => exact .fact (equal.trans equalAlso)
  | rule equal =>
      cases other with
      | rule equalAlso =>
          exact .rule (Rule.beq_iff.2 ((Rule.beq_iff.1 equal).trans (Rule.beq_iff.1 equalAlso)))

end Statement

/-- The rules after adding one are those before and this one, up to equality. -/
theorem RuleSet.exists_beq_addRule_iff {ruleSet : RuleSet} {rule other : Rule} :
    (∃ found ∈ (ruleSet.addRule rule).1.rules.toList, (found == other) = true) ↔
      (∃ found ∈ ruleSet.rules.toList, (found == other) = true) ∨ (rule == other) = true := by
  rw [rules_addRule]
  split
  next present =>
    refine (or_iff_left_of_imp fun equal => ?_).symm
    obtain ⟨found, listed, same⟩ := List.any_eq_true.1 present
    refine ⟨found, listed, Rule.beq_iff.2 ?_⟩
    exact (Rule.beq_iff.1 same).trans (Rule.beq_iff.1 equal)
  next => simp only [List.mem_append, List.mem_singleton, or_and_right, exists_or, exists_eq_left]

namespace Source.Literal

/-- The atom of a positive part of a body. -/
def positive? : Literal → Option Atom
  | .positive atom => some atom
  | .negated _ => none
  | .comparison .. => none

/-- The atom of a negated part of a body. -/
def negated? : Literal → Option Atom
  | .positive _ => none
  | .negated atom => some atom
  | .comparison .. => none

/-- The operands of a comparison, with the operator between them. -/
def comparison? : Literal → Option (Term × Token × Term)
  | .positive _ => none
  | .negated _ => none
  | .comparison left operator right => some (left, operator, right)

variable {body : List Literal} {atom : Atom}

/-- The positive atoms of a body are its positive parts. -/
theorem mem_filterMap_positive? : atom ∈ body.filterMap positive? ↔ .positive atom ∈ body := by
  rw [List.mem_filterMap]
  constructor
  · rintro ⟨literal, inBody, isAtom⟩
    cases literal <;> cases isAtom
    exact inBody
  · exact fun inBody => ⟨_, inBody, rfl⟩

/-- The negated atoms of a body are its negated parts. -/
theorem mem_filterMap_negated? : atom ∈ body.filterMap negated? ↔ .negated atom ∈ body := by
  rw [List.mem_filterMap]
  constructor
  · rintro ⟨literal, inBody, isAtom⟩
    cases literal <;> cases isAtom
    exact inBody
  · exact fun inBody => ⟨_, inBody, rfl⟩

/-- The operands of a body are those of its comparisons. -/
theorem mem_filterMap_comparison? {left right : Term} {operator : Token} :
    (left, operator, right) ∈ body.filterMap comparison? ↔
      .comparison left operator right ∈ body := by
  rw [List.mem_filterMap]
  constructor
  · rintro ⟨literal, inBody, isComparison⟩
    cases literal <;> cases isComparison
    exact inBody
  · exact fun inBody => ⟨_, inBody, rfl⟩

end Source.Literal

namespace Draft

/-- A body means what its positive atoms, its negated atoms and its comparisons mean. -/
theorem readsBody_iff {body : List Source.Literal} {positive negative : List Atom}
    {constraints : List Constraint} :
    ReadsBody body positive negative constraints ↔
      List.Forall₂ (ReadsAtom ReadsTerm) (body.filterMap Source.Literal.positive?) positive ∧
      List.Forall₂ (ReadsAtom ReadsTerm) (body.filterMap Source.Literal.negated?) negative ∧
      List.Forall₂ (fun parts constraint =>
        ReadsConstraint parts.1 parts.2.1 parts.2.2 constraint)
        (body.filterMap Source.Literal.comparison?) constraints := by
  constructor
  · intro isRead
    induction isRead with
    | nil => exact ⟨.nil, .nil, .nil⟩
    | positive isAtom _ inductionHypothesis =>
        obtain ⟨arePositive, others⟩ := inductionHypothesis
        exact ⟨.cons isAtom arePositive, others⟩
    | negated isAtom _ inductionHypothesis =>
        obtain ⟨arePositive, areNegated, others⟩ := inductionHypothesis
        exact ⟨arePositive, .cons isAtom areNegated, others⟩
    | comparison isConstraint _ inductionHypothesis =>
        obtain ⟨arePositive, areNegated, areConstraints⟩ := inductionHypothesis
        exact ⟨arePositive, areNegated, .cons isConstraint areConstraints⟩
  · rintro ⟨arePositive, areNegated, areConstraints⟩
    induction body generalizing positive negative constraints with
    | nil =>
        cases arePositive
        cases areNegated
        cases areConstraints
        exact .nil
    | cons literal body inductionHypothesis =>
        cases literal with
        | positive source =>
            cases arePositive with
            | cons isAtom rest =>
                exact .positive isAtom (inductionHypothesis rest areNegated areConstraints)
        | negated source =>
            cases areNegated with
            | cons isAtom rest =>
                exact .negated isAtom (inductionHypothesis arePositive rest areConstraints)
        | comparison left operator right =>
            cases areConstraints with
            | cons isConstraint rest =>
                exact .comparison isConstraint
                  (inductionHypothesis arePositive areNegated rest)

section Bodies

variable {body : List Source.Literal} {positive negative : List Atom}
  {constraints : List Constraint} (isRead : ReadsBody body positive negative constraints)
include isRead

/-- A positive atom comes from a positive part of the body. -/
theorem ReadsBody.exists_positive {atom : Atom} (member : atom ∈ positive) :
    ∃ source, .positive source ∈ body ∧ ReadsAtom ReadsTerm source atom := by
  obtain ⟨source, inBody, isAtom⟩ := exists_mem_of_forall₂ (readsBody_iff.1 isRead).1.flip member
  exact ⟨source, Source.Literal.mem_filterMap_positive?.1 inBody, isAtom⟩

/-- A negated atom comes from a negated part of the body. -/
theorem ReadsBody.exists_negated {atom : Atom} (member : atom ∈ negative) :
    ∃ source, .negated source ∈ body ∧ ReadsAtom ReadsTerm source atom := by
  obtain ⟨source, inBody, isAtom⟩ :=
    exists_mem_of_forall₂ (readsBody_iff.1 isRead).2.1.flip member
  exact ⟨source, Source.Literal.mem_filterMap_negated?.1 inBody, isAtom⟩

/-- A constraint comes from a comparison of the body. -/
theorem ReadsBody.exists_comparison {constraint : Constraint} (member : constraint ∈ constraints) :
    ∃ left operator right, .comparison left operator right ∈ body ∧
      ReadsConstraint left operator right constraint := by
  obtain ⟨⟨left, operator, right⟩, inBody, isConstraint⟩ :=
    exists_mem_of_forall₂ (readsBody_iff.1 isRead).2.2.flip member
  exact ⟨left, operator, right, Source.Literal.mem_filterMap_comparison?.1 inBody, isConstraint⟩

end Bodies

/-- What a clause states. The rules that are stated are safe. -/
inductive ReadsClause : Source.Clause → Statement → Prop where
  | fact {source : Source.Atom} {atom : AtomOf Value} (isRead : ReadsAtom ReadsValue source atom) :
      ReadsClause (.fact source) (.fact atom)
  | rule {head : Source.Atom} {body : List Source.Literal} {rule : Rule}
      (isRead : ReadsRule head body rule) (safe : rule.Safe) :
      ReadsClause (.rule head body) (.rule rule)

section Settled

variable {τ σ : Type} {image : τ → σ}

/-- What terms mean leaves no choice but of things with the same image. -/
def Settles (image : τ → σ) (reads : Source.Term → τ → Prop) : Prop :=
  ∀ ⦃term first second⦄, reads term first → reads term second → image first = image second

/-- The value of an argument is settled. -/
theorem settles_readsValue (image : Value → σ) : Settles image ReadsValue := by
  intro term first second isFirst isSecond
  cases isFirst
  cases isSecond
  rfl

/-- The meaning of an argument of a head is settled. -/
theorem settles_readsHeadTerm (image : HeadTerm → σ) : Settles image ReadsHeadTerm := by
  intro term first second isFirst isSecond
  cases isFirst <;> cases isSecond <;> rfl

/-- The meaning of a term is settled, since the names of wildcards do not count. -/
theorem settles_readsTerm : Settles canonical ReadsTerm := by
  intro term first second isFirst isSecond
  cases isFirst <;> cases isSecond <;> rfl

variable {reads : Source.Term → τ → Prop}

/-- The meaning of arguments is settled. -/
theorem Settles.args (settles : Settles image reads) {source : Source.Args}
    {first second : Args τ} (isFirst : ReadsArgs reads source first)
    (isSecond : ReadsArgs reads source second) : first.map image = second.map image := by
  cases isFirst with
  | ordered areFirst =>
      cases isSecond with
      | ordered areSecond =>
          exact congrArg Args.ordered (map_eq_map_of_forall₂ settles areFirst areSecond)
  | named areFirst _ =>
      cases isSecond with
      | named areSecond _ =>
          refine congrArg Args.named ?_
          rw [Record.map_ofList, Record.map_ofList]
          refine congrArg Record.ofList (map_eq_map_of_forall₂ ?_ areFirst areSecond)
          intro field first second isFirst isSecond
          exact Prod.ext (isFirst.1.symm.trans isSecond.1) (settles isFirst.2 isSecond.2)

/-- The meaning of an atom is settled. -/
theorem Settles.atom [Canonical τ] (settles : Settles canonical reads) {source : Source.Atom}
    {first second : AtomOf τ} (isFirst : ReadsAtom reads source first)
    (isSecond : ReadsAtom reads source second) : canonical first = canonical second := by
  have sameRelation := isFirst.relation.trans isSecond.relation.symm
  have sameArgs := settles.args isFirst.args isSecond.args
  exact AtomOf.mk.injEq .. ▸ ⟨sameRelation, sameArgs⟩

end Settled

/-- The meaning of a comparison is settled. -/
theorem ReadsConstraint.canonical_eq {left right : Source.Term} {operator : Source.Token}
    {first second : Constraint} (isFirst : ReadsConstraint left operator right first)
    (isSecond : ReadsConstraint left operator right second) :
    canonical first = canonical second := by
  cases isFirst with
  | comparison _ _ isOperator isRead _ =>
      cases isSecond with
      | comparison _ _ isSameOperator isAlso _ =>
          obtain rfl := Option.some.inj (isOperator.symm.trans isSameOperator)
          exact congrArg (Constraint.mk _ _) (settles_readsTerm isRead isAlso)

/-- The meaning of a body is settled. -/
theorem ReadsBody.map_canonical_eq {body : List Source.Literal}
    {positive negative otherPositive otherNegative : List Atom}
    {constraints otherConstraints : List Constraint}
    (isFirst : ReadsBody body positive negative constraints)
    (isSecond : ReadsBody body otherPositive otherNegative otherConstraints) :
    positive.map canonical = otherPositive.map canonical ∧
      negative.map canonical = otherNegative.map canonical ∧
      constraints.map canonical = otherConstraints.map canonical := by
  induction isFirst generalizing otherPositive otherNegative otherConstraints with
  | nil =>
      cases isSecond
      exact ⟨rfl, rfl, rfl⟩
  | positive isAtom _ inductionHypothesis =>
      cases isSecond with
      | positive isAlso rest =>
          obtain ⟨samePositive, others⟩ := inductionHypothesis rest
          rw [List.map_cons, List.map_cons, settles_readsTerm.atom isAtom isAlso, samePositive]
          exact ⟨rfl, others⟩
  | negated isAtom _ inductionHypothesis =>
      cases isSecond with
      | negated isAlso rest =>
          obtain ⟨samePositive, sameNegative, others⟩ := inductionHypothesis rest
          rw [List.map_cons, List.map_cons, settles_readsTerm.atom isAtom isAlso, sameNegative]
          exact ⟨samePositive, rfl, others⟩
  | comparison isConstraint _ inductionHypothesis =>
      cases isSecond with
      | comparison isAlso rest =>
          obtain ⟨samePositive, sameNegative, sameConstraints⟩ := inductionHypothesis rest
          rw [List.map_cons, List.map_cons, isConstraint.canonical_eq isAlso, sameConstraints]
          exact ⟨samePositive, sameNegative, rfl⟩

/-- The meaning of a rule is settled. -/
theorem ReadsRule.beq {head : Source.Atom} {body : List Source.Literal} {first second : Rule}
    (isFirst : ReadsRule head body first) (isSecond : ReadsRule head body second) :
    (first == second) = true := by
  obtain ⟨samePositive, sameNegative, sameConstraints⟩ :=
    isFirst.body.map_canonical_eq isSecond.body
  rw [Rule.beq_iff, Rule.essence, Rule.essence,
    (settles_readsHeadTerm canonical).atom isFirst.head isSecond.head, samePositive, sameNegative,
    sameConstraints]

/-- What a clause states is settled. -/
theorem ReadsClause.same {clause : Source.Clause} {first second : Statement}
    (isFirst : ReadsClause clause first) (isSecond : ReadsClause clause second) :
    first.Same second := by
  cases isFirst with
  | fact isRead =>
      cases isSecond with
      | fact isAlso => exact .fact ((settles_readsValue canonical).atom isRead isAlso)
  | rule isRead _ =>
      cases isSecond with
      | rule isAlso _ => exact .rule (isRead.beq isAlso)

/-- What clauses state twice is the same. -/
theorem exists_same_of_readsClause {clauses : List Source.Clause}
    {statements others : List Statement} (areRead : List.Forall₂ ReadsClause clauses statements)
    (areOthers : List.Forall₂ ReadsClause clauses others) :
    ∀ statement ∈ statements, ∃ other ∈ others, statement.Same other := by
  intro statement member
  obtain ⟨clause, inClauses, isRead⟩ := exists_mem_of_forall₂ areRead.flip member
  obtain ⟨other, inOthers, isOther⟩ := exists_mem_of_forall₂ areOthers inClauses
  exact ⟨other, inOthers, isRead.same isOther⟩

/-- A draft has collected exactly what is stated: the facts one after the other, the rules up
to equality, and the shapes in which relations are used. -/
structure Collects (draft : Draft) (statements : List Statement) : Prop where
  facts_eq : draft.ruleSet.facts = .ofList (statements.filterMap Statement.fact?)
  rules_iff : ∀ rule, (∃ found ∈ draft.ruleSet.rules.toList, (found == rule) = true) ↔
    ∃ stated ∈ statements.filterMap Statement.rule?, (stated == rule) = true
  shapes_iff : ∀ relation shape, draft.ruleSet.shapeOf? relation = some shape ↔
    (relation, shape) ∈ statements.flatMap Statement.usages

section Collecting

variable {before middle after : Draft} {usages : List (String × Shape)}
  {statements : List Statement} {clause : Source.Clause}

/-- A draft that has grown knows the shapes that it knew and those of the relations used. -/
theorem Extends.shapeOf?_iff (isExtended : Extends before after usages) {relation : String}
    {shape : Shape} :
    after.ruleSet.shapeOf? relation = some shape ↔
      before.ruleSet.shapeOf? relation = some shape ∨ (relation, shape) ∈ usages := by
  constructor
  · intro isShape
    rcases (isExtended.knows_iff relation).1 ⟨shape, isShape⟩ with known | ⟨usage, member, rfl⟩
    · exact .inl ((isExtended.shapeOf?_eq known).symm.trans isShape)
    · obtain rfl := Option.some.inj ((isExtended.agrees usage member).symm.trans isShape)
      exact .inr member
  · rintro (isOld | isUsed)
    · exact isExtended.keeps relation shape isOld
    · exact isExtended.agrees _ isUsed

/-- The shapes are collected if each use is declared before the statement is added. -/
theorem Collects.shapeOf?_iff (collects : before.Collects statements)
    (isExtended : Extends before middle usages)
    (sameShapes : ∀ relation,
      after.ruleSet.shapeOf? relation = middle.ruleSet.shapeOf? relation)
    {statement : Statement} (sameUsages : statement.usages = usages) (relation : String)
    (shape : Shape) :
    after.ruleSet.shapeOf? relation = some shape ↔
      (relation, shape) ∈ (statements ++ [statement]).flatMap Statement.usages := by
  rw [sameShapes, isExtended.shapeOf?_iff, collects.shapes_iff, List.flatMap_append,
    List.mem_append, List.flatMap_singleton, sameUsages]

/-- Each clause adds what it states. -/
theorem Collects.addClause (collects : before.Collects statements)
    (isOk : (addClause clause).run before = .ok ((), after)) :
    ∃ statement, ReadsClause clause statement ∧ after.Collects (statements ++ [statement]) := by
  cases clause with
  | fact source =>
      obtain ⟨atom, middle, isAtom, isOk⟩ := run_bind_eq_ok_iff.1 isOk
      cases isOk
      obtain ⟨isRead, isExtended⟩ := finds_translateValue.translateAtom isAtom
      have known : middle.ruleSet.Knows atom.relation :=
        (isExtended.knows_iff _).2 (.inr ⟨_, List.mem_cons_self, rfl⟩)
      refine ⟨.fact atom, .fact isRead, ?_, ?_, collects.shapeOf?_iff isExtended
        (RuleSet.shapeOf?_declare_of_knows known _) rfl⟩
      · change middle.ruleSet.facts.insert ⟨atom.relation, atom.terms⟩ = _
        rw [isExtended.facts, collects.facts_eq, List.filterMap_append]
        exact (OrderedSet.insertMany_append _ _ [_]).symm
      · intro rule
        change (∃ found ∈ middle.ruleSet.rules.toList, (found == rule) = true) ↔ _
        have noRule : [Statement.fact atom].filterMap Statement.rule? = [] := rfl
        rw [isExtended.rules, collects.rules_iff, List.filterMap_append, noRule, List.append_nil]
  | rule head body =>
      obtain ⟨rule, middle, isRule, isOk⟩ := run_bind_eq_ok_iff.1 isOk
      cases isOk
      obtain ⟨isRead, isExtended, safe⟩ := readsRule_of_translateRule isRule
      refine ⟨.rule rule, .rule isRead safe, ?_, ?_, collects.shapeOf?_iff isExtended
        (fun relation => ?_) rfl⟩
      · change (middle.ruleSet.addRule rule).1.facts = _
        have noFact : [Statement.rule rule].filterMap Statement.fact? = [] := rfl
        rw [RuleSet.facts_addRule, isExtended.facts, collects.facts_eq, List.filterMap_append,
          noFact, List.append_nil]
      · intro other
        have isLast : [Statement.rule rule].filterMap Statement.rule? = [rule] := rfl
        refine RuleSet.exists_beq_addRule_iff.trans ?_
        rw [isExtended.rules, collects.rules_iff, List.filterMap_append, isLast]
        simp only [List.mem_append, List.mem_singleton, or_and_right, exists_or, exists_eq_left]
      · refine (RuleSet.shapeOf?_addRule middle.ruleSet rule relation).trans ?_
        exact RuleSet.shapeOf?_foldl_declare
          (fun usage member => ⟨_, isExtended.agrees usage member⟩) relation

/-- Clauses add what they state. -/
theorem Collects.forM (collects : before.Collects statements) {clauses : List Source.Clause}
    (isOk : (clauses.forM Draft.addClause).run before = .ok ((), after)) :
    ∃ more, List.Forall₂ ReadsClause clauses more ∧ after.Collects (statements ++ more) := by
  induction clauses generalizing statements before with
  | nil =>
      obtain ⟨-, rfl⟩ := run_pure_eq_ok_iff.1 isOk
      exact ⟨[], .nil, by simpa using collects⟩
  | cons clause clauses inductionHypothesis =>
      obtain ⟨_, middle, isFirst, isOk⟩ := run_bind_eq_ok_iff.1 isOk
      obtain ⟨statement, isRead, collects⟩ := collects.addClause isFirst
      obtain ⟨more, areRead, collects⟩ := inductionHypothesis collects isOk
      exact ⟨statement :: more, .cons isRead areRead, by simpa using collects⟩

/-- The draft without clauses has collected nothing. -/
theorem collects_empty : empty.Collects [] where
  facts_eq := rfl
  rules_iff rule := by
    refine iff_of_false ?_ ?_
    · rintro ⟨found, listed, _⟩
      exact absurd listed List.not_mem_nil
    · rintro ⟨stated, listed, _⟩
      cases listed
  shapes_iff relation shape := by
    have noShape : empty.ruleSet.shapeOf? relation = none := Std.TreeMap.getElem?_emptyc
    simp [noShape]

/-- The draft of clauses has collected what they state. -/
theorem exists_collects {clauses : List Source.Clause} {draft : Draft}
    (isOk : ofClauses clauses = .ok draft) :
    ∃ statements, List.Forall₂ ReadsClause clauses statements ∧ draft.Collects statements := by
  obtain ⟨⟨_, found⟩, isRun, isOk⟩ := bind_eq_ok_iff.1 isOk
  cases isOk
  exact collects_empty.forM isRun

end Collecting

end Draft

end Datalog
