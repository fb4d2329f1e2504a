import Datalog.Proofs.RuleSet.Rearrangement
import Datalog.Proofs.RuleSet.Restatement

/-!
# Rule sets as programs

A rule set that has been compiled prints as a program for an equal rule set
(`RuleSet.recompiles_of_printable`), with two exceptions. A decimal beyond the largest number
is read as an infinite one, which has no literal and prints as a name. And a comparison may
begin with a variable of the name `not`, which prints in front of a blank and is then taken
for a negation. Neither text compiles to an equal rule set.
-/

namespace Datalog

/-- The constant that a term is. -/
def Term.constant? : Term → Option Value
  | constant value => some value
  | var _ => none
  | wildcard _ => none

/-- No value in a rule is infinite, and no comparison begins with the word that negates. -/
structure Rule.Printable (rule : Rule) : Prop where
  head : ∀ term ∈ rule.head.terms, ∀ value ∈ term.constant?, ¬ value.IsInfinite
  body : ∀ atom ∈ rule.positive ++ rule.negative, ∀ term ∈ atom.terms,
    ∀ value ∈ term.constant?, ¬ value.IsInfinite
  constraints : ∀ constraint ∈ rule.constraints,
    constraint.left ≠ "not" ∧ ∀ value ∈ constraint.right.constant?, ¬ value.IsInfinite

/-- No value in a fact is infinite, and the rules are printable. -/
structure RuleSet.Printable (ruleSet : RuleSet) : Prop where
  facts : ∀ fact ∈ ruleSet.facts.toList, ∀ value ∈ fact.values, ¬ value.IsInfinite
  rules : ∀ rule ∈ ruleSet.rules.toList, rule.Printable

instance (rule : Rule) : Decidable rule.Printable :=
  decidable_of_iff
    ((∀ term ∈ rule.head.terms, ∀ value ∈ term.constant?, ¬ value.IsInfinite) ∧
      (∀ atom ∈ rule.positive ++ rule.negative, ∀ term ∈ atom.terms,
        ∀ value ∈ term.constant?, ¬ value.IsInfinite) ∧
      ∀ constraint ∈ rule.constraints,
        constraint.left ≠ "not" ∧ ∀ value ∈ constraint.right.constant?, ¬ value.IsInfinite)
    ⟨fun ⟨head, body, constraints⟩ => ⟨head, body, constraints⟩,
      fun printable => ⟨printable.head, printable.body, printable.constraints⟩⟩

instance (ruleSet : RuleSet) : Decidable ruleSet.Printable :=
  decidable_of_iff
    ((∀ fact ∈ ruleSet.facts.toList, ∀ value ∈ fact.values, ¬ value.IsInfinite) ∧
      ∀ rule ∈ ruleSet.rules.toList, rule.Printable)
    ⟨fun ⟨facts, rules⟩ => ⟨facts, rules⟩, fun printable => ⟨printable.facts, printable.rules⟩⟩

/-- The text of a rule set compiles to an equal rule set. -/
def RuleSet.Recompiles (ruleSet : RuleSet) : Prop :=
  ∃ again, compile ruleSet.text = .ok again ∧ (again == ruleSet) = true

namespace Source

/-- A value that was read is written as it is read, unless it is infinite. -/
theorem written_of_readsValue {term : Term} {value : Value} (wellFormed : term.WellFormed)
    (isRead : Draft.ReadsValue term value) (finite : ¬ value.IsInfinite) :
    Written Value.text Draft.ReadsValue value := by
  cases isRead
  cases wellFormed with
  | literal denotes => exact written_value (denotes.text finite)

/-- An argument of a head that was read is written as it is read, unless it is infinite. -/
theorem written_of_readsHeadTerm {term : Term} {result : HeadTerm}
    (wellFormed : term.WellFormed) (isRead : Draft.ReadsHeadTerm term result)
    (finite : ∀ value ∈ result.constant?, ¬ value.IsInfinite) :
    Written HeadTerm.text Draft.ReadsHeadTerm result := by
  cases isRead with
  | literal _ value =>
      cases wellFormed with
      | literal denotes =>
          exact written_literal (denotes.text (finite value rfl)) (.literal · value)
  | identifier token =>
      cases wellFormed with
      | identifier isName isFree =>
          refine written_identifier isName isFree fun other isText => ?_
          have sameName : other.lexeme = token.lexeme := isText
          exact sameName ▸ .identifier other

/-- The name that an anonymous wildcard is given is a wildcard, and not a mere underscore. -/
theorem isWildcard_numbered (number : Nat) :
    IsWildcard ("_" ++ toString number).toList ∧ "_" ++ toString number ≠ "_" := by
  have areDigits := isDigits_toDigits number
  have isText : ("_" ++ toString number).toList = '_' :: Nat.toDigits 10 number := by
    rw [String.toList_append, Nat.toString_eq_repr, Nat.repr_eq_ofList_toDigits]
    exact congrArg ('_' :: ·) String.toList_ofList
  constructor
  · rw [isText]
    exact .wildcard fun char member =>
      (isNameChar_of_isDigit (areDigits.areDigits char member)).1
  · intro isMere
    rw [isMere] at isText
    exact areDigits.nonempty (List.cons.inj isText).2.symm

/-- A term of a body that was read is written as it is read, unless it is infinite. An
anonymous wildcard is written as the name that it has been given. -/
theorem written_of_readsTerm {term : Term} {result : Datalog.Term}
    (wellFormed : term.WellFormed) (isRead : Draft.ReadsTerm term result)
    (finite : ∀ value ∈ result.constant?, ¬ value.IsInfinite) :
    Written Datalog.Term.text Draft.ReadsTerm result := by
  have named {name : String} (isWildcard : IsWildcard name.toList) (isNamed : name ≠ "_") :
      Written Datalog.Term.text Draft.ReadsTerm (.wildcard name) := by
    refine written_wildcard isWildcard fun token isText => ?_
    have sameName : token.lexeme = name := isText
    exact sameName ▸ .wildcard token (sameName ▸ isNamed)
  cases isRead with
  | literal _ value =>
      cases wellFormed with
      | literal denotes =>
          exact written_literal (denotes.text (finite value rfl)) (.literal · value)
  | identifier token =>
      cases wellFormed with
      | identifier isName isFree =>
          refine written_identifier isName isFree fun other isText => ?_
          have sameName : other.lexeme = token.lexeme := isText
          exact sameName ▸ .identifier other
  | wildcard _ isNamed =>
      cases wellFormed with
      | wildcard isWildcard => exact named isWildcard isNamed
  | anonymous _ _ number =>
      obtain ⟨isWildcard, isNamed⟩ := isWildcard_numbered number
      exact named isWildcard isNamed

end Source

namespace Draft

section Parts

variable {τ : Type} {text : τ → String} {reads : Source.Term → τ → Prop}

/-- An atom that was read can be written if its terms can. -/
theorem ReadsAtom.writable {source : Source.Atom} {atom : AtomOf τ}
    (isRead : ReadsAtom reads source atom) (wellFormed : source.WellFormed)
    (written : ∀ result ∈ atom.terms, ∀ term : Source.Term, term.WellFormed →
      reads term result → Source.Written text reads result) :
    Source.WritableAtom text reads atom := by
  obtain ⟨isName, shape⟩ := isRead.writableUsage wellFormed
  refine ⟨isName, shape, fun result member => ?_⟩
  obtain ⟨term, isTerm, isResult⟩ := isRead.args.exists_term wellFormed.args member
  exact written result member term isTerm isResult

/-- A comparison that was read can be written if it does not begin with the word that
negates. -/
theorem ReadsConstraint.writable {left right : Source.Term} {operator : Source.Token}
    {constraint : Constraint} (isRead : ReadsConstraint left operator right constraint)
    (wellFormed : (Source.Literal.comparison left operator right).WellFormed)
    (noNegation : constraint.left ≠ "not")
    (finite : ∀ value ∈ constraint.right.constant?, ¬ value.IsInfinite) :
    Source.WritableConstraint constraint := by
  cases isRead with
  | @comparison token _ _ comparison operand _ isOperand noWildcard =>
      cases wellFormed with
      | comparison isLeft _ isRight =>
          cases isLeft with
          | identifier isName isFree =>
              refine ⟨isName, isFree, noNegation,
                Source.written_of_readsTerm isRight isOperand finite, ?_⟩
              rintro name rfl
              cases isOperand with
              | wildcard token => exact noWildcard token rfl
              | anonymous token => exact noWildcard token rfl

/-- What a body means has a part, unless the body has none. -/
theorem ReadsRule.parts_ne_nil {head : Source.Atom} {body : List Source.Literal} {rule : Rule}
    (isRead : ReadsRule head body rule) (nonempty : body ≠ []) : rule.parts ≠ [] := by
  obtain ⟨head, positive, negative, constraints⟩ := rule
  have isBody : ReadsBody body positive negative constraints := isRead.body
  cases isBody with
  | nil => exact absurd rfl nonempty
  | positive => simp [Rule.parts]
  | negated => simp [Rule.parts]
  | comparison => simp [Rule.parts]

/-- A rule that was read can be written if it is printable. -/
theorem ReadsRule.writable {head : Source.Atom} {body : List Source.Literal} {rule : Rule}
    (isRead : ReadsRule head body rule) (wellFormed : (Source.Clause.rule head body).WellFormed)
    (printable : rule.Printable) (safe : rule.Safe) :
    Source.WritableStatement (.rule rule) := by
  cases wellFormed with
  | rule isHead nonempty isBody =>
      have writtenIn {atom : Atom} (inBody : atom ∈ rule.positive ++ rule.negative) :
          ∀ result ∈ atom.terms, ∀ term : Source.Term, term.WellFormed →
            ReadsTerm term result → Source.Written Term.text ReadsTerm result :=
        fun result member term isTerm isResult =>
          Source.written_of_readsTerm isTerm isResult (printable.body atom inBody result member)
      refine .rule ?_ (isRead.parts_ne_nil nonempty) ?_ safe
      · exact isRead.head.writable isHead fun result member term isTerm isResult =>
          Source.written_of_readsHeadTerm isTerm isResult (printable.head result member)
      · refine List.forall_mem_append.2 ⟨List.forall_mem_append.2
          ⟨List.forall_mem_map.2 fun atom member => ?_,
            List.forall_mem_map.2 fun atom member => ?_⟩,
          List.forall_mem_map.2 fun constraint member => ?_⟩
        · obtain ⟨source, inBody, isAtom⟩ := isRead.body.exists_positive member
          cases isBody _ inBody with
          | positive isSource =>
              exact .positive
                (isAtom.writable isSource (writtenIn (List.mem_append_left _ member)))
        · obtain ⟨source, inBody, isAtom⟩ := isRead.body.exists_negated member
          cases isBody _ inBody with
          | negated isSource =>
              exact .negated
                (isAtom.writable isSource (writtenIn (List.mem_append_right _ member)))
        · obtain ⟨left, operator, right, inBody, isConstraint⟩ :=
            isRead.body.exists_comparison member
          obtain ⟨noNegation, finite⟩ := printable.constraints constraint member
          exact .comparison (isConstraint.writable (isBody _ inBody) noNegation finite)

end Parts

/-- The statements of facts, as atoms in the shapes of their relations, and of rules. -/
def listing (atoms : List (AtomOf Value)) (rules : List Rule) : List Statement :=
  atoms.map .fact ++ rules.map .rule

/-- The facts of a listing are those of its atoms. -/
theorem filterMap_fact?_listing (atoms : List (AtomOf Value)) (rules : List Rule) :
    (listing atoms rules).filterMap Statement.fact? =
      atoms.map fun atom => ⟨atom.relation, atom.terms⟩ := by
  have noFacts : (rules.map Statement.rule).filterMap Statement.fact? = [] :=
    List.filterMap_eq_nil_iff.2 (List.forall_mem_map.2 fun _ _ => rfl)
  rw [listing, List.filterMap_append, noFacts, List.append_nil, List.filterMap_map]
  exact congrFun List.filterMap_eq_map atoms

/-- The rules of a listing are its rules. -/
theorem filterMap_rule?_listing (atoms : List (AtomOf Value)) (rules : List Rule) :
    (listing atoms rules).filterMap Statement.rule? = rules := by
  have noRules : (atoms.map Statement.fact).filterMap Statement.rule? = [] :=
    List.filterMap_eq_nil_iff.2 (List.forall_mem_map.2 fun _ _ => rfl)
  rw [listing, List.filterMap_append, noRules, List.nil_append, List.filterMap_map]
  exact List.filterMap_some

section Listed

variable {draft : Draft} {clauses : List Source.Clause} {statements : List Statement}
  {atoms : List (AtomOf Value)} (means : draft.Means clauses)
  (inShape : ∀ atom ∈ atoms, draft.ruleSet.shapeOf? atom.relation = some atom.shape)
include means inShape

/-- A draft knows the shapes in which its facts and its rules use their relations. -/
theorem Means.shapeOf?_listing : ∀ usage ∈ (listing atoms draft.ruleSet.rules.toList).flatMap
    Statement.usages, draft.ruleSet.shapeOf? usage.1 = some usage.2 := by
  intro usage member
  obtain ⟨statement, isListed, isUsed⟩ := List.mem_flatMap.1 member
  rcases List.mem_append.1 isListed with isFact | isRule
  · obtain ⟨atom, inAtoms, rfl⟩ := List.mem_map.1 isFact
    obtain rfl := List.mem_singleton.1 isUsed
    exact inShape atom inAtoms
  · obtain ⟨rule, inRules, rfl⟩ := List.mem_map.1 isRule
    exact means.declared.shapeOf?_usage means.consistent inRules isUsed

/-- What a draft has collected are its own facts and rules. -/
theorem Means.collects_listing (collects : draft.Collects statements)
    (areFacts : (atoms.map fun atom => (⟨atom.relation, atom.terms⟩ : Fact)) =
      draft.ruleSet.facts.toList) :
    draft.Collects (listing atoms draft.ruleSet.rules.toList) where
  facts_eq := by
    rw [filterMap_fact?_listing, areFacts, collects.facts_eq, OrderedSet.ofList_toList_ofList]
  rules_iff rule := by rw [filterMap_rule?_listing]
  shapes_iff relation shape := by
    constructor
    · intro isShape
      -- A relation with a shape is used somewhere, and every use is in that shape.
      have isUsage {usage : String × Shape} (same : usage.1 = relation)
          (member : usage ∈ (listing atoms draft.ruleSet.rules.toList).flatMap
            Statement.usages) :
          (relation, shape) ∈ (listing atoms draft.ruleSet.rules.toList).flatMap
            Statement.usages := by
        have alsoShape := means.shapeOf?_listing inShape usage member
        rw [same, isShape] at alsoShape
        rwa [← same, Option.some.inj alsoShape]
      rcases (means.declared relation).1 ⟨shape, isShape⟩ with
        ⟨fact, inFacts, ofRelation⟩ | ⟨rule, inRules, usage, isUsed, ofRelation⟩
      · rw [← areFacts] at inFacts
        obtain ⟨atom, inAtoms, rfl⟩ := List.mem_map.1 inFacts
        refine isUsage ofRelation (List.mem_flatMap.2 ⟨.fact atom, ?_, List.mem_cons_self⟩)
        exact List.mem_append_left _ (List.mem_map_of_mem inAtoms)
      · refine isUsage ofRelation (List.mem_flatMap.2 ⟨.rule rule, ?_, isUsed⟩)
        exact List.mem_append_right _ (List.mem_map_of_mem inRules)
    · exact fun member => means.shapeOf?_listing inShape _ member

end Listed

/-- Lines of statements that agree on the shapes of relations are parsed as clauses that have a
draft, and the draft has collected equal statements. -/
theorem exists_draft_of_lines {statements : List Statement}
    (writable : ∀ statement ∈ statements, Source.WritableStatement statement)
    (agree : Agree (statements.flatMap Statement.usages)) :
    ∃ clauses draft, Source.parse (lines (statements.map Statement.text)) = .ok clauses ∧
      ofClauses clauses = .ok draft ∧ ∃ stated, draft.Collects stated ∧
        (∀ statement ∈ statements, ∃ other ∈ stated, statement.Same other) ∧
        ∀ other ∈ stated, ∃ statement ∈ statements, other.Same statement := by
  obtain ⟨clauses, isParsed, areRead⟩ := Source.exists_parse_lines writable
  obtain ⟨draft, isDraft⟩ := exists_ofClauses_iff.2 ⟨statements, areRead, agree⟩
  obtain ⟨stated, areStated, collects⟩ := exists_collects isDraft
  exact ⟨clauses, draft, isParsed, isDraft, stated, collects,
    exists_same_of_readsClause areRead areStated, exists_same_of_readsClause areStated areRead⟩

end Draft

/-- Lines of two lists of clauses are the lines of both. -/
theorem lines_append (first second : List String) :
    lines (first ++ second) = lines first ++ lines second := by
  apply String.toList_injective
  simp only [lines, String.toList_append, String.toList_join, List.map_append,
    List.flatMap_append]

namespace RuleSet

/-- A rule set prints as lines of the statements that it lists. -/
theorem text_eq_lines {ruleSet : RuleSet} {atoms : List (AtomOf Value)}
    (areFacts : (atoms.map fun atom => (⟨atom.relation, atom.terms⟩ : Fact)) =
      ruleSet.facts.toList)
    (inShape : ∀ atom ∈ atoms, ruleSet.shapeOf? atom.relation = some atom.shape) :
    ruleSet.text = lines ((Draft.listing atoms ruleSet.rules.toList).map Statement.text) := by
  rw [Draft.listing, List.map_append, lines_append, text, ← areFacts, List.map_map, List.map_map,
    List.map_map]
  refine congrArg₂ (· ++ ·) (congrArg lines (List.map_congr_left fun atom member => ?_)) rfl
  change Fact.textIn _ (ruleSet.shapeOf? atom.relation) ++ "." = _
  rw [inShape atom member, textIn_shape]
  rfl

/-- The facts of a rule set that was compiled are atoms that can be written, in the shapes of
their relations, unless one of their values is infinite. -/
theorem exists_atoms_of_means {draft : Draft} {clauses : List Source.Clause}
    (means : draft.Means clauses) (wellFormed : ∀ clause ∈ clauses, clause.WellFormed)
    (finite : ∀ fact ∈ draft.ruleSet.facts.toList, ∀ value ∈ fact.values,
      ¬ value.IsInfinite) :
    ∃ atoms : List (AtomOf Value),
      (atoms.map fun atom => (⟨atom.relation, atom.terms⟩ : Fact)) =
        draft.ruleSet.facts.toList ∧
      ∀ atom ∈ atoms, Source.WritableAtom Value.text Draft.ReadsValue atom ∧
        draft.ruleSet.shapeOf? atom.relation = some atom.shape := by
  refine exists_map_eq fun fact isStated => ?_
  obtain ⟨source, isClause, atom, isRead, rfl, isShape⟩ := means.facts fact isStated
  refine ⟨atom, rfl, ?_, isShape⟩
  cases wellFormed _ isClause with
  | fact isHead =>
      exact isRead.writable isHead fun value member term isTerm isValue =>
        Source.written_of_readsValue isTerm isValue (finite _ isStated value member)

/-- A rule set that was compiled and is printable prints as lines of statements. They can be
written, they agree on the shapes of relations, and they are all that has been collected. -/
theorem exists_statements_of_compile {source : String} {ruleSet : RuleSet}
    (compiled : compile source = .ok ruleSet) (printable : ruleSet.Printable) :
    ∃ statements : List Statement,
      (∀ statement ∈ statements, Source.WritableStatement statement) ∧
      Draft.Agree (statements.flatMap Statement.usages) ∧
      ruleSet.text = lines (statements.map Statement.text) ∧
      ∃ draft : Draft, draft.ruleSet = ruleSet ∧ draft.Collects statements := by
  obtain ⟨clauses, isParsed, isCompiled⟩ := bind_eq_ok_iff.1 compiled
  obtain ⟨draft, isDraft, rfl, _⟩ := compileClauses_eq_ok_iff.1 isCompiled
  have means := Draft.means_of_ofClauses isDraft
  have wellFormed := (Source.laid_of_parse isParsed).1
  obtain ⟨stated, _, collects⟩ := Draft.exists_collects isDraft
  obtain ⟨atoms, areFacts, areAtoms⟩ := exists_atoms_of_means means wellFormed printable.facts
  have inShape : ∀ atom ∈ atoms, draft.ruleSet.shapeOf? atom.relation = some atom.shape :=
    fun atom member => (areAtoms atom member).2
  refine ⟨Draft.listing atoms draft.ruleSet.rules.toList, ?_, ?_,
    text_eq_lines areFacts inShape, draft, rfl, means.collects_listing inShape collects areFacts⟩
  · refine List.forall_mem_append.2 ⟨List.forall_mem_map.2 fun atom member =>
      .fact (areAtoms atom member).1, List.forall_mem_map.2 fun rule member => ?_⟩
    obtain ⟨head, body, isClause, isRead⟩ := means.rules rule member
    exact isRead.writable (wellFormed _ isClause) (printable.rules rule member)
      (means.consistent.safe rule member)
  · intro first isFirst second isSecond sameRelation
    have isShape := means.shapeOf?_listing inShape first isFirst
    rw [sameRelation, means.shapeOf?_listing inShape second isSecond] at isShape
    exact (Option.some.inj isShape).symm

/-- A rule set that was compiled compiles from its text again, if it is printable. -/
theorem recompiles_of_printable {source : String} {ruleSet : RuleSet}
    (compiled : compile source = .ok ruleSet) (printable : ruleSet.Printable) :
    ruleSet.Recompiles := by
  obtain ⟨statements, writable, agree, isText, draft, rfl, collects⟩ :=
    exists_statements_of_compile compiled printable
  obtain ⟨clauses, again, isParsed, isDraft, stated, collectsAgain, forth, back⟩ :=
    Draft.exists_draft_of_lines writable agree
  -- Both drafts have collected equal statements, so the rules are also stratified alike.
  have equal : (draft.ruleSet == again.ruleSet) = true := collects.beq collectsAgain forth back
  obtain ⟨_, _, _, _, _, stratification, accepted⟩ := exists_means_of_compile compiled
  obtain ⟨otherStratification, alsoAccepted⟩ := exists_stratify_congr equal accepted
  refine ⟨again.ruleSet, ?_, beq_symm equal⟩
  rw [isText]
  exact bind_eq_ok_iff.2 ⟨clauses, isParsed,
    compileClauses_eq_ok_iff.2 ⟨again, isDraft, rfl, otherStratification, alsoAccepted⟩⟩

/-- Fields in another order, anonymous and named wildcards, signs, escapes, and a relation and
a variable of the name `not`. -/
def crossings : String :=
  "way(to: -0.5, from: \"a\\n\"). not(:k, 1.0e2). not(:k, 100). seen(true).
   open(X, null) :- not seen(X), way(from: X, to: _), way(to: Y, from: _), Y >= -2, Y != 0.25.
   odd(not) :- not(X, not), not not(not, _rest), X<not."

/-- The text of `crossings`, once it is compiled, compiles to an equal rule set. -/
theorem recompiles_crossings :
    ∃ ruleSet, compile crossings = .ok ruleSet ∧ ruleSet.Printable ∧ ruleSet.Recompiles := by
  have evaluated : (do return decide (← compile crossings).Printable : Except Error Bool) =
      .ok true := by
    decide +kernel
  obtain ⟨ruleSet, compiled, evaluated⟩ := bind_eq_ok_iff.1 evaluated
  have printable := of_decide_eq_true (Except.ok.inj evaluated)
  exact ⟨ruleSet, compiled, printable, recompiles_of_printable compiled printable⟩

/-- An infinite number has no literal, and a comparison that begins with `not` is taken for a
negation: rule sets with such parts are compiled, but not from their texts. -/
theorem exists_not_recompiles :
    (∃ ruleSet, compile "p(1.0e400)." = .ok ruleSet ∧ ¬ ruleSet.Recompiles) ∧
      ∃ ruleSet, compile "q(1). p(not) :- q(not), not< 3." = .ok ruleSet ∧
        ¬ ruleSet.Recompiles := by
  have exists_refused {source : String} (refused : (do
      let ruleSet ← compile source
      return (compile ruleSet.text).isOk : Except Error Bool) = .ok false) :
      ∃ ruleSet, compile source = .ok ruleSet ∧ ¬ ruleSet.Recompiles := by
    obtain ⟨ruleSet, compiled, refused⟩ := bind_eq_ok_iff.1 refused
    refine ⟨ruleSet, compiled, ?_⟩
    rintro ⟨again, isAgain, _⟩
    have accepted := Except.ok.inj refused
    rw [isAgain] at accepted
    cases accepted
  exact ⟨exists_refused (by decide +kernel), exists_refused (by decide +kernel)⟩

end RuleSet

end Datalog
