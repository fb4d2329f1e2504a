import Datalog.Proofs.Collection.Record
import Datalog.Proofs.Except
import Datalog.Proofs.Pairing
import Datalog.Proofs.RuleSet.Declared
import Datalog.RuleSet.Compile

/-!
# What clauses mean

The meaning of terms, atoms and rules as relations between what is written and what a draft
makes of it, without the state of the draft. Each step of the translation finds such a meaning
and changes the draft in a known way: `Draft.Extends` says that nothing but the shapes of the
relations used has been added. The invariant of all clauses together is `Draft.Means`
(`Draft.means_of_ofClauses`).
-/

namespace Datalog

namespace Draft

/-- The value of a literal. -/
inductive ReadsValue : Source.Term → Value → Prop where
  | literal (token : Source.Token) (value : Value) : ReadsValue (.literal token value) value

/-- What a term means in a head: a constant or a variable. -/
inductive ReadsHeadTerm : Source.Term → HeadTerm → Prop where
  | literal (token : Source.Token) (value : Value) :
      ReadsHeadTerm (.literal token value) (.constant value)
  | identifier (token : Source.Token) : ReadsHeadTerm (.identifier token) (.var token.lexeme)

/-- What a term means in a body. A wildcard that is a mere underscore is given a number. -/
inductive ReadsTerm : Source.Term → Term → Prop where
  | literal (token : Source.Token) (value : Value) :
      ReadsTerm (.literal token value) (.constant value)
  | identifier (token : Source.Token) : ReadsTerm (.identifier token) (.var token.lexeme)
  | wildcard (token : Source.Token) (isNamed : token.lexeme ≠ "_") :
      ReadsTerm (.wildcard token) (.wildcard token.lexeme)
  | anonymous (token : Source.Token) (isAnonymous : token.lexeme = "_") (number : Nat) :
      ReadsTerm (.wildcard token) (.wildcard ("_" ++ toString number))

/-- The meaning of arguments, term by term. Field names are not repeated. -/
inductive ReadsArgs {τ : Type} (reads : Source.Term → τ → Prop) : Source.Args → Args τ → Prop where
  | ordered {terms : List Source.Term} {results : List τ}
      (areRead : List.Forall₂ reads terms results) :
      ReadsArgs reads (.ordered terms) (.ordered results)
  | named {fields : List (Source.Token × Source.Term)} {results : List (String × τ)}
      (areRead : List.Forall₂ (fun field result =>
        field.1.lexeme = result.1 ∧ reads field.2 result.2) fields results)
      (distinct : (results.map Prod.fst).Nodup) :
      ReadsArgs reads (.named fields) (.named (.ofList results))

/-- The meaning of an atom. -/
structure ReadsAtom {τ : Type} (reads : Source.Term → τ → Prop) (source : Source.Atom)
    (atom : AtomOf τ) : Prop where
  relation : atom.relation = source.relation.lexeme
  args : ReadsArgs reads source.args atom.args

/-- The meaning of a comparison between a variable and a term that is no wildcard. -/
inductive ReadsConstraint : Source.Term → Source.Token → Source.Term → Constraint → Prop where
  | comparison (left operator : Source.Token) {right : Source.Term} {comparison : Comparison}
      {operand : Term} (isOperator : Comparison.ofLexeme? operator.lexeme = some comparison)
      (isRead : ReadsTerm right operand) (noWildcard : ∀ token, right ≠ .wildcard token) :
      ReadsConstraint (.identifier left) operator right ⟨left.lexeme, comparison, operand⟩

/-- The meaning of a body: its parts, each in the order in which they are written. -/
inductive ReadsBody : List Source.Literal → List Atom → List Atom → List Constraint → Prop where
  | nil : ReadsBody [] [] [] []
  | positive {source : Source.Atom} {atom : Atom} {body : List Source.Literal}
      {positive negative : List Atom} {constraints : List Constraint}
      (isAtom : ReadsAtom ReadsTerm source atom)
      (rest : ReadsBody body positive negative constraints) :
      ReadsBody (.positive source :: body) (atom :: positive) negative constraints
  | negated {source : Source.Atom} {atom : Atom} {body : List Source.Literal}
      {positive negative : List Atom} {constraints : List Constraint}
      (isAtom : ReadsAtom ReadsTerm source atom)
      (rest : ReadsBody body positive negative constraints) :
      ReadsBody (.negated source :: body) positive (atom :: negative) constraints
  | comparison {left right : Source.Term} {operator : Source.Token} {constraint : Constraint}
      {body : List Source.Literal} {positive negative : List Atom}
      {constraints : List Constraint}
      (isConstraint : ReadsConstraint left operator right constraint)
      (rest : ReadsBody body positive negative constraints) :
      ReadsBody (.comparison left operator right :: body) positive negative
        (constraint :: constraints)

/-- The meaning of a rule. -/
structure ReadsRule (head : Source.Atom) (body : List Source.Literal) (rule : Rule) : Prop where
  head : ReadsAtom ReadsHeadTerm head rule.head
  body : ReadsBody body rule.positive rule.negative rule.constraints

/-- A draft has grown by nothing but the shapes of relations, which agree with their uses. -/
structure Extends (before after : Draft) (usages : List (String × Shape)) : Prop where
  facts : after.ruleSet.facts = before.ruleSet.facts
  rules : after.ruleSet.rules = before.ruleSet.rules
  keeps : ∀ relation shape, before.ruleSet.shapeOf? relation = some shape →
    after.ruleSet.shapeOf? relation = some shape
  knows_iff : ∀ relation, after.ruleSet.Knows relation ↔
    before.ruleSet.Knows relation ∨ ∃ usage ∈ usages, usage.1 = relation
  agrees : ∀ usage ∈ usages, after.ruleSet.shapeOf? usage.1 = some usage.2

section Steps

variable {α β τ : Type} {before middle after : Draft} {usages more : List (String × Shape)}

/-- A draft with the same rule set has grown by nothing. -/
theorem Extends.of_eq (same : after.ruleSet = before.ruleSet) : Extends before after [] where
  facts := by rw [same]
  rules := by rw [same]
  keeps relation shape isShape := by rw [same, isShape]
  knows_iff relation := by simp [same]
  agrees _ member := by cases member

/-- Growth composes. -/
theorem Extends.trans (first : Extends before middle usages)
    (second : Extends middle after more) : Extends before after (usages ++ more) where
  facts := second.facts.trans first.facts
  rules := second.rules.trans first.rules
  keeps relation shape isShape := second.keeps relation shape (first.keeps relation shape isShape)
  knows_iff relation := by
    rw [second.knows_iff, first.knows_iff, or_assoc]
    simp only [List.mem_append, or_and_right, exists_or]
  agrees usage member := by
    rcases List.mem_append.1 member with inFirst | inSecond
    · exact second.keeps _ _ (first.agrees usage inFirst)
    · exact second.agrees usage inSecond

/-- The order of uses does not matter. -/
theorem Extends.congr (isExtended : Extends before after usages)
    (same : ∀ usage, usage ∈ more ↔ usage ∈ usages) : Extends before after more where
  facts := isExtended.facts
  rules := isExtended.rules
  keeps := isExtended.keeps
  knows_iff relation := by
    rw [isExtended.knows_iff]
    simp only [same]
  agrees usage member := isExtended.agrees usage ((same usage).1 member)

/-- A chain of two steps succeeds if the second does from where the first ends. -/
theorem run_bind_eq_ok_iff {first : Drafting α} {second : α → Drafting β} {result : β} :
    (first >>= second).run before = .ok (result, after) ↔
      ∃ value middle, first.run before = .ok (value, middle) ∧
        (second value).run middle = .ok (result, after) := by
  rw [StateT.run_bind, bind_eq_ok_iff, Prod.exists]

/-- A step that only gives a result leaves the draft alone. -/
theorem run_pure_eq_ok_iff {value result : α} :
    (pure value : Drafting α).run before = .ok (result, after) ↔
      value = result ∧ before = after := by
  rw [StateT.run_pure, ← Prod.mk.injEq]
  exact ⟨fun same => Except.ok.inj same, congrArg Except.ok⟩

/-- A complaint gives no result. -/
theorem run_complain_ne_ok {fault : Fault} {token : Source.Token} {result : α × Draft} :
    (complain fault token : Drafting α).run before ≠ .ok result := by
  intro impossible
  cases impossible

/-- A translation of terms finds their meaning and leaves the rule set alone. -/
def Finds (translate : Source.Term → Drafting τ) (reads : Source.Term → τ → Prop) : Prop :=
  ∀ ⦃term before result after⦄, (translate term).run before = .ok (result, after) →
    reads term result ∧ after.ruleSet = before.ruleSet

/-- The arguments of facts get their values. -/
theorem finds_translateValue : Finds translateValue ReadsValue := by
  intro term before result after isOk
  cases term with
  | literal token value =>
      obtain ⟨rfl, rfl⟩ := run_pure_eq_ok_iff.1 isOk
      exact ⟨.literal token value, rfl⟩
  | identifier token => exact absurd isOk run_complain_ne_ok
  | wildcard token => exact absurd isOk run_complain_ne_ok

/-- The arguments of heads get their meaning. -/
theorem finds_translateHeadTerm : Finds translateHeadTerm ReadsHeadTerm := by
  intro term before result after isOk
  cases term with
  | literal token value =>
      obtain ⟨rfl, rfl⟩ := run_pure_eq_ok_iff.1 isOk
      exact ⟨.literal token value, rfl⟩
  | identifier token =>
      obtain ⟨rfl, rfl⟩ := run_pure_eq_ok_iff.1 isOk
      exact ⟨.identifier token, rfl⟩
  | wildcard token => exact absurd isOk run_complain_ne_ok

/-- The terms of bodies get their meaning. -/
theorem finds_translateTerm : Finds translateTerm ReadsTerm := by
  intro term before result after isOk
  cases term with
  | literal token value =>
      obtain ⟨rfl, rfl⟩ := run_pure_eq_ok_iff.1 isOk
      exact ⟨.literal token value, rfl⟩
  | identifier token =>
      obtain ⟨rfl, rfl⟩ := run_pure_eq_ok_iff.1 isOk
      exact ⟨.identifier token, rfl⟩
  | wildcard token =>
      rw [translateTerm] at isOk
      split at isOk
      next isAnonymous =>
        cases isOk
        exact ⟨.anonymous token isAnonymous _, rfl⟩
      next isNamed =>
        obtain ⟨rfl, rfl⟩ := run_pure_eq_ok_iff.1 isOk
        exact ⟨.wildcard token isNamed, rfl⟩

variable {translate : Source.Term → Drafting τ} {reads : Source.Term → τ → Prop}

/-- Terms get their meaning one after the other. -/
theorem Finds.mapM (finds : Finds translate reads) {terms : List Source.Term}
    {results : List τ} (isOk : (terms.mapM translate).run before = .ok (results, after)) :
    List.Forall₂ reads terms results ∧ after.ruleSet = before.ruleSet := by
  induction terms generalizing results before with
  | nil =>
      obtain ⟨rfl, rfl⟩ := run_pure_eq_ok_iff.1 isOk
      exact ⟨.nil, rfl⟩
  | cons term terms inductionHypothesis =>
      rw [List.mapM_cons] at isOk
      obtain ⟨result, middle, isFirst, isOk⟩ := run_bind_eq_ok_iff.1 isOk
      obtain ⟨others, last, areOthers, isOk⟩ := run_bind_eq_ok_iff.1 isOk
      obtain ⟨rfl, rfl⟩ := run_pure_eq_ok_iff.1 isOk
      obtain ⟨isRead, sameFirst⟩ := finds isFirst
      obtain ⟨areRead, sameOthers⟩ := inductionHypothesis areOthers
      exact ⟨.cons isRead areRead, sameOthers.trans sameFirst⟩

/-- Named arguments get their meaning one after the other, and no name is repeated. -/
theorem Finds.addFields (finds : Finds translate reads) {relation : Source.Token}
    {fields : List (Source.Token × Source.Term)} {record result : Record τ}
    (isOk : (addFields relation translate fields record).run before = .ok (result, after)) :
    ∃ results : List (String × τ), List.Forall₂ (fun field result =>
        field.1.lexeme = result.1 ∧ reads field.2 result.2) fields results ∧
      ((results.map Prod.fst).Nodup ∧
        ∀ name ∈ results.map Prod.fst, ¬ record.hasField name = true) ∧
      result = results.foldl (fun record entry => record.set entry.1 entry.2) record ∧
      after.ruleSet = before.ruleSet := by
  induction fields generalizing record before with
  | nil =>
      obtain ⟨rfl, rfl⟩ := run_pure_eq_ok_iff.1 isOk
      exact ⟨[], .nil, ⟨.nil, by simp⟩, rfl, rfl⟩
  | cons field fields inductionHypothesis =>
      obtain ⟨field, term⟩ := field
      obtain ⟨value, middle, isFirst, isOk⟩ := run_bind_eq_ok_iff.1 isOk
      split at isOk
      next => exact absurd isOk run_complain_ne_ok
      next isNew =>
        obtain ⟨isRead, sameFirst⟩ := finds isFirst
        obtain ⟨results, areRead, ⟨distinct, areNew⟩, isResult, sameOthers⟩ :=
          inductionHypothesis isOk
        refine ⟨(field.lexeme, value) :: results, .cons ⟨rfl, isRead⟩ areRead, ⟨?_, ?_⟩,
          isResult, sameOthers.trans sameFirst⟩
        · refine List.nodup_cons.2 ⟨fun repeated => ?_, distinct⟩
          exact areNew field.lexeme repeated (Record.hasField_set.2 (.inl rfl))
        · refine List.forall_mem_cons.2 ⟨isNew, fun name member present => ?_⟩
          exact areNew name member (Record.hasField_set.2 (.inr present))

/-- A use of a relation agrees with its shape, and is the only thing that is declared. -/
theorem extends_of_useShape {relation : Source.Token} {used : Shape}
    (isOk : (useShape relation used).run before = .ok ((), after)) :
    Extends before after [(relation.lexeme, used)] := by
  obtain ⟨found, middle, isGet, isOk⟩ := run_bind_eq_ok_iff.1 isOk
  cases isGet
  split at isOk
  next isNew =>
    cases isOk
    constructor
    · rfl
    · rfl
    · intro other shape isShape
      exact (RuleSet.shapeOf?_declare _ _ _ _).trans (by rw [isShape]; rfl)
    · intro other
      simpa using RuleSet.knows_declare_iff
    · intro usage member
      rw [List.mem_singleton.1 member]
      exact (RuleSet.shapeOf?_declare _ _ _ _).trans (by rw [isNew, if_pos rfl]; rfl)
  next declared isDeclared =>
    split at isOk
    next => exact absurd isOk run_complain_ne_ok
    next agrees =>
      obtain ⟨-, rfl⟩ := run_pure_eq_ok_iff.1 isOk
      rw [ne_eq, not_not] at agrees
      subst agrees
      refine ⟨rfl, rfl, fun _ _ => id, fun other => ?_, ?_⟩
      · refine (or_iff_left_of_imp ?_).symm
        rintro ⟨usage, member, rfl⟩
        rw [List.mem_singleton.1 member]
        exact ⟨_, isDeclared⟩
      · intro usage member
        rw [List.mem_singleton.1 member, isDeclared]

/-- An atom gets its meaning, and its relation is used in its shape. -/
theorem Finds.translateAtom (finds : Finds translate reads) {source : Source.Atom}
    {atom : AtomOf τ} (isOk : (translateAtom translate source).run before = .ok (atom, after)) :
    ReadsAtom reads source atom ∧ Extends before after [(atom.relation, atom.shape)] := by
  suffices exists_args : ∃ args middle,
      (ReadsArgs reads source.args args ∧ middle.ruleSet = before.ruleSet) ∧
        ((useShape source.relation args.shape >>= fun _ =>
          pure ⟨source.relation.lexeme, args⟩ : Drafting (AtomOf τ))).run middle =
            .ok (atom, after) by
    obtain ⟨args, middle, ⟨areRead, same⟩, isOk⟩ := exists_args
    obtain ⟨_, last, isUse, isOk⟩ := run_bind_eq_ok_iff.1 isOk
    obtain ⟨rfl, rfl⟩ := run_pure_eq_ok_iff.1 isOk
    exact ⟨⟨rfl, areRead⟩, (Extends.of_eq same).trans (extends_of_useShape isUse)⟩
  obtain ⟨relation, args⟩ := source
  cases args with
  | ordered terms =>
      obtain ⟨args, middle, isArgs, isOk⟩ := run_bind_eq_ok_iff.1 isOk
      rw [map_eq_pure_bind] at isArgs
      obtain ⟨results, last, areResults, isArgs⟩ := run_bind_eq_ok_iff.1 isArgs
      obtain ⟨rfl, rfl⟩ := run_pure_eq_ok_iff.1 isArgs
      obtain ⟨areRead, same⟩ := finds.mapM areResults
      exact ⟨_, _, ⟨.ordered areRead, same⟩, isOk⟩
  | named fields =>
      obtain ⟨args, middle, isArgs, isOk⟩ := run_bind_eq_ok_iff.1 isOk
      rw [map_eq_pure_bind] at isArgs
      obtain ⟨record, last, isRecord, isArgs⟩ := run_bind_eq_ok_iff.1 isArgs
      obtain ⟨rfl, rfl⟩ := run_pure_eq_ok_iff.1 isArgs
      obtain ⟨results, areRead, ⟨distinct, _⟩, rfl, same⟩ := finds.addFields isRecord
      exact ⟨_, _, ⟨.named areRead distinct, same⟩, isOk⟩

/-- A comparison gets its meaning and leaves the rule set alone. -/
theorem readsConstraint_of_translateComparison {left right : Source.Term}
    {operator : Source.Token} {constraint : Constraint}
    (isOk : (translateComparison left operator right).run before = .ok (constraint, after)) :
    ReadsConstraint left operator right constraint ∧ after.ruleSet = before.ruleSet := by
  cases left with
  | literal token value => exact absurd isOk run_complain_ne_ok
  | wildcard token => exact absurd isOk run_complain_ne_ok
  | identifier name =>
      rw [translateComparison] at isOk
      split at isOk
      next comparison isOperator =>
        have finish (noWildcard : ∀ token, right ≠ .wildcard token)
            (isOk : (translateTerm right >>= fun operand =>
              pure ⟨name.lexeme, comparison, operand⟩ : Drafting Constraint).run before =
                .ok (constraint, after)) :
            ReadsConstraint (.identifier name) operator right constraint ∧
              after.ruleSet = before.ruleSet := by
          obtain ⟨operand, middle, isOperand, isOk⟩ := run_bind_eq_ok_iff.1 isOk
          obtain ⟨rfl, rfl⟩ := run_pure_eq_ok_iff.1 isOk
          obtain ⟨isRead, same⟩ := finds_translateTerm isOperand
          exact ⟨.comparison name operator isOperator isRead noWildcard, same⟩
        cases right with
        | wildcard token => exact absurd isOk run_complain_ne_ok
        | literal token value => exact finish (fun _ => by simp) isOk
        | identifier token => exact finish (fun _ => by simp) isOk
      next => exact absurd isOk run_complain_ne_ok

/-- The parts of a body get their meaning one after the other. -/
theorem readsBody_of_addLiterals {body : List Source.Literal} {rule result : Rule}
    (isOk : (addLiterals body rule).run before = .ok (result, after)) :
    ∃ positive negative constraints, ReadsBody body positive negative constraints ∧
      result = ⟨rule.head, rule.positive ++ positive, rule.negative ++ negative,
        rule.constraints ++ constraints⟩ ∧
      Extends before after
        ((positive ++ negative).map fun atom => (atom.relation, atom.shape)) := by
  induction body generalizing rule before with
  | nil =>
      obtain ⟨rfl, rfl⟩ := run_pure_eq_ok_iff.1 isOk
      exact ⟨[], [], [], .nil, by simp, .of_eq rfl⟩
  | cons literal body inductionHypothesis =>
      cases literal with
      | positive source =>
          obtain ⟨atom, middle, isAtom, isOk⟩ := run_bind_eq_ok_iff.1 isOk
          obtain ⟨isRead, first⟩ := finds_translateTerm.translateAtom isAtom
          obtain ⟨positive, negative, constraints, areRead, rfl, others⟩ :=
            inductionHypothesis isOk
          refine ⟨atom :: positive, negative, constraints, .positive isRead areRead, by simp, ?_⟩
          simpa using first.trans others
      | negated source =>
          obtain ⟨atom, middle, isAtom, isOk⟩ := run_bind_eq_ok_iff.1 isOk
          obtain ⟨isRead, first⟩ := finds_translateTerm.translateAtom isAtom
          obtain ⟨positive, negative, constraints, areRead, rfl, others⟩ :=
            inductionHypothesis isOk
          refine ⟨positive, atom :: negative, constraints, .negated isRead areRead, by simp, ?_⟩
          refine (first.trans others).congr fun usage => ?_
          simp only [List.map_append, List.map_cons, List.mem_append, List.mem_cons,
            List.not_mem_nil, or_false, or_left_comm]
      | comparison left operator right =>
          obtain ⟨constraint, middle, isConstraint, isOk⟩ := run_bind_eq_ok_iff.1 isOk
          obtain ⟨isRead, same⟩ := readsConstraint_of_translateComparison isConstraint
          obtain ⟨positive, negative, constraints, areRead, rfl, others⟩ :=
            inductionHypothesis isOk
          refine ⟨positive, negative, constraint :: constraints, .comparison isRead areRead,
            by simp, ?_⟩
          exact (Extends.of_eq same).trans others

/-- A rule gets its meaning, its relations are used in their shapes, and it is safe. -/
theorem readsRule_of_translateRule {head : Source.Atom} {body : List Source.Literal}
    {rule : Rule} (isOk : (translateRule head body).run before = .ok (rule, after)) :
    ReadsRule head body rule ∧ Extends before after rule.usages ∧ rule.Safe := by
  obtain ⟨translatedHead, middle, isHead, isOk⟩ := run_bind_eq_ok_iff.1 isOk
  obtain ⟨found, last, isBody, isOk⟩ := run_bind_eq_ok_iff.1 isOk
  split at isOk
  next => exact absurd isOk run_complain_ne_ok
  next isSafe =>
    obtain ⟨rfl, rfl⟩ := run_pure_eq_ok_iff.1 isOk
    obtain ⟨headIsRead, first⟩ := finds_translateHeadTerm.translateAtom isHead
    obtain ⟨positive, negative, constraints, areRead, rfl, others⟩ :=
      readsBody_of_addLiterals isBody
    exact ⟨⟨headIsRead, areRead⟩, first.trans others, Rule.unboundVariable?_eq_none_iff.1 isSafe⟩

end Steps

/-- A draft is what clauses mean: exactly the relations in use have a shape, with which every
use agrees, and facts and rules are those of the clauses. -/
structure Means (draft : Draft) (clauses : List Source.Clause) : Prop where
  declared : draft.ruleSet.Declared
  consistent : draft.ruleSet.Consistent
  facts : ∀ fact ∈ draft.ruleSet.facts.toList, ∃ source, .fact source ∈ clauses ∧
    ∃ atom : AtomOf Value, ReadsAtom ReadsValue source atom ∧
      fact = ⟨atom.relation, atom.terms⟩ ∧ draft.ruleSet.shapeOf? atom.relation = some atom.shape
  rules : ∀ rule ∈ draft.ruleSet.rules.toList, ∃ head body, .rule head body ∈ clauses ∧
    ReadsRule head body rule

section Clauses

variable {before middle after : Draft} {usages : List (String × Shape)}
  {clauses : List Source.Clause} {clause : Source.Clause}

/-- A relation in use keeps its shape. -/
theorem Extends.shapeOf?_eq (isExtended : Extends before after usages) {relation : String}
    (known : before.ruleSet.Knows relation) :
    after.ruleSet.shapeOf? relation = before.ruleSet.shapeOf? relation := by
  obtain ⟨shape, isShape⟩ := known
  rw [isShape, isExtended.keeps relation shape isShape]

/-- One more fact or rule whose uses have been declared belongs to the meaning of one more
clause. -/
theorem Means.extend (means : before.Means clauses) (isExtended : Extends before middle usages)
    (sameShapes : ∀ relation,
      after.ruleSet.shapeOf? relation = middle.ruleSet.shapeOf? relation)
    (uses_iff : ∀ relation, after.ruleSet.Uses relation ↔
      before.ruleSet.Uses relation ∨ ∃ usage ∈ usages, usage.1 = relation)
    (facts : ∀ fact ∈ after.ruleSet.facts.toList, fact ∈ before.ruleSet.facts.toList ∨
      ∃ source, clause = .fact source ∧ ∃ atom : AtomOf Value, ReadsAtom ReadsValue source atom ∧
        fact = ⟨atom.relation, atom.terms⟩ ∧ (atom.relation, atom.shape) ∈ usages)
    (rules : ∀ rule ∈ after.ruleSet.rules.toList, rule ∈ before.ruleSet.rules.toList ∨
      ∃ head body, clause = .rule head body ∧ ReadsRule head body rule ∧ rule.usages = usages ∧
        rule.Safe) :
    after.Means (clauses ++ [clause]) := by
  have keeps {relation : String} (used : before.ruleSet.Uses relation) :
      after.ruleSet.shapeOf? relation = before.ruleSet.shapeOf? relation :=
    (sameShapes relation).trans (isExtended.shapeOf?_eq ((means.declared relation).2 used))
  have agrees {usage : String × Shape} (member : usage ∈ usages) :
      after.ruleSet.shapeOf? usage.1 = some usage.2 :=
    (sameShapes usage.1).trans (isExtended.agrees usage member)
  constructor
  · intro relation
    rw [uses_iff, ← means.declared relation, ← isExtended.knows_iff, RuleSet.Knows, sameShapes]
    rfl
  · constructor
    · intro fact member shape isShape
      rcases facts fact member with old | ⟨source, _, atom, _, rfl, isUsage⟩
      · rw [keeps (.inl ⟨fact, old, rfl⟩)] at isShape
        exact means.consistent.facts fact old shape isShape
      · obtain rfl := Option.some.inj ((agrees isUsage).symm.trans isShape)
        exact Args.arity_shape atom.args
    · intro rule member usage isUsage shape isShape
      rcases rules rule member with old | ⟨_, _, _, _, rfl, _⟩
      · rw [keeps (.inr ⟨rule, old, usage, isUsage, rfl⟩)] at isShape
        exact means.consistent.usages rule old usage isUsage shape isShape
      · exact (Option.some.inj ((agrees isUsage).symm.trans isShape)).symm
    · intro rule member
      rcases rules rule member with old | ⟨_, _, _, _, _, safe⟩
      · exact means.consistent.safe rule old
      · exact safe
  · intro fact member
    rcases facts fact member with old | ⟨source, rfl, atom, isRead, isFact, isUsage⟩
    · obtain ⟨source, isSource, atom, isRead, rfl, isShape⟩ := means.facts fact old
      refine ⟨source, List.mem_append_left _ isSource, atom, isRead, rfl, ?_⟩
      exact (keeps (.inl ⟨_, old, rfl⟩)).trans isShape
    · exact ⟨source, by simp, atom, isRead, isFact, agrees isUsage⟩
  · intro rule member
    rcases rules rule member with old | ⟨head, body, rfl, isRead, _⟩
    · obtain ⟨head, body, isSource, isRead⟩ := means.rules rule old
      exact ⟨head, body, List.mem_append_left _ isSource, isRead⟩
    · exact ⟨head, body, by simp, isRead⟩

/-- Relations in use do not depend on the shapes. -/
theorem Extends.uses_iff (isExtended : Extends before after usages) {relation : String} :
    after.ruleSet.Uses relation ↔ before.ruleSet.Uses relation := by
  rw [RuleSet.Uses, isExtended.facts, isExtended.rules]
  rfl

/-- Each clause adds its meaning to that of the clauses before it. -/
theorem Means.addClause (means : before.Means clauses)
    (isOk : (addClause clause).run before = .ok ((), after)) :
    after.Means (clauses ++ [clause]) := by
  cases clause with
  | fact source =>
      obtain ⟨atom, middle, isAtom, isOk⟩ := run_bind_eq_ok_iff.1 isOk
      cases isOk
      obtain ⟨isRead, isExtended⟩ := finds_translateValue.translateAtom isAtom
      have known : middle.ruleSet.Knows atom.relation :=
        (isExtended.knows_iff _).2 (.inr ⟨_, List.mem_cons_self, rfl⟩)
      refine means.extend isExtended ?_ ?_ ?_ ?_
      · exact RuleSet.shapeOf?_declare_of_knows known _
      · intro relation
        refine RuleSet.uses_addFact_iff.trans ?_
        rw [isExtended.uses_iff]
        simp
      · intro fact member
        change fact ∈ (middle.ruleSet.facts.insert _).toList at member
        rw [OrderedSet.toList_insert, isExtended.facts] at member
        split at member
        next => exact .inl member
        next =>
          refine (List.mem_append.1 member).imp_right fun isNew => ?_
          exact ⟨source, rfl, atom, isRead, List.mem_singleton.1 isNew, List.mem_cons_self⟩
      · intro rule member
        exact .inl (isExtended.rules ▸ member)
  | rule head body =>
      obtain ⟨rule, middle, isRule, isOk⟩ := run_bind_eq_ok_iff.1 isOk
      cases isOk
      obtain ⟨isRead, isExtended, safe⟩ := readsRule_of_translateRule isRule
      refine means.extend isExtended ?_ ?_ ?_ ?_
      · intro relation
        refine (RuleSet.shapeOf?_addRule middle.ruleSet rule relation).trans ?_
        exact RuleSet.shapeOf?_foldl_declare
          (fun usage member => ⟨_, isExtended.agrees usage member⟩) relation
      · intro relation
        refine RuleSet.uses_addRule_iff.trans ?_
        rw [isExtended.uses_iff]
      · intro fact member
        change fact ∈ (middle.ruleSet.addRule rule).1.facts.toList at member
        rw [RuleSet.facts_addRule, isExtended.facts] at member
        exact .inl member
      · intro other member
        change other ∈ (middle.ruleSet.addRule rule).1.rules.toList at member
        rw [RuleSet.rules_addRule, isExtended.rules] at member
        split at member
        next => exact .inl member
        next =>
          refine (List.mem_append.1 member).imp_right fun isNew => ?_
          obtain rfl := List.mem_singleton.1 isNew
          exact ⟨head, body, rfl, isRead, rfl, safe⟩

/-- Clauses add their meaning to that of the clauses before them. -/
theorem Means.forM (means : before.Means clauses) {more : List Source.Clause}
    (isOk : (more.forM Draft.addClause).run before = .ok ((), after)) :
    after.Means (clauses ++ more) := by
  induction more generalizing clauses before with
  | nil =>
      obtain ⟨-, rfl⟩ := run_pure_eq_ok_iff.1 isOk
      simpa using means
  | cons clause more inductionHypothesis =>
      obtain ⟨_, middle, isFirst, isOk⟩ := run_bind_eq_ok_iff.1 isOk
      simpa using inductionHypothesis (means.addClause isFirst) isOk

/-- The draft of clauses is what they mean. -/
theorem means_of_ofClauses {draft : Draft} (isOk : ofClauses clauses = .ok draft) :
    draft.Means clauses := by
  obtain ⟨⟨_, found⟩, isRun, isOk⟩ := bind_eq_ok_iff.1 isOk
  cases isOk
  have noFact (fact : Fact) : fact ∉ empty.ruleSet.facts.toList := List.not_mem_nil
  have noRule (rule : Rule) : rule ∉ empty.ruleSet.rules.toList := List.not_mem_nil
  have begin : empty.Means [] := by
    constructor
    · exact RuleSet.declared_empty
    · constructor
      · exact fun fact member => absurd member (noFact fact)
      · exact fun rule member => absurd member (noRule rule)
      · exact fun rule member => absurd member (noRule rule)
    · exact fun fact member => absurd member (noFact fact)
    · exact fun rule member => absurd member (noRule rule)
  exact begin.forM isRun

end Clauses

end Draft

namespace RuleSet

/-- A rule set that is compiled is what the clauses of the source mean. -/
theorem exists_means_of_compile {source : String} {ruleSet : RuleSet}
    (compiled : compile source = .ok ruleSet) :
    ∃ clauses draft, Source.parse source = .ok clauses ∧ draft.ruleSet = ruleSet ∧
      Draft.Means draft clauses ∧ ∃ stratification, stratify ruleSet = .ok stratification := by
  obtain ⟨clauses, isParsed, isCompiled⟩ := bind_eq_ok_iff.1 compiled
  obtain ⟨draft, isDraft, isCompiled⟩ := bind_eq_ok_iff.1 isCompiled
  have means := Draft.means_of_ofClauses (mapError_eq_ok_iff.1 isDraft)
  split at isCompiled
  next stratification accepted =>
    cases isCompiled
    exact ⟨clauses, draft, isParsed, rfl, means, stratification, accepted⟩
  next => cases isCompiled

end RuleSet

end Datalog
