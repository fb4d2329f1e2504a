import Datalog.Proofs.RuleSet.Statements

/-!
# Which clauses are accepted

The translation goes through whenever there is something to find: if every clause states a
fact or a safe rule, and no relation is used in two shapes, then there is a draft of the
clauses (`Draft.exists_ofClauses_iff`). What has been declared before matters to a step only
through the shapes in all of the statements, so each step is shown to go through from any
draft within these.
-/

namespace Datalog

namespace Draft

/-- No relation is used in two shapes. -/
def Agree (usages : List (String × Shape)) : Prop :=
  ∀ first ∈ usages, ∀ second ∈ usages, first.1 = second.1 → first.2 = second.2

/-- A draft knows no shape but those of some uses. -/
def Within (draft : Draft) (usages : List (String × Shape)) : Prop :=
  ∀ relation shape, draft.ruleSet.shapeOf? relation = some shape → (relation, shape) ∈ usages

section Steps

variable {τ : Type} {before after : Draft} {all usages : List (String × Shape)}

/-- A draft that grows by some of the uses stays within them. -/
theorem Within.extend (within : before.Within all) (isExtended : Extends before after usages)
    (included : usages ⊆ all) : after.Within all := by
  intro relation shape isShape
  rcases isExtended.shapeOf?_iff.1 isShape with isOld | isUsed
  · exact within relation shape isOld
  · exact included isUsed

/-- A translation of terms finds something wherever there is something to find. -/
def Answers (translate : Source.Term → Drafting τ) (reads : Source.Term → τ → Prop) : Prop :=
  ∀ ⦃term result⦄, reads term result → ∀ before, ∃ found after,
    (translate term).run before = .ok (found, after)

/-- The arguments of facts that are values are found. -/
theorem answers_translateValue : Answers translateValue ReadsValue := by
  intro term result isRead before
  cases isRead
  exact ⟨_, _, rfl⟩

/-- The arguments of heads that are constants or variables are found. -/
theorem answers_translateHeadTerm : Answers translateHeadTerm ReadsHeadTerm := by
  intro term result isRead before
  cases isRead <;> exact ⟨_, _, rfl⟩

/-- All terms of bodies are found. -/
theorem answers_translateTerm : Answers translateTerm ReadsTerm := by
  intro term result isRead before
  cases isRead with
  | literal => exact ⟨_, _, rfl⟩
  | identifier => exact ⟨_, _, rfl⟩
  | wildcard token isNamed => exact ⟨_, _, by rw [translateTerm, if_neg isNamed]; rfl⟩
  | anonymous token isAnonymous => exact ⟨_, _, by rw [translateTerm, if_pos isAnonymous]; rfl⟩

variable {translate : Source.Term → Drafting τ} {reads : Source.Term → τ → Prop}

/-- Terms are found one after the other. -/
theorem Answers.mapM (answers : Answers translate reads) {terms : List Source.Term}
    {results : List τ} (areRead : List.Forall₂ reads terms results) (before : Draft) :
    ∃ found after, (terms.mapM translate).run before = .ok (found, after) := by
  induction areRead generalizing before with
  | nil => exact ⟨_, _, rfl⟩
  | cons isRead _ inductionHypothesis =>
      obtain ⟨first, middle, isFirst⟩ := answers isRead before
      obtain ⟨others, after, areOthers⟩ := inductionHypothesis middle
      refine ⟨first :: others, after, ?_⟩
      rw [List.mapM_cons]
      exact run_bind_eq_ok_iff.2 ⟨first, middle, isFirst,
        run_bind_eq_ok_iff.2 ⟨others, after, areOthers, rfl⟩⟩

/-- Named arguments are found one after the other if no name is repeated. -/
theorem Answers.addFields (answers : Answers translate reads) (relation : Source.Token)
    {fields : List (Source.Token × Source.Term)} {results : List (String × τ)}
    (areRead : List.Forall₂ (fun field result =>
      field.1.lexeme = result.1 ∧ reads field.2 result.2) fields results)
    (distinct : (results.map Prod.fst).Nodup) (record : Record τ)
    (areNew : ∀ name ∈ results.map Prod.fst, ¬ record.hasField name = true) (before : Draft) :
    ∃ found after, (addFields relation translate fields record).run before =
      .ok (found, after) := by
  induction areRead generalizing record before with
  | nil => exact ⟨_, _, rfl⟩
  | @cons field result fields results isRead _ inductionHypothesis =>
      obtain ⟨isFirst, distinct⟩ := List.nodup_cons.1 distinct
      obtain ⟨isNew, areNew⟩ := List.forall_mem_cons.1 areNew
      rw [← isRead.1] at isFirst isNew
      obtain ⟨value, middle, isValue⟩ := answers isRead.2 before
      have stillNew : ∀ name ∈ results.map Prod.fst,
          ¬ (record.set field.1.lexeme value).hasField name = true := by
        intro name member present
        rcases Record.hasField_set.1 present with rfl | isOld
        · exact isFirst member
        · exact areNew name member isOld
      obtain ⟨found, after, isFound⟩ := inductionHypothesis distinct _ stillNew middle
      refine ⟨found, after, run_bind_eq_ok_iff.2 ⟨value, middle, isValue, ?_⟩⟩
      rw [if_neg isNew]
      exact isFound

/-- A use in the shape that its relation has, if any, is accepted. -/
theorem exists_useShape {relation : Source.Token} {used : Shape}
    (fits : ∀ shape, before.ruleSet.shapeOf? relation.lexeme = some shape → shape = used) :
    ∃ after, (useShape relation used).run before = .ok ((), after) := by
  cases isShape : before.ruleSet.shapeOf? relation.lexeme with
  | none =>
      refine ⟨{ before with ruleSet := before.ruleSet.declare relation.lexeme used },
        run_bind_eq_ok_iff.2 ⟨before, before, rfl, ?_⟩⟩
      simp only [isShape]
      rfl
  | some declared =>
      refine ⟨before, run_bind_eq_ok_iff.2 ⟨before, before, rfl, ?_⟩⟩
      simp only [isShape, fits declared isShape, ne_eq, not_true_eq_false, if_false]
      rfl

variable [Canonical τ]

/-- An atom is found, and its relation is used in the shape that the atom has. -/
theorem Answers.translateAtom (answers : Answers translate reads) (finds : Finds translate reads)
    (settles : Settles canonical reads) {source : Source.Atom} {atom : AtomOf τ}
    (isRead : ReadsAtom reads source atom) (agree : Agree all)
    (isUsed : (atom.relation, atom.shape) ∈ all) (within : before.Within all) :
    ∃ found after, (translateAtom translate source).run before = .ok (found, after) ∧
      ReadsAtom reads source found ∧ after.Within all := by
  suffices goesThrough : ∃ found after,
      (Draft.translateAtom translate source).run before = .ok (found, after) by
    obtain ⟨found, after, isOk⟩ := goesThrough
    obtain ⟨isAlso, isExtended⟩ := finds.translateAtom isOk
    have same := settles.atom isRead isAlso
    refine ⟨found, after, isOk, isAlso, within.extend isExtended ?_⟩
    rw [← AtomOf.relation_congr same, ← AtomOf.shape_congr same]
    exact List.cons_subset.2 ⟨isUsed, List.nil_subset _⟩
  -- The shape of what is found is that of the atom, so the draft can know no other one.
  have finish {args : Args τ} {middle : Draft} (isArgs : ReadsArgs reads source.args args)
      (sameRuleSet : middle.ruleSet = before.ruleSet) : ∃ found after,
      (useShape source.relation args.shape >>= fun _ =>
        pure ⟨source.relation.lexeme, args⟩ : Drafting (AtomOf τ)).run middle =
          .ok (found, after) := by
    have sameShape : args.shape = atom.shape :=
      AtomOf.shape_congr (settles.atom ⟨rfl, isArgs⟩ isRead :
        canonical (⟨source.relation.lexeme, args⟩ : AtomOf τ) = canonical atom)
    have fits : ∀ shape, middle.ruleSet.shapeOf? source.relation.lexeme = some shape →
        shape = args.shape := by
      intro shape isShape
      rw [sameRuleSet, ← isRead.relation] at isShape
      rw [sameShape]
      exact agree _ (within _ _ isShape) _ isUsed rfl
    obtain ⟨after, isUse⟩ := exists_useShape fits
    exact ⟨_, after, run_bind_eq_ok_iff.2 ⟨(), after, isUse, rfl⟩⟩
  obtain ⟨relation, args⟩ := source
  obtain ⟨_, results⟩ := atom
  obtain ⟨isRelation, isArgs⟩ := isRead
  cases isArgs with
  | ordered areRead =>
      obtain ⟨results, middle, areResults⟩ := answers.mapM areRead before
      obtain ⟨areRead, same⟩ := finds.mapM areResults
      obtain ⟨found, after, isFound⟩ := finish (.ordered areRead) same
      refine ⟨found, after, run_bind_eq_ok_iff.2 ⟨_, middle, ?_, isFound⟩⟩
      rw [map_eq_pure_bind]
      exact run_bind_eq_ok_iff.2 ⟨results, middle, areResults, rfl⟩
  | named areRead distinct =>
      obtain ⟨record, middle, isRecord⟩ := answers.addFields relation areRead distinct .empty
        (fun name _ present => by cases present) before
      obtain ⟨results, areRead, ⟨distinct, _⟩, rfl, same⟩ := finds.addFields isRecord
      obtain ⟨found, after, isFound⟩ := finish (.named areRead distinct) same
      refine ⟨found, after, run_bind_eq_ok_iff.2 ⟨_, middle, ?_, isFound⟩⟩
      rw [map_eq_pure_bind]
      exact run_bind_eq_ok_iff.2 ⟨_, middle, isRecord, rfl⟩

end Steps

section Clauses

variable {before after : Draft} {all : List (String × Shape)}

/-- A comparison between a variable and a term that is no wildcard is found. -/
theorem exists_translateComparison {left right : Source.Term} {operator : Source.Token}
    {constraint : Constraint} (isRead : ReadsConstraint left operator right constraint)
    (before : Draft) : ∃ found after,
      (translateComparison left operator right).run before = .ok (found, after) := by
  cases isRead with
  | @comparison name _ _ comparison _ isOperator isRead noWildcard =>
      have skipped : translateComparison (.identifier name) operator right =
          translateTerm right >>= fun operand => pure ⟨name.lexeme, comparison, operand⟩ := by
        rw [translateComparison, isOperator]
        cases right with
        | wildcard token => exact absurd rfl (noWildcard token)
        | literal => rfl
        | identifier => rfl
      obtain ⟨operand, after, isOperand⟩ := answers_translateTerm isRead before
      rw [skipped]
      exact ⟨_, after, run_bind_eq_ok_iff.2 ⟨operand, after, isOperand, rfl⟩⟩

/-- The parts of a body are found one after the other. -/
theorem exists_addLiterals {body : List Source.Literal} {positive negative : List Atom}
    {constraints : List Constraint} (areRead : ReadsBody body positive negative constraints)
    (agree : Agree all)
    (areUsed : ∀ atom ∈ positive ++ negative, (atom.relation, atom.shape) ∈ all)
    (within : before.Within all) (rule : Rule) :
    ∃ found after, (addLiterals body rule).run before = .ok (found, after) := by
  induction areRead generalizing before rule with
  | nil => exact ⟨_, _, rfl⟩
  | positive isAtom _ inductionHypothesis =>
      obtain ⟨isUsed, areUsed⟩ := List.forall_mem_cons.1 areUsed
      obtain ⟨atom, middle, isFirst, _, within⟩ := answers_translateTerm.translateAtom
        finds_translateTerm settles_readsTerm isAtom agree isUsed within
      obtain ⟨found, after, areOthers⟩ := inductionHypothesis areUsed within
        { rule with positive := rule.positive ++ [atom] }
      exact ⟨found, after, run_bind_eq_ok_iff.2 ⟨atom, middle, isFirst, areOthers⟩⟩
  | negated isAtom _ inductionHypothesis =>
      obtain ⟨isUsed, areUsed⟩ := List.forall_mem_cons.1
        fun atom member => areUsed atom (List.perm_middle.mem_iff.2 member)
      obtain ⟨atom, middle, isFirst, _, within⟩ := answers_translateTerm.translateAtom
        finds_translateTerm settles_readsTerm isAtom agree isUsed within
      obtain ⟨found, after, areOthers⟩ := inductionHypothesis areUsed within
        { rule with negative := rule.negative ++ [atom] }
      exact ⟨found, after, run_bind_eq_ok_iff.2 ⟨atom, middle, isFirst, areOthers⟩⟩
  | comparison isConstraint _ inductionHypothesis =>
      obtain ⟨constraint, middle, isFirst⟩ := exists_translateComparison isConstraint before
      have same := (readsConstraint_of_translateComparison isFirst).2
      obtain ⟨found, after, areOthers⟩ := inductionHypothesis areUsed
        (within.extend (.of_eq same) (List.nil_subset all))
        { rule with constraints := rule.constraints ++ [constraint] }
      exact ⟨found, after, run_bind_eq_ok_iff.2 ⟨constraint, middle, isFirst, areOthers⟩⟩

/-- A rule that is safe is found. -/
theorem exists_translateRule {head : Source.Atom} {body : List Source.Literal} {rule : Rule}
    (isRead : ReadsRule head body rule) (safe : rule.Safe) (agree : Agree all)
    (areUsed : rule.usages ⊆ all) (within : before.Within all) :
    ∃ found after, (translateRule head body).run before = .ok (found, after) := by
  obtain ⟨isUsed, areUsed⟩ := List.cons_subset.1 areUsed
  obtain ⟨translatedHead, middle, isHead, headIsRead, within⟩ :=
    answers_translateHeadTerm.translateAtom finds_translateHeadTerm
      (settles_readsHeadTerm canonical) isRead.head agree isUsed within
  obtain ⟨found, after, isBody⟩ := exists_addLiterals isRead.body agree
    (fun atom member => areUsed (List.mem_map_of_mem member)) within ⟨translatedHead, [], [], []⟩
  obtain ⟨positive, negative, constraints, bodyIsRead, isFound, _⟩ :=
    readsBody_of_addLiterals isBody
  -- What is found is equal to the given rule, and so it is safe as well.
  have isSafe : found.Safe := by
    rw [isFound]
    exact Rule.safe_congr (isRead.beq ⟨headIsRead, bodyIsRead⟩) safe
  refine ⟨found, after, run_bind_eq_ok_iff.2 ⟨translatedHead, middle, isHead,
    run_bind_eq_ok_iff.2 ⟨found, after, isBody, ?_⟩⟩⟩
  rw [Rule.unboundVariable?_eq_none_iff.2 isSafe]
  rfl

/-- A clause that states something is accepted. -/
theorem exists_addClause {clause : Source.Clause} {statement : Statement}
    (isRead : ReadsClause clause statement) (agree : Agree all)
    (areUsed : statement.usages ⊆ all) (within : before.Within all) :
    ∃ after, (addClause clause).run before = .ok ((), after) := by
  cases isRead with
  | fact isRead =>
      obtain ⟨atom, middle, isAtom, _⟩ := answers_translateValue.translateAtom
        finds_translateValue (settles_readsValue canonical) isRead agree
        (areUsed (List.mem_singleton_self _)) within
      exact ⟨_, run_bind_eq_ok_iff.2 ⟨atom, middle, isAtom, rfl⟩⟩
  | rule isRead safe =>
      obtain ⟨rule, middle, isRule⟩ := exists_translateRule isRead safe agree areUsed within
      exact ⟨_, run_bind_eq_ok_iff.2 ⟨rule, middle, isRule, rfl⟩⟩

/-- Clauses that state something are accepted if no relation is used in two shapes. -/
theorem exists_forM {clauses : List Source.Clause} {earlier statements : List Statement}
    (areRead : List.Forall₂ ReadsClause clauses statements) (agree : Agree all)
    (areUsed : statements.flatMap Statement.usages ⊆ all) (collects : before.Collects earlier)
    (within : before.Within all) :
    ∃ after, (clauses.forM addClause).run before = .ok ((), after) := by
  induction areRead generalizing before earlier with
  | nil => exact ⟨_, rfl⟩
  | cons isRead _ inductionHypothesis =>
      rw [List.flatMap_cons, List.append_subset] at areUsed
      obtain ⟨middle, isFirst⟩ := exists_addClause isRead agree areUsed.1 within
      obtain ⟨statement, isAlso, collects'⟩ := collects.addClause isFirst
      have within' : middle.Within all := by
        intro relation shape isShape
        have isUsed := (collects'.shapes_iff relation shape).1 isShape
        rw [List.flatMap_append, List.mem_append, List.flatMap_singleton] at isUsed
        rcases isUsed with isOld | isNew
        · exact within relation shape ((collects.shapes_iff relation shape).2 isOld)
        · exact areUsed.1 ((isRead.same isAlso).symm.mem_usages isNew)
      obtain ⟨after, areOthers⟩ := inductionHypothesis areUsed.2 collects' within'
      exact ⟨after, run_bind_eq_ok_iff.2 ⟨(), middle, isFirst, areOthers⟩⟩

/-- Clauses have a draft if all of them state something and no relation is used in two
shapes. -/
theorem exists_ofClauses_iff {clauses : List Source.Clause} :
    (∃ draft, ofClauses clauses = .ok draft) ↔
      ∃ statements, List.Forall₂ ReadsClause clauses statements ∧
        Agree (statements.flatMap Statement.usages) := by
  constructor
  · rintro ⟨draft, isOk⟩
    obtain ⟨statements, areRead, collects⟩ := exists_collects isOk
    refine ⟨statements, areRead, fun first isFirst second isSecond sameRelation => ?_⟩
    have firstShape := (collects.shapes_iff first.1 first.2).2 isFirst
    rw [sameRelation, (collects.shapes_iff second.1 second.2).2 isSecond] at firstShape
    exact (Option.some.inj firstShape).symm
  · rintro ⟨statements, areRead, agree⟩
    have within : empty.Within (statements.flatMap Statement.usages) := by
      intro relation shape isShape
      cases (collects_empty.shapes_iff relation shape).1 isShape
    obtain ⟨draft, isRun⟩ :=
      exists_forM areRead agree (List.Subset.refl _) collects_empty within
    exact ⟨draft, bind_eq_ok_iff.2 ⟨((), draft), isRun, rfl⟩⟩

end Clauses

end Draft

namespace RuleSet

/-- Clauses are compiled if they have a draft whose rules have strata. -/
theorem compileClauses_eq_ok_iff {source : String} {clauses : List Source.Clause}
    {ruleSet : RuleSet} :
    compileClauses source clauses = .ok ruleSet ↔ ∃ draft, Draft.ofClauses clauses = .ok draft ∧
      draft.ruleSet = ruleSet ∧ ∃ stratification, stratify ruleSet = .ok stratification := by
  refine bind_eq_ok_iff.trans (exists_congr fun draft => ?_)
  rw [draftClauses, mapError_eq_ok_iff]
  refine and_congr_right fun _ => ?_
  constructor
  · intro isCompiled
    split at isCompiled
    next stratification accepted =>
      cases isCompiled
      exact ⟨rfl, stratification, accepted⟩
    next => cases isCompiled
  · rintro ⟨rfl, stratification, accepted⟩
    rw [accepted]
    rfl

end RuleSet

end Datalog
