import Datalog.Proofs.RuleSet.Statements

/-!
# Clauses one by one

A draft is put together clause by clause, so it can be taken apart the same way: the draft of
clauses with one more comes from the draft without it (`Draft.ofClauses_concat_eq_ok_iff`).
`Becomes` says what a clause is translated to behind the clauses before it. Every clause of a
draft becomes something (`Draft.exists_becomes`), the rules of a draft are those that clauses
become for the first time, each with the head of its clause (`Draft.hasHeads_of_ofClauses`),
and a complaint is that of the first clause that is refused (`Draft.exists_refused`).
-/

namespace Datalog

/-- A fault of one part of a clause, not of a rule or of rules as a whole. -/
def Fault.IsLocal : Fault → Prop
  | .unsafeVariable _ _ => False
  | .unstratifiable _ => False
  | _ => True

namespace Draft

/-- What a clause is translated to behind the clauses before it. -/
inductive Becomes (earlier : List Source.Clause) : Source.Clause → Statement → Prop where
  | fact {source : Source.Atom} {draft later : Draft} {atom : AtomOf Value}
      (isDraft : ofClauses earlier = .ok draft)
      (isAtom : (translateAtom translateValue source).run draft = .ok (atom, later)) :
      Becomes earlier (.fact source) (.fact atom)
  | rule {head : Source.Atom} {body : List Source.Literal} {draft later : Draft} {rule : Rule}
      (isDraft : ofClauses earlier = .ok draft)
      (isRule : (translateRule head body).run draft = .ok (rule, later)) :
      Becomes earlier (.rule head body) (.rule rule)

section Becomes

variable {earlier : List Source.Clause} {clause : Source.Clause} {statement : Statement}

/-- What a clause becomes is what it states. -/
theorem Becomes.readsClause (becomes : Becomes earlier clause statement) :
    ReadsClause clause statement := by
  cases becomes with
  | fact _ isAtom => exact .fact (finds_translateValue.translateAtom isAtom).1
  | rule _ isRule =>
      obtain ⟨isRead, _, safe⟩ := readsRule_of_translateRule isRule
      exact .rule isRead safe

/-- A clause that is added becomes something. -/
theorem exists_becomes_of_addClause {draft later : Draft} (isDraft : ofClauses earlier = .ok draft)
    (isOk : (addClause clause).run draft = .ok ((), later)) :
    ∃ statement, Becomes earlier clause statement := by
  cases clause with
  | fact source =>
      obtain ⟨atom, middle, isAtom, _⟩ := run_bind_eq_ok_iff.1 isOk
      exact ⟨.fact atom, .fact isDraft isAtom⟩
  | rule head body =>
      obtain ⟨rule, middle, isRule, _⟩ := run_bind_eq_ok_iff.1 isOk
      exact ⟨.rule rule, .rule isDraft isRule⟩

end Becomes

section Local

variable {α β τ : Type} {first : Drafting α} {second : α → Drafting β}
  {translate : Source.Term → Drafting τ}

/-- A chain of two steps fails if the first does or the second does from where it ends. -/
theorem run_bind_eq_error_iff {before : Draft} {complaint : Complaint} :
    (first >>= second).run before = .error complaint ↔
      first.run before = .error complaint ∨
        ∃ value middle, first.run before = .ok (value, middle) ∧
          (second value).run middle = .error complaint := by
  rw [StateT.run_bind, bind_eq_error_iff, Prod.exists]

/-- A step that leaves the heads alone and complains of nothing but one part of a clause. -/
structure IsLocal (step : Drafting α) : Prop where
  heads_eq : ∀ {before result after}, step.run before = .ok (result, after) →
    after.heads = before.heads
  isLocal : ∀ {before complaint}, step.run before = .error complaint → complaint.fault.IsLocal

namespace IsLocal

/-- To give a result is local. -/
theorem pure (result : α) : IsLocal (pure result : Drafting α) :=
  ⟨fun isOk => by cases isOk; rfl, nofun⟩

/-- A complaint about one part of a clause is local. -/
theorem complain {fault : Fault} (isLocal : fault.IsLocal) (token : Source.Token) :
    IsLocal (complain fault token : Drafting α) :=
  ⟨nofun, fun fails => by cases fails; exact isLocal⟩

/-- To look at the draft is local. -/
theorem get : IsLocal (get : Drafting Draft) :=
  ⟨fun isOk => by cases isOk; rfl, nofun⟩

/-- To change other parts of the draft is local. -/
theorem modify {change : Draft → Draft} (keeps : ∀ draft, (change draft).heads = draft.heads) :
    IsLocal (modify change : Drafting Unit) :=
  ⟨fun isOk => by cases isOk; exact keeps _, nofun⟩

/-- Chains of local steps are local. -/
theorem bind (isFirst : IsLocal first) (isSecond : ∀ value, IsLocal (second value)) :
    IsLocal (first >>= second) where
  heads_eq isOk := by
    obtain ⟨value, middle, firstOk, secondOk⟩ := run_bind_eq_ok_iff.1 isOk
    exact ((isSecond value).heads_eq secondOk).trans (isFirst.heads_eq firstOk)
  isLocal fails := by
    rcases run_bind_eq_error_iff.1 fails with firstFails | ⟨value, middle, _, secondFails⟩
    · exact isFirst.isLocal firstFails
    · exact (isSecond value).isLocal secondFails

/-- To apply a function to the result of a local step is local. -/
theorem map (isFirst : IsLocal first) (function : α → β) : IsLocal (function <$> first) := by
  rw [map_eq_pure_bind]
  exact isFirst.bind fun value => .pure (function value)

/-- To translate terms one after the other is local. -/
theorem mapM (isLocal : ∀ term, IsLocal (translate term)) (terms : List Source.Term) :
    IsLocal (terms.mapM translate) := by
  induction terms with
  | nil => exact .pure []
  | cons term terms inductionHypothesis =>
      rw [List.mapM_cons]
      exact (isLocal term).bind fun _ => inductionHypothesis.bind fun _ => .pure _

/-- To translate named arguments is local. -/
theorem addFields (isLocal : ∀ term, IsLocal (translate term)) (relation : Source.Token)
    (fields : List (Source.Token × Source.Term)) (record : Record τ) :
    IsLocal (addFields relation translate fields record) := by
  induction fields generalizing record with
  | nil => exact .pure record
  | cons field fields inductionHypothesis =>
      refine (isLocal field.2).bind fun translated => ?_
      split
      next => exact .complain (by trivial) field.1
      next => exact inductionHypothesis _

/-- To use a relation is local. -/
theorem useShape (relation : Source.Token) (used : Shape) : IsLocal (useShape relation used) := by
  refine IsLocal.get.bind fun draft => ?_
  split
  next => exact .modify fun _ => rfl
  next =>
    split
    next => exact .complain (by trivial) relation
    next => exact .pure ()

/-- To translate an atom is local. -/
theorem translateAtom (isLocal : ∀ term, IsLocal (translate term)) (source : Source.Atom) :
    IsLocal (translateAtom translate source) := by
  have finish (args : Args τ) : IsLocal (Draft.useShape source.relation args.shape >>= fun _ =>
      Pure.pure ⟨source.relation.lexeme, args⟩ : Drafting (AtomOf τ)) :=
    (IsLocal.useShape _ _).bind fun _ => .pure _
  obtain ⟨relation, args⟩ := source
  cases args with
  | ordered terms => exact ((mapM isLocal terms).map _).bind finish
  | named fields => exact ((addFields isLocal relation fields .empty).map _).bind finish

/-- To translate an argument of a fact is local. -/
theorem translateValue (term : Source.Term) : IsLocal (translateValue term) := by
  cases term with
  | literal _ value => exact .pure _
  | identifier token => exact .complain (by trivial) token
  | wildcard token => exact .complain (by trivial) token

/-- To translate an argument of a head is local. -/
theorem translateHeadTerm (term : Source.Term) : IsLocal (translateHeadTerm term) := by
  cases term with
  | literal _ value => exact .pure _
  | identifier token => exact .pure _
  | wildcard token => exact .complain (by trivial) token

/-- To translate a term of a body is local. -/
theorem translateTerm (term : Source.Term) : IsLocal (translateTerm term) := by
  cases term with
  | literal _ value => exact .pure _
  | identifier token => exact .pure _
  | wildcard token =>
      rw [Draft.translateTerm]
      split
      next =>
        refine IsLocal.get.bind fun _ => bind (.modify ?_) fun _ => .pure _
        exact fun _ => rfl
      next => exact .pure _

/-- To translate a comparison is local. -/
theorem translateComparison (left : Source.Term) (operator : Source.Token)
    (right : Source.Term) : IsLocal (translateComparison left operator right) := by
  cases left with
  | literal token value => exact .complain (by trivial) token
  | wildcard token => exact .complain (by trivial) token
  | identifier name =>
      rw [Draft.translateComparison]
      split
      next =>
        have finish (comparison : Comparison) : IsLocal (Draft.translateTerm right >>=
            fun operand => Pure.pure ⟨name.lexeme, comparison, operand⟩ : Drafting Constraint) :=
          (translateTerm right).bind fun _ => .pure _
        cases right with
        | wildcard token => exact .complain (by trivial) token
        | literal => exact finish _
        | identifier => exact finish _
      next => exact .complain (by trivial) operator

/-- To translate a body is local. -/
theorem addLiterals (body : List Source.Literal) (rule : Rule) :
    IsLocal (addLiterals body rule) := by
  induction body generalizing rule with
  | nil => exact .pure rule
  | cons literal body inductionHypothesis =>
      cases literal with
      | positive atom =>
          exact (translateAtom translateTerm atom).bind fun _ => inductionHypothesis _
      | negated atom =>
          exact (translateAtom translateTerm atom).bind fun _ => inductionHypothesis _
      | comparison left operator right =>
          exact (translateComparison left operator right).bind fun _ => inductionHypothesis _

end IsLocal

variable {head : Source.Atom} {body : List Source.Literal} {before : Draft}

/-- The translation of a rule leaves the heads alone. -/
theorem heads_eq_of_translateRule {rule : Rule} {after : Draft}
    (isOk : (translateRule head body).run before = .ok (rule, after)) :
    after.heads = before.heads := by
  obtain ⟨translatedHead, middle, isHead, isOk⟩ := run_bind_eq_ok_iff.1 isOk
  obtain ⟨found, last, isBody, isOk⟩ := run_bind_eq_ok_iff.1 isOk
  have sameHeads := ((IsLocal.addLiterals body _).heads_eq isBody).trans
    ((IsLocal.translateAtom IsLocal.translateHeadTerm head).heads_eq isHead)
  split at isOk
  next => exact absurd isOk run_complain_ne_ok
  next =>
    obtain ⟨rfl, rfl⟩ := run_pure_eq_ok_iff.1 isOk
    exact sameHeads

/-- What is complained of in a rule as a whole: a variable that is unbound in what the rule
means, at a token that names it in the place that needs its value. -/
structure IsUnsafe (head : Source.Atom) (body : List Source.Literal) (name : String)
    (place : Place) (token : Source.Token) : Prop where
  exists_rule : ∃ rule, ReadsRule head body rule ∧ rule.unboundVariable? = some (name, place)
  isToken : token = (occurrence? head body name place).getD head.relation

/-- A clause is refused for one of its parts, or as a rule that is unsafe. -/
theorem isLocal_or_isUnsafe_of_addClause {clause : Source.Clause} {complaint : Complaint}
    (isRefused : (addClause clause).run before = .error complaint) :
    complaint.fault.IsLocal ∨ ∃ head body name place, clause = .rule head body ∧
      complaint.fault = .unsafeVariable name place ∧
        IsUnsafe head body name place complaint.token := by
  cases clause with
  | fact source =>
      rcases run_bind_eq_error_iff.1 isRefused with isRefused | ⟨_, _, _, impossible⟩
      · exact .inl ((IsLocal.translateAtom IsLocal.translateValue source).isLocal isRefused)
      · cases impossible
  | rule head body =>
      rcases run_bind_eq_error_iff.1 isRefused with isRefused | ⟨_, _, _, impossible⟩
      swap
      · cases impossible
      rcases run_bind_eq_error_iff.1 isRefused with isRefused | ⟨_, middle, isHead, isRefused⟩
      · exact .inl ((IsLocal.translateAtom IsLocal.translateHeadTerm head).isLocal isRefused)
      rcases run_bind_eq_error_iff.1 isRefused with isRefused | ⟨rule, last, isBody, isRefused⟩
      · exact .inl ((IsLocal.addLiterals body _).isLocal isRefused)
      split at isRefused
      next name place isUnbound =>
        cases isRefused
        obtain ⟨headIsRead, _⟩ := finds_translateHeadTerm.translateAtom isHead
        obtain ⟨positive, negative, constraints, bodyIsRead, isRule, _⟩ :=
          readsBody_of_addLiterals isBody
        refine .inr ⟨head, body, name, place, rfl, rfl, ⟨rule, ⟨?_, ?_⟩, isUnbound⟩, rfl⟩
        · rw [isRule]
          exact headIsRead
        · rw [isRule]
          exact bodyIsRead
      next => cases isRefused

end Local

section Clauses

variable {clauses : List Source.Clause} {clause : Source.Clause} {draft : Draft}

/-- Clauses with one more are added by adding that one last. -/
theorem forM_concat (clauses : List Source.Clause) (clause : Source.Clause) :
    (clauses ++ [clause]).forM addClause =
      (clauses.forM addClause >>= fun _ => addClause clause) := by
  rw [List.forM_eq_forM, List.forM_append, List.forM_cons, List.forM_nil]
  exact congrArg _ (funext fun _ => bind_pure _)

/-- The draft of clauses is what adding them one after the other leaves. -/
theorem ofClauses_eq_ok_iff :
    ofClauses clauses = .ok draft ↔ (clauses.forM addClause).run empty = .ok ((), draft) := by
  constructor
  · intro isOk
    obtain ⟨⟨_, _⟩, isRun, isOk⟩ := bind_eq_ok_iff.1 isOk
    cases isOk
    exact isRun
  · intro isRun
    exact bind_eq_ok_iff.2 ⟨_, isRun, rfl⟩

/-- There is no draft of clauses if adding them one after the other fails. -/
theorem ofClauses_eq_error_iff {complaint : Complaint} :
    ofClauses clauses = .error complaint ↔
      (clauses.forM addClause).run empty = .error complaint := by
  refine bind_eq_error_iff.trans (or_iff_left ?_)
  rintro ⟨_, _, fails⟩
  cases fails

/-- A draft with one more clause comes from a draft without it. -/
theorem ofClauses_concat_eq_ok_iff :
    ofClauses (clauses ++ [clause]) = .ok draft ↔
      ∃ before, ofClauses clauses = .ok before ∧
        (addClause clause).run before = .ok ((), draft) := by
  rw [ofClauses_eq_ok_iff, forM_concat, run_bind_eq_ok_iff, Unique.exists_iff]
  simp only [ofClauses_eq_ok_iff]

/-- Of clauses with one more, that one is refused or one before it. -/
theorem ofClauses_concat_eq_error_iff {complaint : Complaint} :
    ofClauses (clauses ++ [clause]) = .error complaint ↔
      ofClauses clauses = .error complaint ∨ ∃ before, ofClauses clauses = .ok before ∧
        (addClause clause).run before = .error complaint := by
  rw [ofClauses_eq_error_iff, forM_concat, run_bind_eq_error_iff, ← ofClauses_eq_error_iff,
    Unique.exists_iff]
  simp only [ofClauses_eq_ok_iff]

/-- The clauses before others have a draft if all of them do. -/
theorem exists_ofClauses_of_append {more : List Source.Clause}
    (isOk : ofClauses (clauses ++ more) = .ok draft) :
    ∃ before, ofClauses clauses = .ok before := by
  induction more using List.reverseRecOn generalizing draft with
  | nil => exact ⟨draft, by rwa [List.append_nil] at isOk⟩
  | append_singleton more clause inductionHypothesis =>
      rw [← List.append_assoc] at isOk
      obtain ⟨before, isBefore, _⟩ := ofClauses_concat_eq_ok_iff.1 isOk
      exact inductionHypothesis isBefore

/-- Every clause of a draft becomes something. -/
theorem exists_becomes {earlier later : List Source.Clause}
    (isOk : ofClauses (earlier ++ clause :: later) = .ok draft) :
    ∃ statement, Becomes earlier clause statement := by
  rw [List.append_cons] at isOk
  obtain ⟨after, isAfter⟩ := exists_ofClauses_of_append isOk
  obtain ⟨before, isBefore, isAdded⟩ := ofClauses_concat_eq_ok_iff.1 isAfter
  exact exists_becomes_of_addClause isBefore isAdded

/-- A complaint about clauses is that about the first one that is refused. -/
theorem exists_refused {complaint : Complaint} (fails : ofClauses clauses = .error complaint) :
    ∃ earlier clause later before, clauses = earlier ++ clause :: later ∧
      ofClauses earlier = .ok before ∧ (addClause clause).run before = .error complaint := by
  induction clauses using List.reverseRecOn with
  | nil => cases fails
  | append_singleton clauses last inductionHypothesis =>
      rcases ofClauses_concat_eq_error_iff.1 fails with inEarlier | ⟨before, isBefore, isRefused⟩
      · obtain ⟨earlier, clause, later, before, rfl, others⟩ := inductionHypothesis inEarlier
        exact ⟨earlier, clause, later ++ [last], before, by simp, others⟩
      · exact ⟨clauses, last, [], before, rfl, isBefore, isRefused⟩

/-- The first of several clauses that becomes a given rule or an equal one, and those before
it. -/
structure FirstBecomes (clauses earlier : List Source.Clause) (head : Source.Atom)
    (body : List Source.Literal) (rule : Rule) : Prop where
  isPart : ∃ later, clauses = earlier ++ .rule head body :: later
  becomes : Becomes earlier (.rule head body) (.rule rule)
  isFirst : ∀ before clause after other, earlier = before ++ clause :: after →
    Becomes before clause (.rule other) → (other == rule) = false

/-- Every rule of a draft is what some clause became first, and its head is recorded. -/
structure HasHeads (draft : Draft) (clauses : List Source.Clause) : Prop where
  size_eq : draft.heads.size = draft.ruleSet.rules.size
  exists_first : ∀ (place : Nat) rule, draft.ruleSet.rules[place]? = some rule →
    ∃ earlier head body, FirstBecomes clauses earlier head body rule ∧
      draft.heads[place]? = some head.relation

/-- More clauses do not change which one was first. -/
theorem FirstBecomes.append {earlier : List Source.Clause} {head : Source.Atom}
    {body : List Source.Literal} {rule : Rule}
    (first : FirstBecomes clauses earlier head body rule) (more : List Source.Clause) :
    FirstBecomes (clauses ++ more) earlier head body rule := by
  obtain ⟨⟨later, rfl⟩, becomes, isFirst⟩ := first
  exact ⟨⟨later ++ more, by simp⟩, becomes, isFirst⟩

/-- What a clause of a draft becomes is equal to what the draft has collected from it. -/
theorem Becomes.exists_collected {earlier later : List Source.Clause} {statement : Statement}
    (becomes : Becomes earlier clause statement)
    (isDraft : ofClauses (earlier ++ clause :: later) = .ok draft) :
    ∃ statements, draft.Collects statements ∧
      ∃ collected ∈ statements, statement.Same collected := by
  obtain ⟨statements, areRead, collects⟩ := exists_collects isDraft
  obtain ⟨collected, isCollected, isRead⟩ :=
    exists_mem_of_forall₂ areRead (List.mem_append_right earlier List.mem_cons_self)
  exact ⟨statements, collects, collected, isCollected, becomes.readsClause.same isRead⟩

/-- A rule that a clause of a draft becomes is equal to one of the draft. -/
theorem Becomes.exists_beq {earlier later : List Source.Clause} {rule : Rule}
    (becomes : Becomes earlier clause (.rule rule))
    (isDraft : ofClauses (earlier ++ clause :: later) = .ok draft) :
    ∃ found ∈ draft.ruleSet.rules.toList, (found == rule) = true := by
  obtain ⟨statements, collects, _, isCollected, same⟩ := becomes.exists_collected isDraft
  cases same with
  | rule equal =>
      exact (collects.rules_iff rule).2
        ⟨_, List.mem_filterMap.2 ⟨_, isCollected, rfl⟩, Rule.beq_symm equal⟩

/-- A fact that is added leaves the heads and the rules alone. -/
theorem addFact_eq (draft : Draft) (fact : Fact) :
    (draft.addFact fact).heads = draft.heads ∧
      (draft.addFact fact).ruleSet.rules = draft.ruleSet.rules :=
  ⟨rfl, rfl⟩

/-- A rule that is new is added behind the others, and so is its head. -/
theorem addRule_of_new {rule : Rule} (isNew : draft.ruleSet.rules.toList.any (· == rule) = false)
    (head : Source.Token) :
    (draft.addRule head rule).heads = draft.heads.push head ∧
      (draft.addRule head rule).ruleSet.rules = draft.ruleSet.rules.push rule := by
  have sameRules := (RuleSet.foldl_declare_eq rule.usages draft.ruleSet).2
  simp [addRule, RuleSet.addRule, sameRules, isNew]

/-- A rule equal to one that is there is not added, nor is its head. -/
theorem addRule_of_old {rule : Rule} (isOld : draft.ruleSet.rules.toList.any (· == rule) = true)
    (head : Source.Token) :
    (draft.addRule head rule).heads = draft.heads ∧
      (draft.addRule head rule).ruleSet.rules = draft.ruleSet.rules := by
  have sameRules := (RuleSet.foldl_declare_eq rule.usages draft.ruleSet).2
  simp [addRule, RuleSet.addRule, sameRules, isOld]

/-- No clause has become a rule yet where there is none. -/
theorem hasHeads_empty : empty.HasHeads [] where
  size_eq := rfl
  exists_first _ _ atPlace := by cases atPlace

section Adding

variable {before after : Draft} {head : Source.Atom} {body : List Source.Literal} {rule : Rule}

/-- A clause that becomes a rule that no rule of the draft is equal to is the first that does. -/
theorem Becomes.firstBecomes (becomes : Becomes clauses (.rule head body) (.rule rule))
    (isDraft : ofClauses clauses = .ok before)
    (isNew : before.ruleSet.rules.toList.any (· == rule) = false) :
    FirstBecomes (clauses ++ [.rule head body]) clauses head body rule := by
  refine ⟨⟨[], rfl⟩, becomes, ?_⟩
  rintro earlier clause later other rfl becomesOther
  -- A rule equal to that of an earlier clause is in the draft, but none is equal to this one.
  obtain ⟨old, listed, isEqual⟩ := becomesOther.exists_beq isDraft
  refine Bool.eq_false_iff.2 fun equal => ?_
  refine List.any_eq_false.1 isNew old listed (Rule.beq_iff.2 ?_)
  exact (Rule.beq_iff.1 isEqual).trans (Rule.beq_iff.1 equal)

/-- A clause that adds no rule adds no head. -/
theorem HasHeads.keep (hasHeads : before.HasHeads clauses)
    (sameHeads : after.heads = before.heads)
    (sameRules : after.ruleSet.rules = before.ruleSet.rules) (clause : Source.Clause) :
    after.HasHeads (clauses ++ [clause]) := by
  refine ⟨by rw [sameHeads, sameRules, hasHeads.size_eq], fun place rule atPlace => ?_⟩
  rw [sameRules] at atPlace
  obtain ⟨earlier, head, body, first, isHead⟩ := hasHeads.exists_first place rule atPlace
  exact ⟨earlier, head, body, first.append [clause], sameHeads ▸ isHead⟩

/-- A clause that adds a rule adds its head in the same place. -/
theorem HasHeads.push (hasHeads : before.HasHeads clauses)
    (pushesHead : after.heads = before.heads.push head.relation)
    (pushesRule : after.ruleSet.rules = before.ruleSet.rules.push rule)
    (first : FirstBecomes (clauses ++ [.rule head body]) clauses head body rule) :
    after.HasHeads (clauses ++ [.rule head body]) := by
  refine ⟨by simp [pushesHead, pushesRule, hasHeads.size_eq], fun place found atPlace => ?_⟩
  rw [pushesRule, Array.getElem?_push] at atPlace
  rw [pushesHead, Array.getElem?_push, hasHeads.size_eq]
  split at atPlace
  next isLast =>
    obtain rfl := Option.some.inj atPlace
    exact ⟨clauses, head, body, first, if_pos isLast⟩
  next notLast =>
    obtain ⟨earlier, otherHead, otherBody, isFirst, isHead⟩ :=
      hasHeads.exists_first place found atPlace
    exact ⟨earlier, otherHead, otherBody, isFirst.append _, (if_neg notLast).trans isHead⟩

end Adding

/-- Each clause that becomes a new rule adds it together with its head. -/
theorem HasHeads.addClause {before after : Draft} (isDraft : ofClauses clauses = .ok before)
    (hasHeads : before.HasHeads clauses)
    (isOk : (addClause clause).run before = .ok ((), after)) :
    after.HasHeads (clauses ++ [clause]) := by
  cases clause with
  | fact source =>
      obtain ⟨atom, middle, isAtom, isOk⟩ := run_bind_eq_ok_iff.1 isOk
      cases isOk
      have sameHeads := (IsLocal.translateAtom IsLocal.translateValue source).heads_eq isAtom
      have sameRules := (finds_translateValue.translateAtom isAtom).2.rules
      obtain ⟨keepsHeads, keepsRules⟩ := middle.addFact_eq ⟨atom.relation, atom.terms⟩
      exact hasHeads.keep (keepsHeads.trans sameHeads) (keepsRules.trans sameRules) _
  | rule head body =>
      obtain ⟨rule, middle, isRule, isOk⟩ := run_bind_eq_ok_iff.1 isOk
      cases isOk
      have sameHeads := heads_eq_of_translateRule isRule
      have sameRules := (readsRule_of_translateRule isRule).2.1.rules
      cases present : middle.ruleSet.rules.toList.any (· == rule) with
      | true =>
          obtain ⟨keepsHeads, keepsRules⟩ := addRule_of_old present head.relation
          exact hasHeads.keep (keepsHeads.trans sameHeads) (keepsRules.trans sameRules) _
      | false =>
          obtain ⟨pushesHead, pushesRule⟩ := addRule_of_new present head.relation
          rw [sameHeads] at pushesHead
          rw [sameRules] at pushesRule present
          exact hasHeads.push pushesHead pushesRule
            ((Becomes.rule isDraft isRule).firstBecomes isDraft present)

/-- Every rule of the draft of clauses is what some clause became first. -/
theorem hasHeads_of_ofClauses (isOk : ofClauses clauses = .ok draft) :
    draft.HasHeads clauses := by
  induction clauses using List.reverseRecOn generalizing draft with
  | nil =>
      cases isOk
      exact hasHeads_empty
  | append_singleton clauses clause inductionHypothesis =>
      obtain ⟨before, isBefore, isAdded⟩ := ofClauses_concat_eq_ok_iff.1 isOk
      exact (inductionHypothesis isBefore).addClause isBefore isAdded

end Clauses

end Draft

end Datalog
