import Datalog.Proofs.RuleSet.ClauseByClause
import Datalog.Proofs.RuleSet.Occurrences
import Datalog.Proofs.Stratification.NegativeCycle

/-!
# Culprits

A fault of a rule as a whole is found in what the rule means, but reported where it was written.
`pointsAtCulprit` says that the report is right for every source: an unsafe variable is reported
at the first identifier that requires it, in the first clause that is refused, and a negative
cycle at the head of the first clause that becomes the rule with the negation.
-/

namespace Datalog

/-- The first clause that is refused is a rule with an unsafe variable, and the complaint
points at the first identifier that needs a value there. -/
structure BlamesVariable (source : String) (clauses : List Source.Clause) (name : String)
    (place : Place) (position? : Option Position) (earlier : List Source.Clause)
    (head : Source.Atom) (body : List Source.Literal) (token : Source.Token) : Prop where
  isPart : ∃ later, clauses = earlier ++ .rule head body :: later
  isAccepted : ∃ draft, Draft.ofClauses earlier = .ok draft
  isRefused : Draft.ofClauses (earlier ++ [.rule head body]) =
    .error ⟨.unsafeVariable name place, token⟩
  /-- No positive atom gives the variable a value. -/
  isUnbound : ¬ Source.Binds body name
  /-- All variables of earlier places have values. -/
  earlierBound : ∀ other, other.rank < place.rank → ∀ needed,
    Source.Requires head body other needed → Source.Binds body needed.lexeme
  /-- The search finds the token, so the relation of the head need not stand in for it. -/
  isFound : Draft.occurrence? head body name place = some token
  isFirst : Source.FirstRequired head body name place token
  isPosition : position? = some (.locate source token.offset)

/-- A rule that makes rules unstratifiable is blamed at the head of the first clause that
becomes a rule equal to it. -/
structure BlamesRule (source : String) (clauses : List Source.Clause) (relation : String)
    (position? : Option Position) (ruleSet : RuleSet) (cycle : NegativeCycle) (rule : Rule)
    (earlier : List Source.Clause) (head : Source.Atom) (body : List Source.Literal) : Prop where
  isTranslated : RuleSet.translate source = .ok ruleSet
  isUnstratified : stratify ruleSet = .error cycle
  isRelation : cycle.relation = relation
  atPlace : ruleSet.rules[cycle.rule]? = some rule
  isFirst : Draft.FirstBecomes clauses earlier head body rule
  isPosition : position? = some (.locate source head.relation.offset)

/-- Faults of rules as a whole are reported where they come from. -/
structure PointsAtCulprit (source : String) : Prop where
  unsafeVariable : ∀ name place position?,
    RuleSet.compile source = .error (.faulty (.unsafeVariable name place) position?) →
      ∃ clauses, Source.parse source = .ok clauses ∧ ∃ earlier head body token,
        BlamesVariable source clauses name place position? earlier head body token
  unstratifiable : ∀ relation position?,
    RuleSet.compile source = .error (.faulty (.unstratifiable relation) position?) →
      ∃ clauses, Source.parse source = .ok clauses ∧ ∃ ruleSet cycle rule earlier head body,
        BlamesRule source clauses relation position? ruleSet cycle rule earlier head body

section Compile

variable {source : String} {clauses : List Source.Clause}

/-- A source that cannot be parsed is reported as malformed. -/
theorem Source.exists_malformed_of_parse {failure : Error} (fails : parse source = .error failure) :
    ∃ reports, failure = .malformed reports := by
  unfold parse at fails
  dsimp only at fails
  split at fails
  · cases fails
  · cases fails
    exact ⟨_, rfl⟩

/-- A source is refused for a fault in a clause, or for a negative cycle in the rules of its
clauses. -/
theorem RuleSet.exists_of_compile_eq_faulty {fault : Fault} {position? : Option Position}
    (fails : compile source = .error (.faulty fault position?)) :
    ∃ clauses, Source.parse source = .ok clauses ∧
      ((∃ complaint, Draft.ofClauses clauses = .error complaint ∧ complaint.fault = fault ∧
          position? = some (.locate source complaint.token.offset)) ∨
        ∃ draft cycle, Draft.ofClauses clauses = .ok draft ∧
          stratify draft.ruleSet = .error cycle ∧ cycle.fault = fault ∧
          position? = draft.heads[cycle.rule]?.map fun head => .locate source head.offset) := by
  rcases bind_eq_error_iff.1 fails with isMalformed | ⟨clauses, isParsed, fails⟩
  · obtain ⟨_, impossible⟩ := Source.exists_malformed_of_parse isMalformed
    cases impossible
  refine ⟨clauses, isParsed, ?_⟩
  rcases bind_eq_error_iff.1 fails with isRefused | ⟨draft, isDraft, fails⟩
  · obtain ⟨complaint, isCause, same⟩ := mapError_eq_error_iff.1 isRefused
    cases same
    exact .inl ⟨complaint, isCause, rfl, rfl⟩
  · refine .inr ⟨draft, ?_⟩
    split at fails
    next => cases fails
    next cycle isUnstratified =>
      cases fails
      exact ⟨cycle, mapError_eq_ok_iff.1 isDraft, isUnstratified, rfl, rfl⟩

/-- A complaint about an unsafe variable is justified. -/
theorem blamesVariable_of_complaint (isParsed : Source.parse source = .ok clauses) {name : String}
    {place : Place} {token : Source.Token}
    (fails : Draft.ofClauses clauses = .error ⟨.unsafeVariable name place, token⟩) :
    ∃ earlier head body, BlamesVariable source clauses name place
      (some (.locate source token.offset)) earlier head body token := by
  obtain ⟨earlier, clause, later, before, rfl, isAccepted, isRefused⟩ :=
    Draft.exists_refused fails
  obtain impossible | ⟨head, body, _, _, rfl, same, ⟨rule, isRead, isUnbound⟩, isToken⟩ :=
    Draft.isLocal_or_isUnsafe_of_addClause isRefused
  · cases impossible
  cases same
  obtain ⟨isDemand, notBound, earlierBound⟩ := Rule.of_unboundVariable?_eq_some isUnbound
  obtain ⟨needed, isRequired, isNamed⟩ := isRead.mem_demands_iff.1 isDemand
  obtain ⟨first, isFound, isFirst⟩ := Source.exists_occurrence? isRequired isNamed
    (Source.pairwise_precedes_of_parse isParsed (List.mem_append_right _ List.mem_cons_self))
  obtain rfl : token = first := isToken.trans (by rw [isFound]; rfl)
  refine ⟨earlier, head, body, ⟨later, rfl⟩, ⟨before, isAccepted⟩,
    Draft.ofClauses_concat_eq_error_iff.2 (.inr ⟨before, isAccepted, isRefused⟩), ?_, ?_, isFound,
    isFirst, rfl⟩
  · rw [← isRead.contains_boundVariables_iff, notBound]
    exact Bool.false_ne_true
  · intro other isEarlier needed isRequired
    rw [← isRead.contains_boundVariables_iff]
    exact earlierBound _ (isRead.mem_demands_iff.2 ⟨needed, isRequired, rfl⟩) isEarlier

/-- A negative cycle is reported where the rule with its negation was written first. -/
theorem blamesRule_of_cycle (isParsed : Source.parse source = .ok clauses) {draft : Draft}
    (isDraft : Draft.ofClauses clauses = .ok draft) {cycle : NegativeCycle}
    (isUnstratified : stratify draft.ruleSet = .error cycle) :
    ∃ rule earlier head body, BlamesRule source clauses cycle.relation
      (draft.heads[cycle.rule]?.map fun head => .locate source head.offset) draft.ruleSet cycle
      rule earlier head body := by
  obtain ⟨⟨rule, atPlace, _⟩, _⟩ :=
    DependencyGraph.negativeLoop_of_negativeCycle? (stratifyRules_eq_error_iff.1 isUnstratified)
  rw [Array.getElem?_toList] at atPlace
  obtain ⟨earlier, head, body, isFirst, isHead⟩ :=
    (Draft.hasHeads_of_ofClauses isDraft).exists_first _ rule atPlace
  refine ⟨rule, earlier, head, body, ?_, isUnstratified, rfl, atPlace, isFirst, ?_⟩
  · refine bind_eq_ok_iff.2 ⟨clauses, isParsed, ?_⟩
    rw [RuleSet.translateClauses, RuleSet.draftClauses, isDraft]
    rfl
  · rw [isHead, Option.map_some]

/-- No clause on its own is refused for a negative cycle. -/
theorem Draft.fault_ne_unstratifiable {complaint : Complaint}
    (fails : ofClauses clauses = .error complaint) (relation : String) :
    complaint.fault ≠ .unstratifiable relation := by
  intro isUnstratifiable
  obtain ⟨_, _, _, _, _, _, isRefused⟩ := exists_refused fails
  obtain impossible | ⟨_, _, _, _, _, isUnsafe, _⟩ := isLocal_or_isUnsafe_of_addClause isRefused
  · rw [isUnstratifiable] at impossible
    cases impossible
  · rw [isUnstratifiable] at isUnsafe
    cases isUnsafe

end Compile

/-- A fault that is reported about an unsafe variable or a negative cycle points at the
culprit. -/
theorem pointsAtCulprit (source : String) : PointsAtCulprit source := by
  constructor
  · intro name place position? fails
    obtain ⟨clauses, isParsed, ⟨complaint, isRefused, same, rfl⟩ | ⟨_, _, _, _, same, _⟩⟩ :=
      RuleSet.exists_of_compile_eq_faulty fails
    · obtain ⟨_, token⟩ := complaint
      cases same
      obtain ⟨earlier, head, body, blames⟩ := blamesVariable_of_complaint isParsed isRefused
      exact ⟨clauses, isParsed, earlier, head, body, token, blames⟩
    · cases same
  · intro relation position? fails
    obtain ⟨clauses, isParsed, ⟨complaint, isRefused, same, _⟩ |
        ⟨draft, cycle, isDraft, isUnstratified, same, rfl⟩⟩ :=
      RuleSet.exists_of_compile_eq_faulty fails
    · exact absurd same (Draft.fault_ne_unstratifiable isRefused relation)
    · cases same
      exact ⟨clauses, isParsed, draft.ruleSet, cycle,
        blamesRule_of_cycle isParsed isDraft isUnstratified⟩

/-- Of two unbound variables that of the field that sorts first is reported, where it is written;
and a rule that becomes the second one is reported although a clause before it is repeated. -/
theorem pointsAtCulprit_field_repetition :
    (∃ clauses earlier head body token, BlamesVariable "r(b: Y, a: X) :- p(1)." clauses "X" .head
      (some ⟨1, 12⟩) earlier head body token) ∧
    ∃ clauses ruleSet cycle rule earlier head body, BlamesRule
      "a(X) :- q(X).\na(X) :- q(X).\np(X) :- q(X), not p(X)." clauses "p" (some ⟨3, 1⟩)
      ruleSet cycle rule earlier head body := by
  have unsafeField : (fun _ => ()) <$> RuleSet.compile "r(b: Y, a: X) :- p(1)." =
      .error (.faulty (.unsafeVariable "X" .head) (some ⟨1, 12⟩)) := by
    decide +kernel
  have selfNegation : (fun _ => ()) <$>
      RuleSet.compile "a(X) :- q(X).\na(X) :- q(X).\np(X) :- q(X), not p(X)." =
        .error (.faulty (.unstratifiable "p") (some ⟨3, 1⟩)) := by
    decide +kernel
  obtain ⟨clauses, _, blamesVariable⟩ :=
    (pointsAtCulprit _).unsafeVariable _ _ _ (map_eq_error_iff.1 unsafeField)
  obtain ⟨others, _, blamesRule⟩ :=
    (pointsAtCulprit _).unstratifiable _ _ (map_eq_error_iff.1 selfNegation)
  exact ⟨⟨clauses, blamesVariable⟩, others, blamesRule⟩

end Datalog
