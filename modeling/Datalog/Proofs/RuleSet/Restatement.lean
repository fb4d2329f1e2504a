import Datalog.Proofs.Evaluation.Candidates
import Datalog.Proofs.FactStore.Text
import Datalog.Proofs.RuleSet.Acceptance
import Datalog.Proofs.RuleSet.Writing

/-!
# Programs of facts

The facts that a source implies can be written down again: their relations and fields have
names from the source, and their values are equal to constants of the source
(`RuleSet.exists_atoms`). Clauses that only state facts always compile, since facts of one
relation have one shape, and they are evaluated without closing any stratum
(`RuleSet.evaluate_of_no_rules`).
-/

namespace Datalog

namespace Draft

section Parts

variable {τ : Type} {reads : Source.Term → τ → Prop}

/-- Arguments that were written have a shape that can be written. -/
theorem ReadsArgs.writableShape {source : Source.Args} {args : Args τ}
    (isRead : ReadsArgs reads source args) (wellFormed : source.WellFormed) :
    Source.WritableShape args.shape := by
  cases isRead with
  | @ordered _ results _ => exact .ordered results.length
  | @named fields results areRead distinct =>
      cases wellFormed with
      | named nonempty wellFormed =>
          have perm := Record.perm_entries_ofList distinct
          refine .named ?_ ?_ (List.pairwise_map.2 (Record.ofList results).ascending)
          · intro isEmpty
            rw [List.map_eq_nil_iff.1 isEmpty, List.nil_perm] at perm
            subst perm
            exact nonempty (List.forall₂_nil_right_iff.1 areRead)
          · intro name member
            obtain ⟨entry, inRecord, rfl⟩ := List.mem_map.1 member
            obtain ⟨field, inFields, sameName, _⟩ :=
              exists_mem_of_forall₂ areRead.flip (perm.mem_iff.1 inRecord)
            rw [← sameName]
            exact (wellFormed field inFields).isName

/-- An argument that was written comes from a term. -/
theorem ReadsArgs.exists_term {source : Source.Args} {args : Args τ}
    (isRead : ReadsArgs reads source args) (wellFormed : source.WellFormed) {result : τ}
    (member : result ∈ args.terms) : ∃ term : Source.Term, term.WellFormed ∧ reads term result := by
  cases isRead with
  | ordered areRead =>
      cases wellFormed with
      | ordered wellFormed =>
          obtain ⟨term, inTerms, isRead⟩ := exists_mem_of_forall₂ areRead.flip member
          exact ⟨term, wellFormed term inTerms, isRead⟩
  | named areRead distinct =>
      cases wellFormed with
      | named _ wellFormed =>
          obtain ⟨entry, inRecord, rfl⟩ := List.mem_map.1 member
          obtain ⟨field, inFields, _, isRead⟩ := exists_mem_of_forall₂ areRead.flip
            ((Record.perm_entries_ofList distinct).mem_iff.1 inRecord)
          exact ⟨field.2, (wellFormed field inFields).term, isRead⟩

/-- A relation that was written has a name, and a shape that can be written. -/
theorem ReadsAtom.writableUsage {source : Source.Atom} {atom : AtomOf τ}
    (isRead : ReadsAtom reads source atom) (wellFormed : source.WellFormed) :
    Source.IsName atom.relation.toList ∧ Source.WritableShape atom.shape := by
  rw [isRead.relation]
  exact ⟨wellFormed.isName, isRead.args.writableShape wellFormed.args⟩

end Parts

/-- The relations of a clause have names, and shapes that can be written. -/
theorem ReadsClause.writableUsage {clause : Source.Clause} {statement : Statement}
    (isRead : ReadsClause clause statement) (wellFormed : clause.WellFormed) :
    ∀ usage ∈ statement.usages,
      Source.IsName usage.1.toList ∧ Source.WritableShape usage.2 := by
  cases isRead with
  | fact isAtom =>
      cases wellFormed with
      | fact isHead => exact List.forall_mem_singleton.2 (isAtom.writableUsage isHead)
  | rule isRule _ =>
      cases wellFormed with
      | rule isHead _ isBody =>
          refine List.forall_mem_cons.2 ⟨isRule.head.writableUsage isHead, ?_⟩
          refine List.forall_mem_map.2 (List.forall_mem_append.2 ⟨?_, ?_⟩)
          · intro atom member
            obtain ⟨source, inBody, isAtom⟩ := isRule.body.exists_positive member
            cases isBody _ inBody with
            | positive isSource => exact isAtom.writableUsage isSource
          · intro atom member
            obtain ⟨source, inBody, isAtom⟩ := isRule.body.exists_negated member
            cases isBody _ inBody with
            | negated isSource => exact isAtom.writableUsage isSource

/-- Arguments that nothing is done to stay as they are. -/
theorem map_id_args {τ : Type} (args : Args τ) : args.map id = args := by
  cases args with
  | ordered terms => exact congrArg Args.ordered terms.map_id
  | named record => exact congrArg Args.named (Record.ext_entries record.entries.map_id)

/-- A clause that states a fact states nothing else, in every respect. -/
theorem ReadsClause.eq_of_fact {clause : Source.Clause} {atom : AtomOf Value}
    {statement : Statement} (isFact : ReadsClause clause (.fact atom))
    (isRead : ReadsClause clause statement) : statement = .fact atom := by
  cases isFact with
  | fact isFirst =>
      cases isRead with
      | @fact _ other isSecond =>
          have sameArgs := (settles_readsValue id).args isSecond.args isFirst.args
          rw [map_id_args, map_id_args] at sameArgs
          have sameRelation := isSecond.relation.trans isFirst.relation.symm
          exact congrArg Statement.fact (AtomOf.mk.injEq .. ▸ ⟨sameRelation, sameArgs⟩)

/-- Clauses that state facts state nothing else, in every respect. -/
theorem eq_of_forall₂_facts {clauses : List Source.Clause} {atoms : List (AtomOf Value)}
    {statements : List Statement}
    (areFacts : List.Forall₂ ReadsClause clauses (atoms.map .fact))
    (areRead : List.Forall₂ ReadsClause clauses statements) :
    statements = atoms.map .fact := by
  induction atoms generalizing clauses statements with
  | nil =>
      cases areFacts
      cases areRead
      rfl
  | cons atom atoms inductionHypothesis =>
      cases areFacts with
      | cons isFact areFacts =>
          cases areRead with
          | cons isRead areRead =>
              rw [isFact.eq_of_fact isRead, inductionHypothesis areFacts areRead]
              rfl

end Draft

namespace RuleSet

section Compiled

variable {source : String} {ruleSet : RuleSet} (compiled : compile source = .ok ruleSet)
include compiled

/-- Each constant of a source is denoted by one of its literals. -/
theorem exists_denotes_of_compile {constant : Value} (member : constant ∈ ruleSet.constants) :
    ∃ lexeme, Source.Denotes lexeme constant := by
  obtain ⟨clauses, draft, isParsed, rfl, means, _⟩ := exists_means_of_compile compiled
  have wellFormed := (Source.laid_of_parse isParsed).1
  rcases List.mem_append.1 member with inFacts | inRules
  · obtain ⟨fact, isStated, inFact⟩ := List.mem_flatMap.1 inFacts
    obtain ⟨atom, isClause, stated, isRead, rfl, _⟩ := means.facts fact isStated
    cases wellFormed _ isClause with
    | fact isHead =>
        obtain ⟨term, isTerm, isValue⟩ := isRead.args.exists_term isHead.args inFact
        cases isValue
        cases isTerm with
        | literal denotes => exact ⟨_, denotes⟩
  · obtain ⟨rule, isListed, inHead⟩ := List.mem_flatMap.1 inRules
    obtain ⟨headTerm, inTerms, isConstant⟩ := List.mem_filterMap.1 inHead
    obtain ⟨head, body, isClause, isRead⟩ := means.rules rule isListed
    cases wellFormed _ isClause with
    | rule isHead _ _ =>
        obtain ⟨term, isTerm, isHeadTerm⟩ := isRead.head.args.exists_term isHead.args inTerms
        cases isHeadTerm with
        | literal =>
            cases isConstant
            cases isTerm with
            | literal denotes => exact ⟨_, denotes⟩
        | identifier => cases isConstant

/-- The relations of a source have names, and shapes that can be written. -/
theorem writableUsage_of_compile {relation : String} {shape : Shape}
    (isShape : ruleSet.shapeOf? relation = some shape) :
    Source.IsName relation.toList ∧ Source.WritableShape shape := by
  obtain ⟨clauses, isParsed, isCompiled⟩ := bind_eq_ok_iff.1 compiled
  obtain ⟨draft, isDraft, rfl, _⟩ := compileClauses_eq_ok_iff.1 isCompiled
  obtain ⟨statements, areRead, collects⟩ := Draft.exists_collects isDraft
  obtain ⟨statement, isStated, isUsed⟩ :=
    List.mem_flatMap.1 ((collects.shapes_iff relation shape).1 isShape)
  obtain ⟨clause, inClauses, isRead⟩ := exists_mem_of_forall₂ areRead.flip isStated
  have wellFormed := (Source.laid_of_parse isParsed).1 clause inClauses
  exact isRead.writableUsage wellFormed _ isUsed

/-- Every fact that a source implies can be written as an atom in the shape of its relation,
unless one of its values is infinite. -/
theorem exists_atom_of_evaluate {limits : Limits} {store : FactStore}
    (isOk : ruleSet.evaluate limits = .ok store) {fact : Fact} (member : fact ∈ store.allFacts)
    (finite : ∀ value ∈ fact.values, ¬ value.IsInfinite) :
    ∃ atom : AtomOf Value, Source.WritableAtom Value.text Draft.ReadsValue atom ∧
      (⟨atom.relation, atom.terms⟩ : Fact) = fact ∧
      store.shapeOf? fact.relation = some atom.shape := by
  obtain ⟨_, _, _, _, means, _⟩ := exists_means_of_compile compiled
  subst_vars
  obtain ⟨checked, stratification, accepted, isRun⟩ := evaluate_eq_ok_iff.1 isOk
  obtain ⟨wellFormed, isModel⟩ := facts_eq_of_run (semipositive_rulesOf checked accepted) isRun
  have inModel := wellFormed.exists_mem_allFacts_iff.1 ⟨fact, member, BEq.rfl⟩
  rw [isModel] at inModel
  obtain ⟨shape, isShape, arity⟩ :=
    stratifiedModel_subset_shaped means.declared means.consistent _ inModel
  have isExpressible := stratifiedModel_subset_expressible means.consistent _ inModel
  obtain ⟨isName, writable⟩ := writableUsage_of_compile compiled isShape
  have denoted : ∀ value ∈ fact.values, Source.Denotes value.text.toList value := by
    intro value inFact
    obtain ⟨constant, isConstant, equal⟩ :=
      List.mem_map.1 (List.mem_dedup.1 (isExpressible value inFact))
    obtain ⟨lexeme, denotes⟩ := exists_denotes_of_compile compiled isConstant
    exact denotes.text_of_beq (Canonical.beq_iff.2 equal) (finite value inFact)
  obtain ⟨atom, isWritable, isFact, isAtomShape⟩ :=
    Source.exists_atom isName denoted writable arity
  refine ⟨atom, isWritable, isFact, ?_⟩
  rw [isAtomShape, FactStore.shapeOf?, shapes_eq_of_run isRun]
  exact isShape

end Compiled

section NoRules

variable {ruleSet : RuleSet} {limits : Limits} {atoms : List (AtomOf Value)}
  {clauses : List Source.Clause}

/-- Without rules nothing is negated. -/
theorem exists_stratify_of_no_rules (noRules : ruleSet.rules.toList = []) :
    ∃ stratification, stratify ruleSet = .ok stratification := by
  refine ⟨_, stratifyRules_eq_ok_iff.2 ⟨?_, rfl⟩⟩
  rintro index relation ⟨rule, atIndex, _⟩
  rw [noRules] at atIndex
  cases atIndex

/-- Facts use their relations in their shapes. -/
theorem flatMap_usages_facts (atoms : List (AtomOf Value)) :
    (atoms.map Statement.fact).flatMap Statement.usages =
      atoms.map fun atom => (atom.relation, atom.shape) := by
  rw [List.flatMap_map]
  exact List.map_eq_flatMap.symm

/-- Clauses that state facts compile to these facts, each in its place. -/
theorem exists_compileClauses_of_facts
    (areFacts : List.Forall₂ Draft.ReadsClause clauses (atoms.map .fact))
    (agree : ∀ first ∈ atoms, ∀ second ∈ atoms, first.relation = second.relation →
      first.shape = second.shape) (source : String) :
    ∃ ruleSet, compileClauses source clauses = .ok ruleSet ∧
      ruleSet.facts = .ofList (atoms.map fun atom => ⟨atom.relation, atom.terms⟩) ∧
      ruleSet.rules.toList = [] ∧
      ∀ atom ∈ atoms, ruleSet.shapeOf? atom.relation = some atom.shape := by
  have agreeUsages : Draft.Agree ((atoms.map Statement.fact).flatMap Statement.usages) := by
    rw [flatMap_usages_facts]
    exact List.forall_mem_map.2 fun first isFirst =>
      List.forall_mem_map.2 fun second isSecond => agree first isFirst second isSecond
  obtain ⟨draft, isDraft⟩ := Draft.exists_ofClauses_iff.2 ⟨_, areFacts, agreeUsages⟩
  obtain ⟨statements, areRead, collects⟩ := Draft.exists_collects isDraft
  obtain rfl := Draft.eq_of_forall₂_facts areFacts areRead
  have noRules : draft.ruleSet.rules.toList = [] := by
    refine List.eq_nil_iff_forall_not_mem.2 fun rule listed => ?_
    obtain ⟨stated, isStated, _⟩ :=
      (collects.rules_iff rule).1 ⟨rule, listed, Rule.beq_iff.2 rfl⟩
    obtain ⟨statement, isFact, isRule⟩ := List.mem_filterMap.1 isStated
    obtain ⟨atom, _, rfl⟩ := List.mem_map.1 isFact
    cases isRule
  refine ⟨draft.ruleSet, compileClauses_eq_ok_iff.2
    ⟨draft, isDraft, rfl, exists_stratify_of_no_rules noRules⟩, ?_, noRules,
    fun atom member => ?_⟩
  · rw [collects.facts_eq, List.filterMap_map]
    exact congrArg OrderedSet.ofList (congrFun List.filterMap_eq_map atoms)
  · rw [collects.shapes_iff, flatMap_usages_facts]
    exact List.mem_map_of_mem member

/-- Without rules the store of the explicit facts is all that there is. -/
theorem evaluate_of_no_rules (consistent : ruleSet.Consistent)
    (noRules : ruleSet.rules.toList = [])
    (fits : ((FactStore.withShapes ruleSet.shapes).addMany ruleSet.facts.toList).size ≤
      limits.maxFacts) :
    ruleSet.evaluate limits =
      .ok ((FactStore.withShapes ruleSet.shapes).addMany ruleSet.facts.toList) := by
  obtain ⟨stratification, accepted⟩ := exists_stratify_of_no_rules noRules
  -- Every stratum has a rule, so there is none.
  have noStrata : stratification.strata = [] := by
    refine List.eq_nil_iff_forall_not_mem.2 fun stratum member => ?_
    obtain ⟨rule, index, _, atIndex⟩ := exists_hasRule_of_ok accepted stratum member
    rw [noRules] at atIndex
    cases atIndex
  refine evaluate_eq_ok_iff.2 ⟨check_eq_ok_iff.2 consistent, stratification, accepted, ?_⟩
  refine bind_eq_ok_iff.2 ⟨_, Limits.addFacts_eq_ok_iff.2 ⟨⟨rfl, rfl⟩, .inl fits⟩, ?_⟩
  rw [noStrata]
  rfl

end NoRules

end RuleSet

end Datalog
