import Datalog.Proofs.Evaluation.Invariant
import Datalog.Proofs.Evaluation.Monotonicity
import Datalog.Proofs.RuleSet.Acceptance
import Datalog.Proofs.RuleSet.ClauseByClause

/-!
# Fields of named relations

Facts carry no field names. A clause is translated into values in the order of the sorted names,
and names come back from the shape of the relation when a fact is matched, looked up or printed.
`RuleSet.separatesFields_of_evaluate` says that the names never get mixed up on the way: what is
written behind a name, in whatever order, is what the store answers under that name. All of it
rests on one correspondence: what is paired with the terms of a record, one by one, is found
under their fields (`FactStore.exists_field?_of_forall₂`).
-/

namespace Datalog

section Lookup

variable {τ : Type} {store : FactStore} {fact : Fact} {names : List String} {record : Record τ}

/-- The value of a field of a fact stands where the field stands among the names. -/
theorem FactStore.field?_eq_getElem? (distinct : names.Nodup)
    (isNamed : store.shapeOf? fact.relation = some (.named names)) {place : Nat} {name : String}
    (atPlace : names[place]? = some name) : store.field? fact name = fact.values[place]? := by
  obtain ⟨inBounds, isName⟩ := List.getElem?_eq_some_iff.1 atPlace
  have isPlace : names.findIdx? (· == name) = some place := by
    refine List.findIdx?_eq_some_iff_getElem.2 ⟨inBounds, by simp [isName], ?_⟩
    intro earlier isEarlier
    rw [← isName, beq_iff_eq]
    exact (List.pairwise_iff_getElem.1 distinct) _ _ _ _ isEarlier
  rw [field?, isNamed]
  simp only [isPlace, Option.bind_some]

/-- What is paired with the terms of a record is found under their fields. -/
theorem FactStore.exists_field?_of_forall₂ (fact : Fact) {holds : τ → Value → Prop}
    (isNamed : store.shapeOf? fact.relation = some (.named record.fields))
    (related : List.Forall₂ holds record.values fact.values) {entry : String × τ}
    (member : entry ∈ record.entries) :
    ∃ value, store.field? fact entry.1 = some value ∧ holds entry.2 value := by
  obtain ⟨sameLength, related⟩ := forall₂_iff_getElem?.1 related
  obtain ⟨place, atPlace⟩ := List.mem_iff_getElem?.1 member
  have atName : record.fields[place]? = some entry.1 := by
    rw [Record.fields, List.getElem?_map, atPlace]
    rfl
  have atTerm : record.values[place]? = some entry.2 := by
    rw [Record.values, List.getElem?_map, atPlace]
    rfl
  obtain ⟨inBounds, _⟩ := List.getElem?_eq_some_iff.1 atTerm
  have atValue := List.getElem?_eq_getElem (sameLength ▸ inBounds : place < fact.values.length)
  exact ⟨_, (field?_eq_getElem? record.nodup_fields isNamed atName).trans atValue,
    related place _ _ atTerm atValue⟩

end Lookup

namespace Source

/-- The arguments of an atom are written behind the names of a relation, in any order. -/
structure Atom.WritesFields (source : Atom) (names : List String) (fields : List (Token × Term)) :
    Prop where
  args_eq : source.args = .named fields
  perm : (fields.map fun field => field.1.lexeme).Perm names

/-- A term is matched with a value: a literal that is equal to it, an identifier whose value
after the match is equal to it, or a wildcard. -/
inductive Term.Matched (bindings : Bindings) : Term → Value → Prop where
  | literal {token : Token} {constant value : Value} (equal : (constant == value) = true) :
      Matched bindings (.literal token constant) value
  | identifier {token : Token} {bound value : Value}
      (isBound : bindings.get? token.lexeme = some bound) (equal : (bound == value) = true) :
      Matched bindings (.identifier token) value
  | wildcard {token : Token} {value : Value} : Matched bindings (.wildcard token) value

/-- A term of a head has a value: a literal the one it stands for, an identifier the one that it
is bound to. -/
inductive Term.Resolved (bindings : Bindings) : Term → Value → Prop where
  | literal {token : Token} {value : Value} : Resolved bindings (.literal token value) value
  | identifier {token : Token} {value : Value}
      (isBound : bindings.get? token.lexeme = some value) :
      Resolved bindings (.identifier token) value

end Source

namespace FactStore

variable (store : FactStore)

/-- The fields of a fact have values in a store that the terms written for them ask for. -/
def HasFields (fact : Fact) (fields : List (Source.Token × Source.Term))
    (asks : Source.Term → Value → Prop) : Prop :=
  ∀ field ∈ fields, ∃ value, store.field? fact field.1.lexeme = some value ∧ asks field.2 value

/-- A fact of a named relation has a value under each name, and prints them as such pairs. -/
structure PrintsFields (relation : String) (names : List String) (fact : Fact) : Prop where
  values : List.Forall₂ (fun name value => store.field? fact name = some value) names fact.values
  text : fact.textIn (store.shapeOf? relation) = applicationText relation
    (commaSeparated (fieldTexts (names.zip (fact.values.map Value.text))))

/-- A fact that a clause states has the values that are written, prints each of them behind its
name, and is stored. -/
structure StatesFields (relation : String) (names : List String)
    (fields : List (Source.Token × Source.Term)) (fact : Fact) : Prop where
  hasFields : store.HasFields fact fields Draft.ReadsValue
  prints : store.PrintsFields relation names fact
  pairs : ∀ field token value, (field, .literal token value) ∈ fields →
    (field.lexeme, value.text) ∈ names.zip (fact.values.map Value.text)
  isStored : ∃ stored ∈ store.factsOf relation, (stored == fact) = true

/-- Whenever an atom is matched with a fact, the written terms are matched with the values of
their fields. -/
def MatchesFields (fields : List (Source.Token × Source.Term)) (atom : Atom) : Prop :=
  ∀ fact bindings extended, atom.unify fact bindings = some extended →
    store.HasFields fact fields (Source.Term.Matched extended)

/-- Whenever a head denotes a fact, its fields have the values of the written terms. -/
def DerivesFields (fields : List (Source.Token × Source.Term)) (head : HeadAtom) : Prop :=
  ∀ bindings fact, head.ground? bindings = some fact →
    store.HasFields fact fields (Source.Term.Resolved bindings)

/-- What a clause writes about a named relation holds of the fields of what it becomes. -/
inductive KeepsFields (relation : String) (names : List String) :
    Source.Clause → Statement → Prop where
  | fact {source : Source.Atom} {atom : AtomOf Value}
      (states : source.relation.lexeme = relation → ∃ fields, source.WritesFields names fields ∧
        store.StatesFields relation names fields ⟨atom.relation, atom.terms⟩) :
      KeepsFields relation names (.fact source) (.fact atom)
  | rule {head : Source.Atom} {body : List Source.Literal} {rule : Rule}
      (derives : head.relation.lexeme = relation → ∃ fields, head.WritesFields names fields ∧
        store.DerivesFields fields rule.head)
      (positive : List.Forall₂ (fun source atom => source.relation.lexeme = relation →
          ∃ fields, source.WritesFields names fields ∧ store.MatchesFields fields atom)
        (body.filterMap Source.Literal.positive?) rule.positive)
      (negated : List.Forall₂ (fun source atom => source.relation.lexeme = relation →
          ∃ fields, source.WritesFields names fields ∧ store.MatchesFields fields atom)
        (body.filterMap Source.Literal.negated?) rule.negative) :
      KeepsFields relation names (.rule head body) (.rule rule)

end FactStore

section Atoms

variable {τ : Type} {reads : Source.Term → τ → Prop} {source : Source.Atom} {atom : AtomOf τ}
  {store : FactStore} {names : List String}

/-- An atom of a named relation is written with its names. -/
theorem Draft.ReadsAtom.exists_fields (isRead : ReadsAtom reads source atom)
    (isNamed : atom.shape = .named names) :
    ∃ fields record, source.WritesFields names fields ∧ atom.args = .named record ∧
      record.fields = names ∧ ∀ field ∈ fields, ∃ result,
        (field.1.lexeme, result) ∈ record.entries ∧ reads field.2 result := by
  obtain ⟨relation, args⟩ := atom
  obtain ⟨_, isRead⟩ := isRead
  obtain ⟨_, written⟩ := source
  cases isRead with
  | ordered => cases isNamed
  | @named fields results areRead distinct =>
      obtain rfl := Shape.named.inj isNamed
      have perm := Record.perm_entries_ofList distinct
      have sameNames : fields.map (fun field => field.1.lexeme) = results.map Prod.fst := by
        rw [← List.forall₂_eq_eq_eq, List.forall₂_map_left_iff, List.forall₂_map_right_iff]
        exact areRead.imp fun _ _ => And.left
      refine ⟨fields, _, ⟨rfl, ?_⟩, rfl, rfl, fun field member => ?_⟩
      · rw [sameNames]
        exact (perm.map Prod.fst).symm
      · obtain ⟨⟨name, result⟩, isResult, rfl, isRead⟩ := exists_mem_of_forall₂ areRead member
        exact ⟨result, perm.mem_iff.2 isResult, isRead⟩

/-- What is paired with the terms of an atom is found under the fields that are written. -/
theorem Draft.ReadsAtom.hasFields (isRead : ReadsAtom reads source atom)
    (isNamed : store.shapeOf? atom.relation = some (.named names))
    (isShape : store.shapeOf? atom.relation = some atom.shape) :
    ∃ fields, source.WritesFields names fields ∧ ∀ (fact : Fact) (holds : τ → Value → Prop)
      (asks : Source.Term → Value → Prop), fact.relation = atom.relation →
        List.Forall₂ holds atom.terms fact.values →
        (∀ term result value, reads term result → result ∈ atom.terms → holds result value →
          asks term value) →
        store.HasFields fact fields asks := by
  obtain ⟨fields, record, writes, isRecord, rfl, areRead⟩ :=
    isRead.exists_fields (Option.some.inj (isShape.symm.trans isNamed))
  refine ⟨fields, writes, fun fact holds asks ofRelation related asks_of field member => ?_⟩
  obtain ⟨result, isEntry, isResult⟩ := areRead field member
  have areTerms : atom.terms = record.values := congrArg Args.terms isRecord
  rw [areTerms] at related asks_of
  obtain ⟨value, isValue, holds⟩ :=
    FactStore.exists_field?_of_forall₂ fact (ofRelation ▸ isNamed) related isEntry
  exact ⟨value, isValue,
    asks_of _ _ _ isResult (List.mem_map_of_mem isEntry) holds⟩

/-- A body atom is matched field by field. -/
theorem Draft.ReadsAtom.matchesFields {atom : Atom} (isRead : ReadsAtom ReadsTerm source atom)
    (isNamed : store.shapeOf? atom.relation = some (.named names))
    (isShape : store.shapeOf? atom.relation = some atom.shape) :
    ∃ fields, source.WritesFields names fields ∧ store.MatchesFields fields atom := by
  obtain ⟨fields, writes, hasFields⟩ := isRead.hasFields isNamed isShape
  refine ⟨fields, writes, fun fact bindings extended unified => ?_⟩
  -- A match agrees with the values of the variables after it, all of which are then bound.
  obtain ⟨ofRelation, areMatched⟩ :=
    (Atom.exists_unify_iff.1 ⟨extended, unified, extended.agrees_valuation⟩).2
  refine hasFields fact _ _ ofRelation areMatched
    fun term result value isRead inAtom isMatched => ?_
  cases isRead with
  | literal => exact .literal isMatched
  | wildcard => exact .wildcard
  | anonymous => exact .wildcard
  | identifier token =>
      have inVariables : token.lexeme ∈ atom.variables := List.mem_filterMap.2 ⟨_, inAtom, rfl⟩
      obtain ⟨bound, isBound⟩ := (Atom.bound_unify_iff unified).2 (.inr inVariables)
      refine .identifier isBound ?_
      simpa [Term.Matches, Bindings.valuation, isBound] using isMatched

/-- A head derives its fact field by field. -/
theorem Draft.ReadsAtom.derivesFields {head : HeadAtom}
    (isRead : ReadsAtom ReadsHeadTerm source head)
    (isNamed : store.shapeOf? head.relation = some (.named names))
    (isShape : store.shapeOf? head.relation = some head.shape) :
    ∃ fields, source.WritesFields names fields ∧ store.DerivesFields fields head := by
  obtain ⟨fields, writes, hasFields⟩ := isRead.hasFields isNamed isShape
  refine ⟨fields, writes, fun bindings fact isGround => ?_⟩
  obtain ⟨values, areResolved, rfl⟩ := Option.map_eq_some_iff.1 isGround
  refine hasFields _ _ _ rfl (mapM_eq_some_iff.1 areResolved)
    fun term result value isRead _ isResolved => ?_
  cases isRead with
  | literal =>
      cases isResolved
      exact .literal
  | identifier token => exact .identifier isResolved

/-- A fact with a value for each name prints its fields. -/
theorem FactStore.printsFields (fact : Fact) (distinct : names.Nodup)
    (isNamed : store.shapeOf? fact.relation = some (.named names))
    (sameLength : names.length = fact.values.length) :
    store.PrintsFields fact.relation names fact where
  values := by
    refine forall₂_iff_getElem?.2 ⟨sameLength, fun place name value atName atValue => ?_⟩
    rw [field?_eq_getElem? distinct isNamed atName, atValue]
  text := by rw [isNamed, Fact.textIn, if_pos sameLength]

/-- A fact of a named relation has the values that are written and prints them so. -/
theorem Draft.ReadsAtom.statesFields {atom : AtomOf Value}
    (isRead : ReadsAtom ReadsValue source atom)
    (isNamed : store.shapeOf? atom.relation = some (.named names))
    (isShape : store.shapeOf? atom.relation = some atom.shape)
    (isStored : ∃ stored ∈ store.factsOf atom.relation,
      (stored == (⟨atom.relation, atom.terms⟩ : Fact)) = true) :
    ∃ fields, source.WritesFields names fields ∧
      store.StatesFields atom.relation names fields ⟨atom.relation, atom.terms⟩ := by
  obtain ⟨fields, record, writes, isRecord, rfl, areRead⟩ :=
    isRead.exists_fields (Option.some.inj (isShape.symm.trans isNamed))
  have areTerms : atom.terms = record.values := congrArg Args.terms isRecord
  rw [areTerms] at isStored ⊢
  refine ⟨fields, writes, fun field member => ?_, ?_, ?_, isStored⟩
  · obtain ⟨value, isEntry, isValue⟩ := areRead field member
    have same : List.Forall₂ Eq record.values record.values := List.forall₂_same.2 fun _ _ => rfl
    obtain ⟨found, isFound, rfl⟩ := FactStore.exists_field?_of_forall₂
      ⟨atom.relation, record.values⟩ isNamed same isEntry
    exact ⟨value, isFound, isValue⟩
  · refine FactStore.printsFields ⟨atom.relation, _⟩ record.nodup_fields isNamed ?_
    simp [Record.fields, Record.values]
  · intro field token value member
    obtain ⟨_, isEntry, isValue⟩ := areRead _ member
    cases isValue
    have isPair : (field.lexeme, value.text) ∈
        record.entries.map fun entry => (entry.1, entry.2.text) :=
      List.mem_map.2 ⟨_, isEntry, rfl⟩
    simpa [Record.fields, Record.values, List.zip_map'] using isPair

/-- What a clause states keeps its fields if relations are used in the shapes that a store knows
and facts are stored. -/
theorem Draft.ReadsClause.keepsFields {clause : Source.Clause} {statement : Statement}
    (isRead : ReadsClause clause statement) {relation : String}
    (isNamed : store.shapeOf? relation = some (.named names))
    (shapes : ∀ usage ∈ statement.usages, store.shapeOf? usage.1 = some usage.2)
    (stored : ∀ fact, statement.fact? = some fact → fact ∈ store.facts) :
    store.KeepsFields relation names clause statement := by
  cases isRead with
  | @fact source atom isRead =>
      refine .fact fun ofRelation => ?_
      obtain rfl : atom.relation = relation := isRead.relation.trans ofRelation
      exact isRead.statesFields isNamed (shapes _ (List.mem_singleton_self _))
        (FactStore.mem_facts_iff.1 (stored _ rfl))
  | @rule head body rule isRead _ =>
      obtain ⟨shapeOfHead, shapesOfBody⟩ := List.forall_mem_cons.1 shapes
      have inBody {sources : List Source.Atom} {atoms : List Atom}
          (areRead : List.Forall₂ (ReadsAtom ReadsTerm) sources atoms)
          (included : atoms ⊆ rule.positive ++ rule.negative) :
          List.Forall₂ (fun source atom => source.relation.lexeme = relation →
            ∃ fields, source.WritesFields names fields ∧ store.MatchesFields fields atom)
            sources atoms := by
        have withShapes := (List.forall₂_and_left _ _).2 ⟨fun atom member =>
          shapesOfBody _ (List.mem_map_of_mem (included member)), areRead.flip⟩
        refine withShapes.flip.imp ?_
        rintro source atom ⟨isShape, isRead⟩ ofRelation
        obtain rfl : atom.relation = relation := isRead.relation.trans ofRelation
        exact isRead.matchesFields isNamed isShape
      obtain ⟨arePositive, areNegated, _⟩ := readsBody_iff.1 isRead.body
      refine .rule (fun ofRelation => ?_) (inBody arePositive (List.subset_append_left _ _))
        (inBody areNegated (List.subset_append_right _ _))
      obtain rfl : rule.head.relation = relation := isRead.head.relation.trans ofRelation
      exact isRead.head.derivesFields isNamed shapeOfHead

end Atoms

section Clauses

variable {earlier later : List Source.Clause} {clause : Source.Clause} {statement : Statement}
  {draft : Draft}

/-- What a clause becomes uses relations in the shapes that the draft knows. -/
theorem Draft.Becomes.shapeOf?_usage (becomes : Becomes earlier clause statement)
    (isDraft : ofClauses (earlier ++ clause :: later) = .ok draft) {usage : String × Shape}
    (isUsage : usage ∈ statement.usages) : draft.ruleSet.shapeOf? usage.1 = some usage.2 := by
  obtain ⟨statements, collects, collected, isCollected, same⟩ := becomes.exists_collected isDraft
  exact (collects.shapes_iff _ _).2
    (List.mem_flatMap.2 ⟨collected, isCollected, same.mem_usages isUsage⟩)

/-- A fact that a clause becomes is equal to one of the draft. -/
theorem Draft.Becomes.exists_stated (becomes : Becomes earlier clause statement)
    (isDraft : ofClauses (earlier ++ clause :: later) = .ok draft) {fact : Fact}
    (isFact : statement.fact? = some fact) :
    ∃ stated ∈ draft.ruleSet.facts.toList, (stated == fact) = true := by
  obtain ⟨statements, collects, collected, isCollected, same⟩ := becomes.exists_collected isDraft
  have inFacts : canonical fact ∈ (statements.filterMap Statement.fact?).map canonical := by
    rw [List.map_filterMap, List.mem_filterMap]
    refine ⟨collected, isCollected, same.map_canonical_fact?.symm.trans ?_⟩
    rw [isFact, Option.map_some]
  rw [← Fact.mem_map_canonical_ofList, ← collects.facts_eq] at inFacts
  obtain ⟨stated, isStated, same⟩ := List.mem_map.1 inFacts
  exact ⟨stated, isStated, Canonical.beq_iff.2 same⟩

/-- The shape of an atom does not repeat a name. -/
theorem Args.nodup_of_shape {τ : Type} {args : Args τ} {names : List String}
    (isShape : args.shape = .named names) : names.Nodup := by
  cases args with
  | ordered => cases isShape
  | named record =>
      cases isShape
      exact record.nodup_fields

/-- The relations of a statement are used without repeated names. -/
theorem Statement.nodup_of_mem_usages {relation : String} {names : List String}
    (isUsage : (relation, .named names) ∈ statement.usages) : names.Nodup := by
  cases statement with
  | fact atom => exact Args.nodup_of_shape (Prod.mk.inj (List.mem_singleton.1 isUsage)).2.symm
  | rule rule =>
      rcases List.mem_cons.1 isUsage with inHead | inBody
      · exact Args.nodup_of_shape (Prod.mk.inj inHead).2.symm
      · obtain ⟨atom, _, same⟩ := List.mem_map.1 inBody
        exact Args.nodup_of_shape (Prod.mk.inj same).2

/-- The names of a relation of a draft are not repeated. -/
theorem Draft.nodup_of_shapeOf? {clauses : List Source.Clause}
    (isDraft : ofClauses clauses = .ok draft) {relation : String} {names : List String}
    (isNamed : draft.ruleSet.shapeOf? relation = some (.named names)) : names.Nodup := by
  obtain ⟨statements, _, collects⟩ := exists_collects isDraft
  obtain ⟨statement, _, isUsage⟩ := List.mem_flatMap.1 ((collects.shapes_iff _ _).1 isNamed)
  exact Statement.nodup_of_mem_usages isUsage

/-- Every rule of a draft is one that some clause becomes. -/
theorem Draft.exists_becomes_of_mem_rules {clauses : List Source.Clause}
    (isDraft : ofClauses clauses = .ok draft) {rule : Rule}
    (inRules : rule ∈ draft.ruleSet.rules.toList) : ∃ earlier head body later,
      clauses = earlier ++ .rule head body :: later ∧
        Becomes earlier (.rule head body) (.rule rule) := by
  obtain ⟨place, atPlace⟩ := List.mem_iff_getElem?.1 inRules
  rw [Array.getElem?_toList] at atPlace
  obtain ⟨earlier, head, body, ⟨⟨later, isPart⟩, becomes, _⟩, _⟩ :=
    (hasHeads_of_ofClauses isDraft).exists_first place rule atPlace
  exact ⟨earlier, head, body, later, isPart, becomes⟩

end Clauses

/-- What is written about a named relation holds of its fields in a store. -/
structure FactStore.SeparatesFields (store : FactStore) (ruleSet : RuleSet)
    (clauses : List Source.Clause) (relation : String) (names : List String) : Prop where
  distinct : names.Nodup
  /-- Every clause becomes a fact or a rule. -/
  becomes : ∀ earlier clause later, clauses = earlier ++ clause :: later →
    ∃ statement, Draft.Becomes earlier clause statement
  /-- Whatever a clause becomes keeps its fields apart. -/
  keeps : ∀ earlier clause later statement, clauses = earlier ++ clause :: later →
    Draft.Becomes earlier clause statement → store.KeepsFields relation names clause statement
  /-- The rules that are evaluated are among these. -/
  rules : ∀ rule ∈ ruleSet.rules.toList, ∃ earlier head body later,
    clauses = earlier ++ .rule head body :: later ∧
      Draft.Becomes earlier (.rule head body) (.rule rule)
  /-- Every fact of the relation is printed with its fields. -/
  prints : ∀ fact ∈ store.factsOf relation, store.PrintsFields relation names fact

namespace RuleSet

variable {source : String} {limits : Limits} {ruleSet : RuleSet} {store : FactStore}

/-- The store that rules are evaluated to knows their shapes. -/
theorem shapeOf?_of_evaluate (isOk : ruleSet.evaluate limits = .ok store) (relation : String) :
    store.shapeOf? relation = ruleSet.shapeOf? relation := by
  obtain ⟨_, _, _, isRun⟩ := evaluate_eq_ok_iff.1 isOk
  rw [FactStore.shapeOf?, shapeOf?, shapes_eq_of_run isRun]

/-- Every fact of a named relation has a value for each name, so it prints its fields. -/
theorem printsFields_of_evaluate (declared : ruleSet.Declared) (consistent : ruleSet.Consistent)
    (isOk : ruleSet.evaluate limits = .ok store) {relation : String} {names : List String}
    (distinct : names.Nodup) (isNamed : store.shapeOf? relation = some (.named names))
    {fact : Fact} (listed : fact ∈ store.factsOf relation) :
    store.PrintsFields relation names fact := by
  obtain ⟨_, _, wellFormed, _⟩ := exists_facts_eq_of_evaluate isOk
  obtain rfl := wellFormed.relation_eq relation fact listed
  obtain ⟨_, _, _, isRun⟩ := evaluate_eq_ok_iff.1 isOk
  obtain ⟨shape, isShape, arity⟩ :=
    (invariant_shaped declared consistent).of_run isRun _ fact listed
  rw [← shapeOf?_of_evaluate isOk] at isShape
  obtain rfl := Option.some.inj (isShape.symm.trans isNamed)
  exact FactStore.printsFields fact distinct isNamed arity

end RuleSet

end Datalog
