import Datalog.Rule.Printer
import Datalog.Proofs.Evaluation.Candidates

/-!
# What evaluation preserves

An invariant of a rule set is a property of facts as they are written: its explicit facts
have it, and its rules pass it on from the facts that they match to those that they derive.
It holds of every fact of a store that evaluation makes (`Invariant.of_run`), since a store
only grows by what rules derive from it.

Two properties are such invariants. Every fact has a value for each place of the recorded
shape of its relation, because rules are checked against the shapes. And every value is a
constant of an explicit fact or a rule head, in the very representation, because matching
copies values and compares them only to refuse. `RuleSet.accountedFor_of_evaluate` states both.
-/

namespace Datalog

namespace FactStore

variable {store : FactStore} {property : Fact → Prop}

/-- Every fact that a store lists has a property. -/
def Satisfies (store : FactStore) (property : Fact → Prop) : Prop :=
  ∀ relation, ∀ fact ∈ store.factsOf relation, property fact

/-- A store without facts satisfies everything. -/
theorem satisfies_withShapes (shapes : Std.TreeMap String Shape) (property : Fact → Prop) :
    (withShapes shapes).Satisfies property := by
  intro relation fact listed
  simp at listed

/-- A property that a further fact has as well stays satisfied. -/
theorem Satisfies.add (satisfies : store.Satisfies property) {fact : Fact}
    (holds : property fact) : (store.add fact).1.Satisfies property := by
  intro relation other listed
  rcases mem_factsOf_of_add listed with old | ⟨rfl, _⟩
  · exact satisfies relation other old
  · exact holds

/-- A property that further facts have as well stays satisfied. -/
theorem Satisfies.addMany (satisfies : store.Satisfies property) {facts : List Fact}
    (holds : ∀ fact ∈ facts, property fact) : (store.addMany facts).Satisfies property := by
  induction facts generalizing store with
  | nil => exact satisfies
  | cons fact facts inductionHypothesis =>
      obtain ⟨first, others⟩ := List.forall_mem_cons.1 holds
      exact inductionHypothesis (satisfies.add first) others

end FactStore

/-- A property of facts that the explicit facts have and the rules pass on. -/
structure Invariant (ruleSet : RuleSet) (property : Fact → Prop) : Prop where
  stated : ∀ fact ∈ ruleSet.facts.toList, property fact
  passedOn : ∀ rule ∈ ruleSet.rules.toList, ∀ (store : FactStore) (combination : List Nat)
    (derived : Fact), store.Satisfies property →
      rule.derive? store combination = some derived → property derived

/-- An invariant holds of every fact of a run. -/
theorem Invariant.of_run {ruleSet : RuleSet} {property : Fact → Prop}
    (invariant : Invariant ruleSet property) {limits : Limits} {stratification : Stratification}
    {store : FactStore} (isRun : ruleSet.run limits stratification = .ok store) :
    store.Satisfies property := by
  apply RuleSet.motive_of_run (·.Satisfies property) _ _ isRun
  · exact (FactStore.satisfies_withShapes _ property).addMany invariant.stated
  · intro stratum pass satisfies
    apply satisfies.addMany
    intro fact isDerived
    obtain ⟨rule, member, _, _, combination, _, isDerived⟩ := Pass.mem_derived_iff.1 isDerived
    exact invariant.passedOn rule (RuleSet.mem_of_mem_rulesOf member) pass.store combination fact
      satisfies isDerived

section Copying

variable {values : List Value} {bindings extended : Bindings} {store : FactStore}

/-- All values of bindings are from a list. -/
def Bindings.DrawsFrom (values : List Value) (bindings : Bindings) : Prop :=
  ∀ name value, bindings.get? name = some value → value ∈ values

/-- Matching a term takes over the value that it is matched with, or none. -/
theorem Term.drawsFrom_unify {term : Term} {value : Value}
    (unified : term.unify value bindings = some extended) (drawn : bindings.DrawsFrom values)
    (inValues : value ∈ values) : extended.DrawsFrom values := by
  intro name found isBound
  rw [get?_unify unified] at isBound
  cases already : bindings.get? name with
  | some bound => exact drawn name found (by simpa [already] using isBound)
  | none =>
      obtain ⟨_, rfl⟩ : term.var? = some name ∧ value = found := by
        simpa [already] using isBound
      exact inValues

/-- Matching terms takes over values that they are matched with. -/
theorem UnifiesAll.drawsFrom {terms : List Term} {matched : List Value}
    (unifies : UnifiesAll terms matched bindings extended) (drawn : bindings.DrawsFrom values)
    (inValues : matched ⊆ values) : extended.DrawsFrom values := by
  induction unifies with
  | nil => exact drawn
  | cons first _ inductionHypothesis =>
      obtain ⟨firstInValues, restInValues⟩ := List.cons_subset.1 inValues
      exact inductionHypothesis (Term.drawsFrom_unify first drawn firstInValues) restInValues

/-- Matching atoms takes over values of the facts that they are matched with. -/
theorem drawsFrom_unifyAt {atoms : List Atom} {combination : List Nat}
    (satisfies : store.Satisfies fun fact => fact.values ⊆ values)
    (unified : unifyAt store atoms combination bindings = some extended)
    (drawn : bindings.DrawsFrom values) : extended.DrawsFrom values := by
  obtain ⟨facts, areStored, unifies⟩ := exists_unifiesAll_of_unifyAt unified
  refine unifies.drawsFrom drawn fun value inFacts => ?_
  obtain ⟨fact, member, inFact⟩ := List.mem_flatMap.1 inFacts
  obtain ⟨atom, _, isStored⟩ := exists_mem_of_forall₂ areStored.flip member
  exact satisfies atom.relation fact isStored inFact

end Copying

namespace RuleSet

variable {ruleSet : RuleSet} {limits : Limits} {store : FactStore}

/-- Having a value for each place of a recorded shape is an invariant. -/
theorem invariant_shaped (declared : ruleSet.Declared) (consistent : ruleSet.Consistent) :
    Invariant ruleSet fun fact => fact ∈ ruleSet.shaped where
  stated _ isStated := declared.exists_shapeOf?_fact consistent isStated
  passedOn rule inRules store combination derived _ isDerived := by
    obtain ⟨bindings, _, ofHead, areResolved⟩ := Rule.exists_resolved_of_derive? isDerived
    have isShape := declared.shapeOf?_usage consistent inRules List.mem_cons_self
    exact ⟨rule.head.shape, ofHead ▸ isShape,
      (Args.arity_shape rule.head.args).trans areResolved.length_eq⟩

/-- Having no values but the constants of explicit facts and rule heads is an invariant. -/
theorem invariant_constants (ruleSet : RuleSet) :
    Invariant ruleSet fun fact => fact.values ⊆ ruleSet.constants where
  stated fact isStated value inFact :=
    List.mem_append_left _ (List.mem_flatMap.2 ⟨fact, isStated, inFact⟩)
  passedOn rule inRules store combination derived satisfies isDerived := by
    obtain ⟨bindings, unified, _, areResolved⟩ := Rule.exists_resolved_of_derive? isDerived
    have drawn := drawsFrom_unifyAt satisfies unified fun name value isBound => by cases isBound
    intro value inDerived
    obtain ⟨term, inHead, isResolved⟩ := exists_mem_of_forall₂ areResolved.flip inDerived
    cases term with
    | constant found =>
        cases isResolved
        exact List.mem_append_right _ (List.mem_flatMap.2
          ⟨rule, inRules, List.mem_filterMap.2 ⟨_, inHead, rfl⟩⟩)
    | var name => exact drawn name value isResolved

end RuleSet

namespace FactStore

variable {store : FactStore}

/-- A fact of a named relation with a value for each field has a value under each of them. -/
theorem exists_field? {fact : Fact} {fields : List String}
    (isNamed : store.shapeOf? fact.relation = some (.named fields))
    (sameLength : fields.length = fact.values.length) {field : String} (declared : field ∈ fields) :
    ∃ value ∈ fact.values, store.field? fact field = some value := by
  have isFound : (fields.findIdx? (· == field)).isSome = true := by
    rw [List.findIdx?_isSome, List.any_eq_true]
    exact ⟨field, declared, beq_self_eq_true field⟩
  obtain ⟨place, isPlace⟩ := Option.isSome_iff_exists.1 isFound
  obtain ⟨inBounds, _⟩ := List.findIdx?_eq_some_iff_getElem.1 isPlace
  have inValues : place < fact.values.length := sameLength ▸ inBounds
  refine ⟨fact.values[place], List.getElem_mem inValues, ?_⟩
  rw [field?, isNamed]
  simp only [isPlace, Option.bind_some, List.getElem?_eq_getElem inValues]

/-- Each fact that a store lists is accounted for by a rule set. -/
structure AccountedFor (store : FactStore) (ruleSet : RuleSet) : Prop where
  /-- A fact stands under its relation. -/
  relation_eq : ∀ relation, ∀ fact ∈ store.factsOf relation, fact.relation = relation
  /-- Its relation has a shape, with a place for each of its values. -/
  shape : ∀ relation, ∀ fact ∈ store.factsOf relation, ∃ shape,
    ruleSet.shapeOf? relation = some shape ∧ store.shapeOf? relation = some shape ∧
      shape.arity = fact.values.length
  /-- In a named relation it prints its values behind their fields. -/
  text : ∀ relation fields, store.shapeOf? relation = some (.named fields) →
    ∀ fact ∈ store.factsOf relation, fact.textIn (store.shapeOf? relation) =
      applicationText relation
        (commaSeparated (fieldTexts (fields.zip (fact.values.map Value.text))))
  /-- In a named relation it has a value for every field. -/
  field : ∀ relation fields, store.shapeOf? relation = some (.named fields) →
    ∀ fact ∈ store.factsOf relation, ∀ field ∈ fields,
      ∃ value ∈ fact.values, store.field? fact field = some value
  /-- Its values are constants of explicit facts or rule heads, as they are written there. -/
  values : ∀ relation, ∀ fact ∈ store.factsOf relation, fact.values ⊆ ruleSet.constants

end FactStore

namespace RuleSet

variable {ruleSet : RuleSet} {limits : Limits} {store : FactStore}

/-- Evaluation keeps to the recorded shapes and invents no values. -/
theorem accountedFor_of_evaluate (constructed : ruleSet.Constructed)
    (isOk : ruleSet.evaluate limits = .ok store) : store.AccountedFor ruleSet := by
  obtain ⟨checked, stratification, _, isRun⟩ := evaluate_eq_ok_iff.1 isOk
  have wellFormed : store.WellFormed := by
    obtain ⟨derived, rfl⟩ := exists_addMany_of_run isRun
    exact ((FactStore.wellFormed_withShapes _).addMany _).addMany _
  have sameShapes (relation : String) : store.shapeOf? relation = ruleSet.shapeOf? relation := by
    rw [FactStore.shapeOf?, shapeOf?, shapes_eq_of_run isRun]
  have shaped := (invariant_shaped constructed.declared (check_eq_ok_iff.1 checked)).of_run isRun
  have sameLength {relation : String} {fields : List String}
      (isNamed : store.shapeOf? relation = some (.named fields)) {fact : Fact}
      (listed : fact ∈ store.factsOf relation) : fields.length = fact.values.length := by
    obtain ⟨shape, isShape, arity⟩ := shaped relation fact listed
    rw [wellFormed.relation_eq relation fact listed, ← sameShapes, isNamed] at isShape
    cases isShape
    exact arity
  constructor
  · exact wellFormed.relation_eq
  · intro relation fact listed
    obtain ⟨shape, isShape, arity⟩ := shaped relation fact listed
    rw [wellFormed.relation_eq relation fact listed] at isShape
    exact ⟨shape, isShape, (sameShapes relation).trans isShape, arity⟩
  · intro relation fields isNamed fact listed
    rw [isNamed, Fact.textIn, if_pos (sameLength isNamed listed),
      wellFormed.relation_eq relation fact listed]
  · intro relation fields isNamed fact listed field declared
    have ofRelation := wellFormed.relation_eq relation fact listed
    exact FactStore.exists_field? (ofRelation ▸ isNamed) (sameLength isNamed listed) declared
  · exact (invariant_constants ruleSet).of_run isRun

/-- The rule `point(x: X, y: 1.0) :- n(X).` and the facts `n(1)` and `n(2)`. -/
def points : RuleSet :=
  let args : Record HeadTerm :=
    ⟨[("x", .var "X"), ("y", .constant (.float ⟨0x3ff0000000000000⟩))], by decide⟩
  let rule : Rule := ⟨⟨"point", .named args⟩, [⟨"n", .ordered [.var "X"]⟩], [], []⟩
  (((∅ : RuleSet).addRule rule).1.addFact ⟨"n", [.int 1]⟩).1.addFact ⟨"n", [.int 2]⟩ |>.1

/-- The points have their two fields, and `1.0` stays apart from `1`. -/
theorem accountedFor_points :
    points.Constructed ∧ ∃ store, points.evaluate .standard = .ok store ∧
      store.AccountedFor points := by
  have constructed : points.Constructed := .addFact (.addFact (.addRule .empty _) _) _
  have succeeds : (points.evaluate .standard).isOk = true := by decide +kernel
  obtain ⟨store, isOk⟩ := exists_eq_ok_of_isOk succeeds
  exact ⟨constructed, store, isOk, accountedFor_of_evaluate constructed isOk⟩

end RuleSet

end Datalog
