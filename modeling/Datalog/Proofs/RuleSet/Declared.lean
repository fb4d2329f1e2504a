import Datalog.Proofs.FactStore.Growth
import Datalog.Proofs.RuleSet.Check

/-!
# Relations in use

In a rule set that is put together step by step exactly the relations in use have a shape
(`RuleSet.Declared`): adding a fact or a rule preserves this. More facts of declared relations
change neither the shapes nor the rules.
-/

namespace Datalog.RuleSet

variable {ruleSet : RuleSet}

/-- A relation has a shape. -/
def Knows (ruleSet : RuleSet) (relation : String) : Prop :=
  ∃ shape, ruleSet.shapeOf? relation = some shape

/-- A relation occurs in a fact or in a rule. -/
def Uses (ruleSet : RuleSet) (relation : String) : Prop :=
  (∃ fact ∈ ruleSet.facts.toList, fact.relation = relation) ∨
    ∃ rule ∈ ruleSet.rules.toList, ∃ usage ∈ rule.usages, usage.1 = relation

/-- Exactly the relations in use have a shape. -/
def Declared (ruleSet : RuleSet) : Prop :=
  ∀ relation, ruleSet.Knows relation ↔ ruleSet.Uses relation

/-- The rules of a consistent rule set use relations in their recorded shapes. -/
theorem Declared.shapeOf?_usage (declared : ruleSet.Declared) (consistent : ruleSet.Consistent)
    {rule : Rule} (inRules : rule ∈ ruleSet.rules.toList) {usage : String × Shape}
    (isUsage : usage ∈ rule.usages) : ruleSet.shapeOf? usage.1 = some usage.2 := by
  obtain ⟨shape, isShape⟩ := (declared usage.1).2 (.inr ⟨rule, inRules, usage, isUsage, rfl⟩)
  rw [isShape, consistent.usages rule inRules usage isUsage shape isShape]

/-- The explicit facts of a consistent rule set have a value for each place of a recorded
shape. -/
theorem Declared.exists_shapeOf?_fact (declared : ruleSet.Declared)
    (consistent : ruleSet.Consistent) {fact : Fact} (isStated : fact ∈ ruleSet.facts.toList) :
    ∃ shape, ruleSet.shapeOf? fact.relation = some shape ∧
      shape.arity = fact.values.length := by
  obtain ⟨shape, isShape⟩ := (declared fact.relation).2 (.inl ⟨fact, isStated, rfl⟩)
  exact ⟨shape, isShape, consistent.facts fact isStated shape isShape⟩

/-- A relation keeps its shape, and takes a declared one if it has none. -/
theorem shapeOf?_declare (ruleSet : RuleSet) (relation other : String) (shape : Shape) :
    (ruleSet.declare relation shape).shapeOf? other =
      (ruleSet.shapeOf? other <|> if relation = other then some shape else none) := by
  simp only [shapeOf?, declare, Std.TreeMap.getElem?_insertIfNew,
    Std.LawfulEqCmp.compare_eq_iff_eq]
  by_cases same : relation = other
  · subst same
    cases isDeclared : ruleSet.shapes[relation]? with
    | none =>
        have absent : relation ∉ ruleSet.shapes := by
          rw [← Std.TreeMap.isSome_getElem?_iff_mem, isDeclared]
          exact Bool.false_ne_true
        simp [absent]
    | some found =>
        have present : relation ∈ ruleSet.shapes := by
          rw [← Std.TreeMap.isSome_getElem?_iff_mem, isDeclared]
          rfl
        simp [present]
  · simp [same]

/-- A relation that is declared is known from then on, and no other becomes known. -/
theorem knows_declare_iff {relation other : String} {shape : Shape} :
    (ruleSet.declare relation shape).Knows other ↔
      ruleSet.Knows other ∨ relation = other := by
  rw [Knows, Knows, shapeOf?_declare]
  cases ruleSet.shapeOf? other <;> by_cases same : relation = other <;> simp [same]

/-- Declaring a relation that is known changes no shape. -/
theorem shapeOf?_declare_of_knows {relation : String} (known : ruleSet.Knows relation)
    (shape : Shape) (other : String) :
    (ruleSet.declare relation shape).shapeOf? other = ruleSet.shapeOf? other := by
  obtain ⟨found, isFound⟩ := known
  rw [shapeOf?_declare]
  cases isOther : ruleSet.shapeOf? other with
  | some => rfl
  | none =>
      have different : relation ≠ other := by
        rintro rfl
        rw [isFound] at isOther
        cases isOther
      rw [if_neg different]
      rfl

/-- Declaring relations of which all are known changes no shape. -/
theorem shapeOf?_foldl_declare {usages : List (String × Shape)}
    (known : ∀ usage ∈ usages, ruleSet.Knows usage.1) (relation : String) :
    (usages.foldl (fun set usage => set.declare usage.1 usage.2) ruleSet).shapeOf? relation =
      ruleSet.shapeOf? relation := by
  induction usages generalizing ruleSet with
  | nil => rfl
  | cons usage usages inductionHypothesis =>
      obtain ⟨first, others⟩ := List.forall_mem_cons.1 known
      rw [List.foldl_cons, inductionHypothesis fun other member =>
        knows_declare_iff.2 (.inl (others other member))]
      exact shapeOf?_declare_of_knows first _ _

/-- Declaring relations makes these known, and no others. -/
theorem knows_foldl_declare_iff {usages : List (String × Shape)} {relation : String} :
    (usages.foldl (fun set usage => set.declare usage.1 usage.2) ruleSet).Knows relation ↔
      ruleSet.Knows relation ∨ ∃ usage ∈ usages, usage.1 = relation := by
  induction usages generalizing ruleSet with
  | nil => simp
  | cons usage usages inductionHypothesis =>
      rw [List.foldl_cons, inductionHypothesis, knows_declare_iff, or_assoc,
        List.exists_mem_cons_iff]

/-- Declaring relations adds no facts and no rules. -/
theorem foldl_declare_eq (usages : List (String × Shape)) (ruleSet : RuleSet) :
    (usages.foldl (fun set usage => set.declare usage.1 usage.2) ruleSet).facts =
        ruleSet.facts ∧
      (usages.foldl (fun set usage => set.declare usage.1 usage.2) ruleSet).rules =
        ruleSet.rules := by
  induction usages generalizing ruleSet with
  | nil => exact ⟨rfl, rfl⟩
  | cons usage usages inductionHypothesis => exact inductionHypothesis _

section AddFact

variable {fact : Fact} {relation : String}

/-- Adding a fact inserts it. -/
theorem facts_addFact (ruleSet : RuleSet) (fact : Fact) :
    (ruleSet.addFact fact).1.facts = ruleSet.facts.insert fact := rfl

/-- Adding a fact adds no rules. -/
theorem rules_addFact (ruleSet : RuleSet) (fact : Fact) :
    (ruleSet.addFact fact).1.rules = ruleSet.rules := rfl

/-- Adding a fact declares its relation. -/
theorem shapeOf?_addFact (ruleSet : RuleSet) (fact : Fact) (relation : String) :
    (ruleSet.addFact fact).1.shapeOf? relation =
      (ruleSet.declare fact.relation (.ordered fact.values.length)).shapeOf? relation := rfl

/-- The relations in use after adding a fact are its own and those before. -/
theorem uses_addFact_iff :
    (ruleSet.addFact fact).1.Uses relation ↔ ruleSet.Uses relation ∨ fact.relation = relation := by
  have inFacts : (∃ found ∈ (ruleSet.facts.insert fact).toList, found.relation = relation) ↔
      (∃ found ∈ ruleSet.facts.toList, found.relation = relation) ∨ fact.relation = relation := by
    rw [OrderedSet.toList_insert]
    split
    next present =>
      refine (or_iff_left_of_imp ?_).symm
      rintro rfl
      obtain ⟨item, listed, equal⟩ := OrderedSet.contains_iff.1 present
      exact ⟨item, listed, Fact.relation_congr (Fact.beq_iff_cmp_eq.2 equal)⟩
    next => simp only [List.mem_append, List.mem_singleton, or_and_right, exists_or,
      exists_eq_left]
  rw [Uses, facts_addFact, rules_addFact, inFacts, Uses, or_right_comm]

/-- Adding a fact keeps exactly the relations in use declared. -/
theorem Declared.addFact (declared : ruleSet.Declared) (fact : Fact) :
    (ruleSet.addFact fact).1.Declared := by
  intro relation
  rw [uses_addFact_iff, ← declared relation, Knows, shapeOf?_addFact]
  exact knows_declare_iff

end AddFact

section AddRule

variable {rule : Rule} {relation : String}

/-- Adding a rule adds no facts. -/
theorem facts_addRule (ruleSet : RuleSet) (rule : Rule) :
    (ruleSet.addRule rule).1.facts = ruleSet.facts := by
  rw [addRule]
  split <;> exact (foldl_declare_eq _ _).1

/-- Adding a rule declares the relations that it uses. -/
theorem shapeOf?_addRule (ruleSet : RuleSet) (rule : Rule) (relation : String) :
    (ruleSet.addRule rule).1.shapeOf? relation = (rule.usages.foldl
      (fun set usage => set.declare usage.1 usage.2) ruleSet).shapeOf? relation := by
  rw [addRule]
  split <;> rfl

/-- A rule is appended unless an equal one is there. -/
theorem rules_addRule (ruleSet : RuleSet) (rule : Rule) :
    (ruleSet.addRule rule).1.rules.toList =
      if ruleSet.rules.toList.any (· == rule) then ruleSet.rules.toList
      else ruleSet.rules.toList ++ [rule] := by
  have sameRules := (foldl_declare_eq rule.usages ruleSet).2
  rw [addRule]
  split
  next isNew =>
    rw [sameRules] at isNew
    rw [isNew]
    simp [sameRules]
  next isOld =>
    rw [sameRules, Bool.not_eq_false] at isOld
    rw [isOld]
    simp [sameRules]

/-- The relations in use after adding a rule are those that it uses and those before. -/
theorem uses_addRule_iff :
    (ruleSet.addRule rule).1.Uses relation ↔
      ruleSet.Uses relation ∨ ∃ usage ∈ rule.usages, usage.1 = relation := by
  have inRules : (∃ found ∈ (ruleSet.addRule rule).1.rules.toList,
      ∃ usage ∈ found.usages, usage.1 = relation) ↔
      (∃ found ∈ ruleSet.rules.toList, ∃ usage ∈ found.usages, usage.1 = relation) ∨
        ∃ usage ∈ rule.usages, usage.1 = relation := by
    rw [rules_addRule]
    split
    next present =>
      refine (or_iff_left_of_imp ?_).symm
      rintro ⟨usage, isUsage, isRelation⟩
      obtain ⟨found, listed, equal⟩ := List.any_eq_true.1 present
      exact ⟨found, listed, usage, Rule.mem_usages_congr (Rule.beq_symm equal) isUsage,
        isRelation⟩
    next => simp only [List.mem_append, List.mem_singleton, or_and_right, exists_or,
      exists_eq_left]
  rw [Uses, facts_addRule, inRules, Uses, or_assoc]

/-- Adding a rule keeps exactly the relations in use declared. -/
theorem Declared.addRule (declared : ruleSet.Declared) (rule : Rule) :
    (ruleSet.addRule rule).1.Declared := by
  intro relation
  rw [uses_addRule_iff, ← declared relation, Knows, shapeOf?_addRule]
  exact knows_foldl_declare_iff

end AddRule

/-- In the empty rule set no relation is used and none has a shape. -/
theorem declared_empty : Declared ∅ := by
  intro relation
  refine iff_of_false ?_ ?_
  · rintro ⟨shape, isShape⟩
    rw [shapeOf?] at isShape
    change (∅ : Std.TreeMap String Shape)[relation]? = some shape at isShape
    rw [Std.TreeMap.getElem?_emptyc] at isShape
    cases isShape
  · rintro (⟨fact, listed, _⟩ | ⟨rule, listed, _⟩) <;> cases listed

section WithFacts

variable {facts : List Fact}

/-- More facts do not change the rules. -/
theorem rules_withFacts (ruleSet : RuleSet) (facts : List Fact) :
    (ruleSet.withFacts facts).rules = ruleSet.rules := by
  induction facts generalizing ruleSet with
  | nil => rfl
  | cons fact facts inductionHypothesis => exact inductionHypothesis _

/-- More facts are inserted one after the other. -/
theorem facts_withFacts (ruleSet : RuleSet) (facts : List Fact) :
    (ruleSet.withFacts facts).facts = ruleSet.facts.insertMany facts := by
  induction facts generalizing ruleSet with
  | nil => rfl
  | cons fact facts inductionHypothesis => exact inductionHypothesis _

/-- More facts of known relations do not change the shapes. -/
theorem shapeOf?_withFacts (known : ∀ fact ∈ facts, ruleSet.Knows fact.relation)
    (relation : String) :
    (ruleSet.withFacts facts).shapeOf? relation = ruleSet.shapeOf? relation := by
  induction facts generalizing ruleSet with
  | nil => rfl
  | cons fact facts inductionHypothesis =>
      obtain ⟨first, others⟩ := List.forall_mem_cons.1 known
      have keeps (other : String) :
          (ruleSet.addFact fact).1.shapeOf? other = ruleSet.shapeOf? other := by
        rw [shapeOf?_addFact, shapeOf?_declare_of_knows first]
      change ((ruleSet.addFact fact).1.withFacts facts).shapeOf? relation = _
      rw [inductionHypothesis fun other member => ?_, keeps]
      rw [Knows, keeps]
      exact others other member

end WithFacts

end Datalog.RuleSet
