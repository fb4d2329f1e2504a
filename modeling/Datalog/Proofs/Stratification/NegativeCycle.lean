import Datalog.Proofs.Stratification.Dependencies

/-!
# Negative cycles

A rule that negates a relation interdependent with the one it defines cannot be stratified:
the negated relation would have to be closed before it is read. `stratify_error_iff` says
that `stratify` refuses exactly the rule sets with such a rule, and that it reports the
earliest one. Dependencies are looked at in the order of the rules, so the earliest is found
by keeping the least of those seen so far (`foldl_earlier`).
-/

namespace Datalog

/-- The rule at an index negates a relation that is interdependent with its head's. -/
def NegativeLoop (rules : List Rule) (index : Nat) (relation : String) : Prop :=
  ∃ rule, rules[index]? = some rule ∧ ∃ atom ∈ rule.negative, atom.relation = relation ∧
    Interdependent rules relation rule.head.relation

/-- A relation in the body of a rule is interdependent with that of its head as soon as a
chain of dependencies leads back to it. -/
theorem interdependent_iff_leads {rules : List Rule} {rule : Rule} {atom : Atom}
    (member : rule ∈ rules) (inBody : atom ∈ rule.positive ++ rule.negative) :
    Interdependent rules atom.relation rule.head.relation ↔
      Leads rules rule.head.relation atom.relation := by
  constructor
  · exact And.right
  · intro back
    exact ⟨.single ⟨rule, member, rfl, atom, inBody, rfl⟩, back⟩

namespace DependencyGraph

/-- Keeping the earlier dependency of each two finds one of the earliest rule. -/
theorem foldl_earlier (edges : List Dependency) (chosen : Option Dependency) :
    (edges.foldl earlier chosen = none ↔ chosen.toList ++ edges = []) ∧
      ∀ best, edges.foldl earlier chosen = some best →
        best ∈ chosen.toList ++ edges ∧ ∀ edge ∈ chosen.toList ++ edges, best.rule ≤ edge.rule := by
  induction edges generalizing chosen with
  | nil => cases chosen <;> simp
  | cons edge edges inductionHypothesis =>
      rw [List.foldl_cons]
      obtain ⟨isNone, isSome⟩ := inductionHypothesis (earlier chosen edge)
      cases chosen with
      | none => exact ⟨by simpa [earlier] using isNone, by simpa [earlier] using isSome⟩
      | some first =>
          have kept : ∃ better, earlier (some first) edge = some better ∧
              (better = first ∨ better = edge) ∧
              better.rule ≤ first.rule ∧ better.rule ≤ edge.rule := by
            simp only [earlier]
            split
            next isEarlier => exact ⟨edge, rfl, .inr rfl, by omega, Nat.le_refl _⟩
            next isNotEarlier => exact ⟨first, rfl, .inl rfl, Nat.le_refl _, by omega⟩
          obtain ⟨better, isBetter, isEither, beforeFirst, beforeEdge⟩ := kept
          rw [isBetter] at isNone isSome ⊢
          refine ⟨by simp [isNone], fun best isBest => ?_⟩
          obtain ⟨member, isLeast⟩ := isSome best isBest
          have beforeBetter := isLeast better (by simp)
          constructor
          · rcases List.mem_append.1 member with inChosen | inEdges
            · rw [Option.toList_some, List.mem_singleton] at inChosen
              rcases isEither with rfl | rfl <;> simp [inChosen]
            · simp [inEdges]
          · intro other inAll
            rw [Option.toList_some, List.singleton_append, List.mem_cons, List.mem_cons] at inAll
            rcases inAll with rfl | rfl | inEdges
            · omega
            · omega
            · exact isLeast other (by simp [inEdges])

variable {rules : List Rule}

/-- The internal dependencies are those between interdependent relations. -/
theorem mem_internal_iff {edge : Dependency} :
    edge ∈ (ofRules rules).internal (ofRules rules).numbers ↔
      edge ∈ (ofRules rules).dependencies ∧
        (ofRules rules).numbers[edge.source]? = (ofRules rules).numbers[edge.target]? := by
  simp [internal]

/-- An internal negated dependency stands for a negative loop of its rule. -/
theorem negativeLoop_of_mem {edge : Dependency}
    (member : edge ∈ ((ofRules rules).internal (ofRules rules).numbers).filter (·.negated)) :
    ∃ relation, (ofRules rules).names.name? edge.source = some relation ∧
      NegativeLoop rules edge.rule relation := by
  obtain ⟨inGraph, isNegated⟩ := List.mem_filter.1 member
  obtain ⟨isEdge, alike⟩ := mem_internal_iff.1 inGraph
  obtain ⟨rule, atPlace, isHead, atom, inBody, isSource⟩ := exists_atom isEdge
  rw [isNegated] at inBody
  exact ⟨atom.relation, isSource, rule, atPlace, atom, inBody, rfl,
    (numbers_eq_iff isSource isHead).1 alike⟩

/-- Every negative loop is an internal negated dependency of its rule. -/
theorem exists_mem_of_negativeLoop {index : Nat} {relation : String}
    (isLoop : NegativeLoop rules index relation) :
    ∃ edge ∈ ((ofRules rules).internal (ofRules rules).numbers).filter (·.negated),
      edge.rule = index := by
  obtain ⟨rule, atPlace, atom, inBody, rfl, interdependent⟩ := isLoop
  obtain ⟨edge, isEdge, isRule, isNegated, isSource, isHead⟩ :=
    exists_dependency atPlace (show atom ∈ bodyPart true rule from inBody)
  refine ⟨edge, List.mem_filter.2 ⟨mem_internal_iff.2 ⟨isEdge, ?_⟩, isNegated⟩, isRule⟩
  exact (numbers_eq_iff isSource isHead).2 interdependent

/-- No negative cycle is found exactly when there is no negative loop. -/
theorem negativeCycle?_eq_none_iff :
    (ofRules rules).negativeCycle? (ofRules rules).numbers = none ↔
      ∀ index relation, ¬ NegativeLoop rules index relation := by
  rw [negativeCycle?, Option.map_eq_none_iff, (foldl_earlier _ none).1, Option.toList_none,
    List.nil_append, List.eq_nil_iff_forall_not_mem]
  constructor
  · intro empty index relation isLoop
    obtain ⟨edge, member, _⟩ := exists_mem_of_negativeLoop isLoop
    exact empty edge member
  · intro noLoop edge member
    obtain ⟨relation, _, isLoop⟩ := negativeLoop_of_mem member
    exact noLoop edge.rule relation isLoop

/-- The negative cycle found is a negative loop of the earliest rule that has one. -/
theorem negativeLoop_of_negativeCycle? {cycle : NegativeCycle}
    (found : (ofRules rules).negativeCycle? (ofRules rules).numbers = some cycle) :
    NegativeLoop rules cycle.rule cycle.relation ∧
      ∀ index relation, NegativeLoop rules index relation → cycle.rule ≤ index := by
  obtain ⟨edge, isBest, rfl⟩ := Option.map_eq_some_iff.1 found
  obtain ⟨member, isLeast⟩ := (foldl_earlier _ none).2 edge isBest
  rw [Option.toList_none, List.nil_append] at member isLeast
  obtain ⟨relation, isSource, isLoop⟩ := negativeLoop_of_mem member
  rw [isSource, Option.getD_some]
  refine ⟨isLoop, fun index other otherLoop => ?_⟩
  obtain ⟨otherEdge, otherMember, rfl⟩ := exists_mem_of_negativeLoop otherLoop
  exact isLeast otherEdge otherMember

end DependencyGraph

/-- Strata are those of the components of the dependency graph, unless it has a negative
cycle. -/
theorem stratifyRules_eq (rules : List Rule) :
    stratifyRules rules =
      match (DependencyGraph.ofRules rules).negativeCycle?
        (DependencyGraph.ofRules rules).numbers with
      | some cycle => .error cycle
      | none => .ok ⟨(DependencyGraph.ofRules rules).strata (DependencyGraph.ofRules rules).numbers
          (components (DependencyGraph.ofRules rules).successors).length rules⟩ := rfl

/-- Rules are refused exactly with the negative cycle that their graph has. -/
theorem stratifyRules_eq_error_iff {rules : List Rule} {cycle : NegativeCycle} :
    stratifyRules rules = .error cycle ↔
      (DependencyGraph.ofRules rules).negativeCycle? (DependencyGraph.ofRules rules).numbers =
        some cycle := by
  rw [stratifyRules_eq]
  cases (DependencyGraph.ofRules rules).negativeCycle? (DependencyGraph.ofRules rules).numbers <;>
    simp

/-- Stratification fails exactly when some rule negates a relation interdependent with the
one it defines, that is, one that its head leads to; and then it reports the first such rule
with such a relation. -/
theorem stratify_error_iff (ruleSet : RuleSet) :
    ((∃ cycle, stratify ruleSet = .error cycle) ↔
      ∃ rule ∈ ruleSet.rules.toList, ∃ atom ∈ rule.negative,
        Interdependent ruleSet.rules.toList atom.relation rule.head.relation) ∧
    (∀ rule ∈ ruleSet.rules.toList, ∀ atom ∈ rule.negative,
      (Interdependent ruleSet.rules.toList atom.relation rule.head.relation ↔
        Leads ruleSet.rules.toList rule.head.relation atom.relation)) ∧
    ∀ cycle, stratify ruleSet = .error cycle →
      (∃ rule, ruleSet.rules[cycle.rule]? = some rule ∧
        ∃ atom ∈ rule.negative, atom.relation = cycle.relation ∧
          Interdependent ruleSet.rules.toList cycle.relation rule.head.relation) ∧
      ∀ index rule, ruleSet.rules[index]? = some rule →
        (∃ atom ∈ rule.negative,
          Interdependent ruleSet.rules.toList atom.relation rule.head.relation) →
        cycle.rule ≤ index := by
  refine ⟨⟨?_, ?_⟩, ?_, ?_⟩
  · rintro ⟨cycle, refused⟩
    obtain ⟨⟨rule, atPlace, atom, inBody, isRelation, interdependent⟩, _⟩ :=
      DependencyGraph.negativeLoop_of_negativeCycle? (stratifyRules_eq_error_iff.1 refused)
    exact ⟨rule, List.mem_of_getElem? atPlace, atom, inBody, isRelation ▸ interdependent⟩
  · rintro ⟨rule, member, atom, inBody, interdependent⟩
    obtain ⟨index, atPlace⟩ := List.mem_iff_getElem?.1 member
    have isLoop : NegativeLoop ruleSet.rules.toList index atom.relation :=
      ⟨rule, atPlace, atom, inBody, rfl, interdependent⟩
    have found := mt DependencyGraph.negativeCycle?_eq_none_iff.1
      fun noLoop => noLoop index atom.relation isLoop
    obtain ⟨cycle, isCycle⟩ := Option.ne_none_iff_exists'.1 found
    exact ⟨cycle, stratifyRules_eq_error_iff.2 isCycle⟩
  · intro rule member atom inBody
    exact interdependent_iff_leads member (List.mem_append_right _ inBody)
  · intro cycle refused
    obtain ⟨isLoop, isLeast⟩ :=
      DependencyGraph.negativeLoop_of_negativeCycle? (stratifyRules_eq_error_iff.1 refused)
    refine ⟨by simpa [NegativeLoop] using isLoop, ?_⟩
    rintro index rule atPlace ⟨atom, inBody, interdependent⟩
    exact isLeast index atom.relation
      ⟨rule, by simpa using atPlace, atom, inBody, rfl, interdependent⟩

end Datalog
