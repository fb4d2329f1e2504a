import Datalog.Proofs.Pairing
import Datalog.Proofs.Stratification.Components
import Datalog.Stratification.Basic

/-!
# Dependencies between relations

Which relations depend on which is a property of the rules alone: `Feeds` and `Leads` speak
of names, without a graph. `forall₂_names_ofRules` says that the dependency graph has one
edge for each body atom and nothing else, so a path in the graph is a chain of dependencies
(`reaches_iff_leads`) and the numbers of its components tell which relations depend on each
other.
-/

namespace Datalog

/-- A rule with the first relation in its body defines the second. -/
def Feeds (rules : List Rule) (source target : String) : Prop :=
  ∃ rule ∈ rules, rule.head.relation = target ∧
    ∃ atom ∈ rule.positive ++ rule.negative, atom.relation = source

/-- A chain of rules leads from the first relation to the second. -/
def Leads (rules : List Rule) : String → String → Prop :=
  Relation.ReflTransGen (Feeds rules)

/-- Relations that lead to each other. -/
def Interdependent (rules : List Rule) (first second : String) : Prop :=
  Leads rules first second ∧ Leads rules second first

/-- A dependency by the names of its relations. -/
structure NamedDependency where
  source : String
  target : String
  negated : Bool
  rule : Nat

/-- The dependency that an atom in the body of a numbered rule stands for. -/
def Rule.dependencyOn (rule : Rule) (index : Nat) (negated : Bool) (atom : Atom) :
    NamedDependency :=
  ⟨atom.relation, rule.head.relation, negated, index⟩

/-- The dependencies of a numbered rule, one for each atom of its body. -/
def Rule.namedDependencies (entry : Rule × Nat) : List NamedDependency :=
  entry.1.positive.map (entry.1.dependencyOn entry.2 false) ++
    entry.1.negative.map (entry.1.dependencyOn entry.2 true)

namespace NameTable

/-- Only one number stands for a name. -/
theorem name?_inj {table : NameTable} {first second : Nat} {name : String}
    (isFirst : table.name? first = some name) (isSecond : table.name? second = some name) :
    first = second := by
  rw [← number?_eq_some_iff] at isFirst isSecond
  exact Option.some.inj (isFirst.symm.trans isSecond)

/-- Exactly the numbers below the size have names. -/
theorem lt_size_iff {table : NameTable} {number : Nat} :
    number < table.size ↔ ∃ name, table.name? number = some name := by
  simp only [size, name?, Array.getElem?_eq_some_iff]
  constructor
  · intro inBounds
    exact ⟨_, inBounds, rfl⟩
  · rintro ⟨_, inBounds, _⟩
    exact inBounds

end NameTable

namespace DependencyGraph

/-- A dependency of a graph has the names of another. -/
structure Names (graph : DependencyGraph) (edge : Dependency) (named : NamedDependency) :
    Prop where
  source : graph.names.name? edge.source = some named.source
  target : graph.names.name? edge.target = some named.target
  negated : edge.negated = named.negated
  rule : edge.rule = named.rule

/-- A graph that has the listed dependencies and knows at least the names of another. -/
structure Extends (graph before : DependencyGraph) (entries : List NamedDependency) : Prop where
  keeps : ∀ {number name}, before.names.name? number = some name →
    graph.names.name? number = some name
  names : List.Forall₂ graph.Names graph.dependencies.toList entries

/-- Interning one more atom of a rule appends its dependency. -/
theorem Extends.addAtom {graph before : DependencyGraph} {entries : List NamedDependency}
    {rule : Rule} {target : Nat} (extended : Extends graph before entries)
    (isHead : before.names.name? target = some rule.head.relation) (index : Nat)
    (negated : Bool) (atom : Atom) :
    Extends (DependencyGraph.addAtom target index negated graph atom) before
      (entries ++ [rule.dependencyOn index negated atom]) := by
  have keeps {number : Nat} {name : String} (known : graph.names.name? number = some name) :
      (graph.names.intern atom.relation).1.name? number = some name :=
    NameTable.name?_intern_of_some known
  have source := NameTable.number?_intern_self graph.names atom.relation
  rw [NameTable.number?_eq_some_iff] at source
  refine ⟨fun known => keeps (extended.keeps known), ?_⟩
  simp only [DependencyGraph.addAtom, Array.toList_push]
  refine List.rel_append (extended.names.imp fun edge named matched => ?_) (.cons ?_ .nil)
  · exact ⟨keeps matched.source, keeps matched.target, matched.negated, matched.rule⟩
  · exact ⟨source, keeps (extended.keeps isHead), rfl, rfl⟩

/-- Interning the atoms of one part of a body appends their dependencies in order. -/
theorem Extends.foldl_addAtom {graph before : DependencyGraph} {entries : List NamedDependency}
    {rule : Rule} {target : Nat} (extended : Extends graph before entries)
    (isHead : before.names.name? target = some rule.head.relation) (index : Nat)
    (negated : Bool) (atoms : List Atom) :
    Extends (atoms.foldl (DependencyGraph.addAtom target index negated) graph) before
      (entries ++ atoms.map (rule.dependencyOn index negated)) := by
  induction atoms generalizing graph entries with
  | nil => simpa using extended
  | cons atom atoms inductionHypothesis =>
      simpa using inductionHypothesis (extended.addAtom isHead index negated atom)

/-- Adding a rule appends its dependencies and makes its head known. -/
theorem Extends.addRule {graph before : DependencyGraph} {entries : List NamedDependency}
    (extended : Extends graph before entries) (entry : Rule × Nat) :
    Extends (graph.addRule entry) before (entries ++ Rule.namedDependencies entry) ∧
      ∃ target, (graph.addRule entry).names.name? target = some entry.1.head.relation := by
  obtain ⟨rule, index⟩ := entry
  have isHead := NameTable.number?_intern_self graph.names rule.head.relation
  rw [NameTable.number?_eq_some_iff] at isHead
  have keeps {number : Nat} {name : String} (known : graph.names.name? number = some name) :
      (graph.names.intern rule.head.relation).1.name? number = some name :=
    NameTable.name?_intern_of_some known
  -- The graph with the head interned is the one that the body's dependencies extend.
  have withHead : Extends ⟨(graph.names.intern rule.head.relation).1, graph.dependencies⟩
      ⟨(graph.names.intern rule.head.relation).1, graph.dependencies⟩ entries :=
    ⟨id, extended.names.imp fun edge named matched =>
      ⟨keeps matched.source, keeps matched.target, matched.negated, matched.rule⟩⟩
  have withBody := (withHead.foldl_addAtom isHead index false rule.positive).foldl_addAtom
    isHead index true rule.negative
  rw [List.append_assoc] at withBody
  exact ⟨⟨fun known => withBody.keeps (keeps (extended.keeps known)), withBody.names⟩,
    _, withBody.keeps isHead⟩

/-- Adding rules one after the other appends their dependencies and makes their heads known. -/
theorem Extends.foldl_addRule {graph before : DependencyGraph} {entries : List NamedDependency}
    (extended : Extends graph before entries) (rules : List (Rule × Nat)) :
    Extends (rules.foldl DependencyGraph.addRule graph) before
        (entries ++ rules.flatMap Rule.namedDependencies) ∧
      ∀ entry ∈ rules, ∃ target,
        (rules.foldl DependencyGraph.addRule graph).names.name? target =
          some entry.1.head.relation := by
  induction rules generalizing graph before entries with
  | nil => simpa using extended
  | cons entry rules inductionHypothesis =>
      obtain ⟨withRule, target, isHead⟩ := extended.addRule entry
      obtain ⟨withOthers, heads⟩ := inductionHypothesis withRule
      have fromRule := (inductionHypothesis
        (show Extends _ (graph.addRule entry) _ from ⟨id, withRule.names⟩)).1
      refine ⟨by simpa using withOthers, List.forall_mem_cons.2 ⟨?_, heads⟩⟩
      exact ⟨target, fromRule.keeps isHead⟩

/-- The graph of rules has one dependency for each atom in their bodies, in the order of the
rules, and no others. -/
theorem forall₂_names_ofRules (rules : List Rule) :
    List.Forall₂ (ofRules rules).Names (ofRules rules).dependencies.toList
      (rules.zipIdx.flatMap Rule.namedDependencies) := by
  have extended : Extends empty empty [] := ⟨id, by simp [empty]⟩
  simpa [ofRules] using (extended.foldl_addRule rules.zipIdx).1.names

/-- The graph of rules knows the relation of every head. -/
theorem exists_name?_head {rules : List Rule} {rule : Rule} (member : rule ∈ rules) :
    ∃ target, (ofRules rules).names.name? target = some rule.head.relation := by
  have extended : Extends empty empty [] := ⟨id, by simp [empty]⟩
  obtain ⟨index, atIndex⟩ := List.mem_iff_getElem?.1 member
  exact (extended.foldl_addRule rules.zipIdx).2 (rule, index)
    (List.mk_mem_zipIdx_iff_getElem?.2 atIndex)

/-- The part of a rule's body that holds the negated atoms, or the positive ones. -/
def bodyPart (negated : Bool) (rule : Rule) : List Atom :=
  if negated then rule.negative else rule.positive

/-- Both parts make up the body. -/
theorem exists_mem_bodyPart_iff {rule : Rule} {atom : Atom} :
    (∃ negated, atom ∈ bodyPart negated rule) ↔ atom ∈ rule.positive ++ rule.negative := by
  simp [bodyPart]

/-- The dependencies of rules are those on the atoms of their bodies. -/
theorem mem_namedDependencies_iff {rules : List Rule} {named : NamedDependency} :
    named ∈ rules.zipIdx.flatMap Rule.namedDependencies ↔
      ∃ rule, rules[named.rule]? = some rule ∧ named.target = rule.head.relation ∧
        ∃ atom ∈ bodyPart named.negated rule, atom.relation = named.source := by
  obtain ⟨source, target, negated, index⟩ := named
  simp only [List.mem_flatMap, Prod.exists, List.mk_mem_zipIdx_iff_getElem?,
    Rule.namedDependencies, Rule.dependencyOn, List.mem_append, List.mem_map,
    NamedDependency.mk.injEq]
  constructor
  · rintro ⟨rule, place, atPlace, ⟨atom, member, rfl, rfl, rfl, rfl⟩ |
      ⟨atom, member, rfl, rfl, rfl, rfl⟩⟩
    · exact ⟨rule, atPlace, rfl, atom, member, rfl⟩
    · exact ⟨rule, atPlace, rfl, atom, member, rfl⟩
  · rintro ⟨rule, atPlace, rfl, atom, member, rfl⟩
    refine ⟨rule, index, atPlace, ?_⟩
    cases negated with
    | false => exact .inl ⟨atom, member, rfl, rfl, rfl, rfl⟩
    | true => exact .inr ⟨atom, member, rfl, rfl, rfl, rfl⟩

variable {rules : List Rule}

/-- Every dependency of the graph stands for an atom in the body of its rule. -/
theorem exists_atom {edge : Dependency} (member : edge ∈ (ofRules rules).dependencies) :
    ∃ rule, rules[edge.rule]? = some rule ∧
      (ofRules rules).names.name? edge.target = some rule.head.relation ∧
      ∃ atom ∈ bodyPart edge.negated rule,
        (ofRules rules).names.name? edge.source = some atom.relation := by
  obtain ⟨named, isNamed, matched⟩ :=
    exists_mem_of_forall₂ (forall₂_names_ofRules rules) (Array.mem_toList_iff.2 member)
  obtain ⟨rule, atPlace, isHead, atom, inBody, isSource⟩ := mem_namedDependencies_iff.1 isNamed
  rw [← matched.rule] at atPlace
  rw [← matched.negated] at inBody
  exact ⟨rule, atPlace, isHead ▸ matched.target, atom, inBody, isSource ▸ matched.source⟩

/-- Every atom in the body of a rule has a dependency in the graph. -/
theorem exists_dependency {rule : Rule} {index : Nat} (atPlace : rules[index]? = some rule)
    {negated : Bool} {atom : Atom} (inBody : atom ∈ bodyPart negated rule) :
    ∃ edge ∈ (ofRules rules).dependencies, edge.rule = index ∧ edge.negated = negated ∧
      (ofRules rules).names.name? edge.source = some atom.relation ∧
      (ofRules rules).names.name? edge.target = some rule.head.relation := by
  have isNamed : rule.dependencyOn index negated atom ∈
      rules.zipIdx.flatMap Rule.namedDependencies :=
    mem_namedDependencies_iff.2 ⟨rule, atPlace, rfl, atom, inBody, rfl⟩
  obtain ⟨edge, member, matched⟩ :=
    exists_mem_of_forall₂ (forall₂_names_ofRules rules).flip isNamed
  exact ⟨edge, Array.mem_toList_iff.1 member, matched.rule, matched.negated, matched.source,
    matched.target⟩

/-- The searched form of a graph has a place for each relation. -/
@[simp] theorem size_successors (graph : DependencyGraph) :
    graph.successors.size = graph.size := by
  simp [successors, bySource]

/-- The edges of the searched form are the dependencies of the graph. -/
theorem edge_successors_iff {source target : Nat} :
    (ofRules rules).successors.Edge source target ↔
      ∃ edge ∈ (ofRules rules).dependencies, edge.source = source ∧ edge.target = target := by
  simp only [Successors.Edge, Successors.of, successors, bySource, Array.getD_eq_getD_getElem?,
    Array.getElem?_map, getElem?_distribute]
  constructor
  · intro edge
    split at edge
    next => simpa [List.mem_filterMap, and_assoc] using edge
    next => simp at edge
  · rintro ⟨edge, member, rfl, rfl⟩
    obtain ⟨_, _, _, atom, _, isSource⟩ := exists_atom member
    have inBounds : edge.source < (ofRules rules).size :=
      NameTable.lt_size_iff.2 ⟨atom.relation, isSource⟩
    rw [if_pos inBounds]
    simp only [Option.map_some, Option.getD_some, List.mem_map, List.mem_filterMap]
    exact ⟨edge, ⟨(edge.source, edge), ⟨edge, Array.mem_toList_iff.2 member, rfl⟩, by simp⟩, rfl⟩

/-- An edge between two numbered relations says that the one feeds the other. -/
theorem edge_iff_feeds {source target : Nat} {first second : String}
    (isFirst : (ofRules rules).names.name? source = some first)
    (isSecond : (ofRules rules).names.name? target = some second) :
    (ofRules rules).successors.Edge source target ↔ Feeds rules first second := by
  rw [edge_successors_iff]
  constructor
  · rintro ⟨edge, member, rfl, rfl⟩
    obtain ⟨rule, atPlace, isHead, atom, inBody, isSource⟩ := exists_atom member
    rw [isSecond, Option.some.injEq] at isHead
    rw [isFirst, Option.some.injEq] at isSource
    exact ⟨rule, List.mem_of_getElem? atPlace, isHead.symm, atom,
      exists_mem_bodyPart_iff.1 ⟨_, inBody⟩, isSource.symm⟩
  · rintro ⟨rule, member, rfl, atom, inBody, rfl⟩
    obtain ⟨negated, inPart⟩ := exists_mem_bodyPart_iff.2 inBody
    obtain ⟨index, atPlace⟩ := List.mem_iff_getElem?.1 member
    obtain ⟨edge, isEdge, _, _, isSource, isTarget⟩ := exists_dependency atPlace inPart
    exact ⟨edge, isEdge, NameTable.name?_inj isSource isFirst,
      NameTable.name?_inj isTarget isSecond⟩

/-- Every relation in the body of a rule has a number. -/
theorem exists_name?_of_feeds {first second : String} (feeds : Feeds rules first second) :
    ∃ source, (ofRules rules).names.name? source = some first := by
  obtain ⟨rule, member, _, atom, inBody, rfl⟩ := feeds
  obtain ⟨negated, inPart⟩ := exists_mem_bodyPart_iff.2 inBody
  obtain ⟨index, atPlace⟩ := List.mem_iff_getElem?.1 member
  obtain ⟨edge, _, _, _, isSource, _⟩ := exists_dependency atPlace inPart
  exact ⟨edge.source, isSource⟩

/-- Paths of the graph are chains of dependencies between the relations at their ends. -/
theorem reaches_iff_leads {source target : Nat} {first second : String}
    (isFirst : (ofRules rules).names.name? source = some first)
    (isSecond : (ofRules rules).names.name? target = some second) :
    (ofRules rules).successors.Reaches source target ↔ Leads rules first second := by
  constructor
  · intro path
    induction path using Relation.ReflTransGen.head_induction_on generalizing first with
    | refl =>
        rw [isFirst, Option.some.injEq] at isSecond
        exact isSecond ▸ .refl
    | @head source middle edge _ inductionHypothesis =>
        obtain ⟨dependency, member, _, rfl⟩ := edge_successors_iff.1 edge
        obtain ⟨rule, _, isHead, _⟩ := exists_atom member
        exact .head ((edge_iff_feeds isFirst isHead).1 edge) (inductionHypothesis isHead)
  · intro path
    induction path using Relation.ReflTransGen.head_induction_on generalizing source with
    | refl => exact NameTable.name?_inj isFirst isSecond ▸ .refl
    | @head first middle feeds further inductionHypothesis =>
        have known : ∃ number, (ofRules rules).names.name? number = some middle := by
          rcases Relation.ReflTransGen.cases_head further with rfl | ⟨next, nextFeeds, _⟩
          · exact ⟨target, isSecond⟩
          · exact exists_name?_of_feeds nextFeeds
        obtain ⟨number, isMiddle⟩ := known
        exact .head ((edge_iff_feeds isFirst isMiddle).2 feeds) (inductionHypothesis isMiddle)

/-- The numbers that the components of the graph give to relations. -/
def numbers (graph : DependencyGraph) : Array Nat :=
  componentNumbers graph.size (components graph.successors)

/-- Relations are numbered alike exactly when they are interdependent. -/
theorem numbers_eq_iff {source target : Nat} {first second : String}
    (isFirst : (ofRules rules).names.name? source = some first)
    (isSecond : (ofRules rules).names.name? target = some second) :
    (ofRules rules).numbers[source]? = (ofRules rules).numbers[target]? ↔
      Interdependent rules first second := by
  have condensation := isCondensation_components (ofRules rules).successors
  have bySize := @componentNumbers_eq_iff _ _ condensation source target
  rw [size_successors] at bySize
  rw [numbers, bySize (NameTable.lt_size_iff.2 ⟨first, isFirst⟩)
    (NameTable.lt_size_iff.2 ⟨second, isSecond⟩), Successors.StronglyConnected,
    reaches_iff_leads isFirst isSecond, reaches_iff_leads isSecond isFirst, Interdependent]

end DependencyGraph

end Datalog
