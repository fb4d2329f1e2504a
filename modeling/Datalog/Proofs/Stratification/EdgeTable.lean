import Datalog.Proofs.Collection.Interning
import Datalog.Proofs.Stratification.Order

/-!
# The table of edges

A graph can also be kept as a table in which each relation has a place, by its label, for the
edges that start from it; the table grows when a relation is interned that has no place yet.
`EdgeTable.Tabulates` says that it holds the dependencies of the graph by their sources, and
is kept by every addition. As long as there are labels for all relations, no two of them share
a place and each body atom has one edge (`EdgeTable.numbersDensely_and_represents`).
-/

namespace Datalog

/-- The relations that rules mention, in the order in which they do: of each rule the relation
of the head, then those of the body. -/
def mentioned (rules : List Rule) : List String :=
  rules.flatMap fun rule =>
    rule.head.relation :: (rule.positive ++ rule.negative).map AtomOf.relation

/-- An edge to the relation of a head, from the place at which it stands. -/
structure LabelledEdge where
  target : Label
  negated : Bool
  rule : Nat
  deriving DecidableEq

/-- The edge of a dependency. -/
def Dependency.labelled (edge : Dependency) : LabelledEdge :=
  ⟨.ofNat edge.target, edge.negated, edge.rule⟩

/-- An edge in the table stands for a dependency between named relations. -/
structure LabelledEdge.Denotes (names : NameTable) (edge : LabelledEdge)
    (named : NamedDependency) : Prop where
  target : names.label? named.target = some edge.target
  negated : edge.negated = named.negated
  rule : edge.rule = named.rule

/-- Numbered relations and the edges from each of them. -/
structure EdgeTable where
  names : NameTable
  edges : Array (List LabelledEdge)

namespace EdgeTable

/-- The table without relations. -/
def empty : EdgeTable := ⟨∅, #[]⟩

/-- The label of a relation, for which the table is enlarged if it has no place for it. -/
def node (table : EdgeTable) (relation : String) : EdgeTable × Label :=
  let (names, label) := table.names.internLabel relation
  (⟨names, table.edges ++ Array.replicate (label.toNat + 1 - table.edges.size) []⟩, label)

/-- Add the edge from a body atom to a numbered head. -/
def addAtom (target : Label) (rule : Nat) (negated : Bool) (table : EdgeTable) (atom : Atom) :
    EdgeTable :=
  let (withSource, source) := table.node atom.relation
  { withSource with
    edges := withSource.edges.modify source.toNat (· ++ [⟨target, negated, rule⟩]) }

/-- Add the edges of a rule, those from positive atoms first. -/
def addRule (table : EdgeTable) (entry : Rule × Nat) : EdgeTable :=
  let (rule, index) := entry
  let (withHead, target) := table.node rule.head.relation
  let withPositive := rule.positive.foldl (addAtom target index false) withHead
  rule.negative.foldl (addAtom target index true) withPositive

/-- The table of rules, which are numbered by their places. -/
def ofRules (rules : List Rule) : EdgeTable :=
  rules.zipIdx.foldl addRule empty

/-- A table holds the dependencies of a graph, each at the place of its source. -/
structure Tabulates (table : EdgeTable) (graph : DependencyGraph) : Prop where
  names : table.names = graph.names
  size : table.edges.size = graph.size
  source_lt : ∀ edge ∈ graph.dependencies.toList, edge.source < graph.size
  edges : ∀ node < graph.size, table.edges[node]? =
    some ((graph.dependencies.toList.filter (·.source = node)).map Dependency.labelled)

variable {table : EdgeTable} {graph : DependencyGraph} {rules : List Rule}

/-- Interning makes no table smaller. -/
theorem size_le_size_intern (names : NameTable) (relation : String) :
    names.size ≤ (names.intern relation).1.size := by
  cases found : names.number? relation with
  | none =>
      rw [(NameTable.intern_of_new found).2]
      exact Nat.le_succ _
  | some number => rw [NameTable.intern_of_number? found]

/-- Atoms make no graph smaller. -/
theorem size_le_foldl_addAtom (target index : Nat) (negated : Bool) (atoms : List Atom)
    (graph : DependencyGraph) :
    graph.size ≤ (atoms.foldl (DependencyGraph.addAtom target index negated) graph).size := by
  induction atoms generalizing graph with
  | nil => exact Nat.le_refl _
  | cons atom atoms inductionHypothesis =>
      calc graph.size ≤ (graph.names.intern atom.relation).1.size := size_le_size_intern _ _
        _ = (DependencyGraph.addAtom target index negated graph atom).size := rfl
        _ ≤ _ := inductionHypothesis _

/-- A rule makes no graph smaller. -/
theorem size_le_addRule (graph : DependencyGraph) (entry : Rule × Nat) :
    graph.size ≤ (graph.addRule entry).size := by
  obtain ⟨rule, index⟩ := entry
  let withHead : DependencyGraph :=
    { graph with names := (graph.names.intern rule.head.relation).1 }
  let target := (graph.names.intern rule.head.relation).2
  calc graph.size ≤ withHead.size := size_le_size_intern _ _
    _ ≤ (rule.positive.foldl (DependencyGraph.addAtom target index false) withHead).size :=
      size_le_foldl_addAtom _ _ _ _ _
    _ ≤ (graph.addRule (rule, index)).size := size_le_foldl_addAtom _ _ _ _ _

/-- A relation has its place in the table when it is interned, and an empty one if it is new. -/
theorem Tabulates.node (tabulates : table.Tabulates graph) {relation : String}
    (few : (graph.names.intern relation).1.size ≤ UInt32.size) :
    (table.node relation).1.Tabulates ⟨(graph.names.intern relation).1, graph.dependencies⟩ ∧
      (table.node relation).2 = .ofNat (graph.names.intern relation).2 ∧
      (table.node relation).2.toNat = (graph.names.intern relation).2 := by
  have isNumber : (UInt32.ofNat (graph.names.intern relation).2).toNat =
      (graph.names.intern relation).2 :=
    NameTable.toNat_label few
      (NameTable.lt_size_of_number? (NameTable.number?_intern_self graph.names relation))
  simp only [EdgeTable.node, NameTable.internLabel, tabulates.names, isNumber, tabulates.size]
  refine ⟨?_, trivial, trivial⟩
  cases found : graph.names.number? relation with
  | some number =>
      have isBelow : number + 1 - graph.size = 0 :=
        Nat.sub_eq_zero_of_le (NameTable.lt_size_of_number? found)
      rw [NameTable.intern_of_number? found, isBelow, Array.replicate_zero, Array.append_empty]
      exact ⟨rfl, tabulates.size, tabulates.source_lt, tabulates.edges⟩
  | none =>
      obtain ⟨isNext, size⟩ := NameTable.intern_of_new found
      have isOne : graph.names.size + 1 - graph.size = 1 := Nat.add_sub_cancel_left ..
      have isLarger : DependencyGraph.size ⟨(graph.names.intern relation).1, graph.dependencies⟩ =
          graph.size + 1 := size
      rw [isNext, isOne]
      refine ⟨rfl, ?_, fun edge member => ?_, fun node isNode => ?_⟩
      · rw [Array.size_append, Array.size_replicate, tabulates.size, isLarger]
      · rw [isLarger]
        exact Nat.lt_succ_of_lt (tabulates.source_lt edge member)
      · rw [isLarger] at isNode
        rcases Nat.lt_succ_iff_lt_or_eq.1 isNode with isOld | rfl
        · rw [Array.getElem?_append_left (by rwa [tabulates.size]), tabulates.edges node isOld]
        · have noEdges : graph.dependencies.toList.filter (·.source = graph.size) = [] :=
            List.filter_eq_nil_iff.2 fun edge member => by
              simpa using Nat.ne_of_lt (tabulates.source_lt edge member)
          rw [Array.getElem?_append_right (by rw [tabulates.size]), tabulates.size, noEdges]
          simp

/-- The edge of an atom is put at the place of its relation. -/
theorem Tabulates.addAtom (tabulates : table.Tabulates graph) (target index : Nat)
    (negated : Bool) {atom : Atom}
    (few : (DependencyGraph.addAtom target index negated graph atom).size ≤ UInt32.size) :
    (table.addAtom (.ofNat target) index negated atom).Tabulates
      (DependencyGraph.addAtom target index negated graph atom) := by
  obtain ⟨withSource, _, isSource⟩ := tabulates.node few
  simp only [EdgeTable.addAtom, DependencyGraph.addAtom, isSource]
  have isNode : (graph.names.intern atom.relation).2 < (graph.names.intern atom.relation).1.size :=
    NameTable.lt_size_of_number? (NameTable.number?_intern_self graph.names atom.relation)
  refine ⟨withSource.names, ?_, ?_, fun node inBounds => ?_⟩
  · rw [Array.size_modify]
    exact withSource.size
  · rw [Array.toList_push]
    intro edge member
    rcases List.mem_append.1 member with isOld | isNew
    · exact withSource.source_lt edge isOld
    · rw [List.mem_singleton.1 isNew]
      exact isNode
  · rw [Array.getElem?_modify, withSource.edges node inBounds, Array.toList_push,
      List.filter_append]
    by_cases here : (graph.names.intern atom.relation).2 = node
    · simp [here, Dependency.labelled]
    · simp [here]

/-- The edges of atoms are put at the places of their relations. -/
theorem Tabulates.foldl_addAtom (tabulates : table.Tabulates graph) (target index : Nat)
    (negated : Bool) {atoms : List Atom}
    (few : (atoms.foldl (DependencyGraph.addAtom target index negated) graph).size ≤
      UInt32.size) :
    (atoms.foldl (EdgeTable.addAtom (.ofNat target) index negated) table).Tabulates
      (atoms.foldl (DependencyGraph.addAtom target index negated) graph) := by
  induction atoms generalizing table graph with
  | nil => exact tabulates
  | cons atom atoms inductionHypothesis =>
      refine inductionHypothesis (tabulates.addAtom target index negated ?_) few
      exact Nat.le_trans (size_le_foldl_addAtom _ _ _ atoms _) few

/-- The edges of a rule are put at the places of the relations in its body. -/
theorem Tabulates.addRule (tabulates : table.Tabulates graph) {entry : Rule × Nat}
    (few : (graph.addRule entry).size ≤ UInt32.size) :
    (table.addRule entry).Tabulates (graph.addRule entry) := by
  obtain ⟨rule, index⟩ := entry
  have fewer := Nat.le_trans (size_le_foldl_addAtom _ _ _ rule.negative _) few
  have fewest := Nat.le_trans (size_le_foldl_addAtom _ _ _ rule.positive _) fewer
  obtain ⟨withHead, isTarget, _⟩ := tabulates.node fewest
  simp only [EdgeTable.addRule, isTarget]
  exact (withHead.foldl_addAtom _ index false fewer).foldl_addAtom _ index true few

/-- The table of rules holds the dependencies of their graph. -/
theorem tabulates_ofRules
    (few : (DependencyGraph.ofRules rules).size ≤ UInt32.size) :
    (ofRules rules).Tabulates (DependencyGraph.ofRules rules) := by
  have tabulates_foldl (entries : List (Rule × Nat))
      (few : (entries.foldl DependencyGraph.addRule .empty).size ≤ UInt32.size) :
      (entries.foldl addRule empty).Tabulates
        (entries.foldl DependencyGraph.addRule .empty) := by
    induction entries using List.reverseRecOn with
    | nil =>
        refine ⟨rfl, rfl, fun edge member => ?_, fun node isNode => ?_⟩
        · cases member
        · exact absurd isNode (Nat.not_lt_zero _)
    | append_singleton entries entry inductionHypothesis =>
        rw [List.foldl_concat] at few ⊢
        rw [List.foldl_concat]
        exact (inductionHypothesis (Nat.le_trans (size_le_addRule _ _) few)).addRule few
  exact tabulates_foldl rules.zipIdx few

/-- The relations of a graph are interned in the order in which the rules mention them. -/
theorem names_ofRules (rules : List Rule) :
    (DependencyGraph.ofRules rules).names = .internAll (mentioned rules) := by
  have names_foldl_addAtom (target index : Nat) (negated : Bool) (atoms : List Atom)
      (graph : DependencyGraph) :
      (atoms.foldl (DependencyGraph.addAtom target index negated) graph).names =
        (atoms.map AtomOf.relation).foldl (fun names name => (names.intern name).1)
          graph.names := by
    induction atoms generalizing graph with
    | nil => rfl
    | cons atom atoms inductionHypothesis => exact inductionHypothesis _
  have names_addRule (graph : DependencyGraph) (entry : Rule × Nat) :
      (graph.addRule entry).names =
        (entry.1.head.relation :: (entry.1.positive ++ entry.1.negative).map AtomOf.relation).foldl
          (fun names name => (names.intern name).1) graph.names := by
    rw [DependencyGraph.addRule, names_foldl_addAtom, names_foldl_addAtom, List.map_append,
      List.foldl_cons, List.foldl_append]
  have names_foldl_addRule (rules : List Rule) (start : Nat) (graph : DependencyGraph) :
      ((rules.zipIdx start).foldl DependencyGraph.addRule graph).names =
        (mentioned rules).foldl (fun names name => (names.intern name).1) graph.names := by
    induction rules generalizing start graph with
    | nil => rfl
    | cons rule rules inductionHypothesis =>
        have isFirst : mentioned (rule :: rules) =
            (rule.head.relation :: (rule.positive ++ rule.negative).map AtomOf.relation) ++
              mentioned rules := List.flatMap_cons
        rw [List.zipIdx_cons, List.foldl_cons, inductionHypothesis, names_addRule, isFirst,
          List.foldl_append]
  exact names_foldl_addRule rules 0 .empty

/-- What the table of rules says about them. -/
structure Represents (rules : List Rule) (table : EdgeTable) : Prop where
  /-- Different relations have different labels. -/
  distinct : ∀ first second label, table.names.label? first = some label →
    table.names.label? second = some label → first = second
  /-- Every relation of a head or a body has a label and a place in the table. -/
  covers : ∀ relation ∈ mentioned rules, ∃ label,
    table.names.label? relation = some label ∧ label.toNat < table.edges.size
  /-- Every place is that of such a relation. -/
  places : ∀ place < table.edges.size, ∃ relation ∈ mentioned rules, ∃ label,
    table.names.label? relation = some label ∧ label.toNat = place
  /-- At the place of a relation stands one edge for each atom over it in a body, with the
  polarity of the atom and the number of its rule, and no other edge. -/
  edges : ∀ relation label, table.names.label? relation = some label →
    ∃ edges, table.edges[label.toNat]? = some edges ∧
      List.Forall₂ (LabelledEdge.Denotes table.names) edges
        ((rules.zipIdx.flatMap Rule.namedDependencies).filter (·.source = relation))
  /-- The table is the dependency graph, by sources. -/
  names_eq : table.names = (DependencyGraph.ofRules rules).names
  edges_eq : table.edges =
    (DependencyGraph.ofRules rules).bySource.map (·.map Dependency.labelled)

/-- The table of rules represents them if there are labels for all relations. -/
theorem represents_ofRules (few : (mentioned rules).toFinset.card ≤ UInt32.size) :
    Represents rules (ofRules rules) := by
  have few : (DependencyGraph.ofRules rules).size ≤ UInt32.size := by
    rwa [DependencyGraph.size, names_ofRules, NameTable.size_internAll]
  have tabulates := tabulates_ofRules few
  have fewNames : (ofRules rules).names.size ≤ UInt32.size := by
    rw [tabulates.names]
    exact few
  have isBelow {relation : String} {label : Label}
      (found : (ofRules rules).names.label? relation = some label) :
      label.toNat < (DependencyGraph.ofRules rules).size := by
    rw [NameTable.label?_eq_some_iff fewNames, tabulates.names] at found
    exact NameTable.lt_size_of_number? found
  constructor
  · intro first second label isFirst isSecond
    rw [← NameTable.labelled?_eq_some_iff fewNames] at isFirst isSecond
    exact Option.some.inj (isFirst.symm.trans isSecond)
  · intro relation member
    cases found : (ofRules rules).names.label? relation with
    | none =>
        rw [NameTable.label?, Option.map_eq_none_iff, tabulates.names, names_ofRules,
          NameTable.number?_internAll_eq_none_iff] at found
        exact absurd member found
    | some label =>
        refine ⟨label, rfl, ?_⟩
        rw [tabulates.size]
        exact isBelow found
  · intro place inBounds
    rw [tabulates.size] at inBounds
    have isLabel := NameTable.toNat_label few inBounds
    have dense := (NameTable.numbersDensely
      (by rwa [← NameTable.size_internAll, ← names_ofRules])).dense (.ofNat place)
      (by rwa [isLabel, ← names_ofRules])
    rw [← names_ofRules, ← tabulates.names] at dense
    obtain ⟨relation, member, found⟩ := dense
    exact ⟨relation, member, _, found, isLabel⟩
  · intro relation label found
    have isRelation := (NameTable.labelled?_eq_some_iff fewNames).2 found
    rw [NameTable.labelled?, tabulates.names] at isRelation
    refine ⟨_, tabulates.edges label.toNat (isBelow found), ?_⟩
    rw [List.forall₂_map_left_iff]
    refine (List.rel_filter ?_ (DependencyGraph.forall₂_names_ofRules rules)).imp ?_
    · intro edge named matched
      simp only [decide_eq_true_eq]
      constructor
      · intro same
        exact Option.some.inj ((same ▸ matched.source).symm.trans isRelation)
      · rintro rfl
        exact NameTable.name?_inj matched.source isRelation
    · intro edge named matched
      refine ⟨?_, matched.negated, matched.rule⟩
      rw [tabulates.names, NameTable.label?, NameTable.number?_eq_some_iff.2 matched.target]
      rfl
  · exact tabulates.names
  · refine Array.ext_getElem? fun place => ?_
    rw [Array.getElem?_map, DependencyGraph.bySource, getElem?_distribute]
    split
    next isNode =>
      rw [tabulates.edges place isNode, List.filterMap_map]
      refine congrArg (fun found => some (List.map Dependency.labelled found)) ?_
      rw [← List.filterMap_eq_filter]
      refine List.filterMap_congr fun edge _ => ?_
      by_cases here : edge.source = place <;> simp [Option.guard, here]
    next isNoNode =>
      rw [← tabulates.size] at isNoNode
      exact Array.getElem?_eq_none (Nat.le_of_not_lt isNoNode)

/-- Names get stable and dense labels, and the table of rules represents them, as long as 32
bits can tell the names and the relations apart. -/
theorem numbersDensely_and_represents {names : List String} {rules : List Rule}
    (fewNames : names.toFinset.card ≤ UInt32.size)
    (fewRelations : (mentioned rules).toFinset.card ≤ UInt32.size) :
    NameTable.NumbersDensely names ∧ Represents rules (ofRules rules) :=
  ⟨NameTable.numbersDensely fewNames, represents_ofRules fewRelations⟩

/-- Names with a repetition, and the rules for even and odd numbers. -/
theorem represents_parity :
    ["edge", "path", "edge"].toFinset.card ≤ UInt32.size ∧
      (mentioned parity.rules.toList).toFinset.card ≤ UInt32.size ∧
      NameTable.NumbersDensely ["edge", "path", "edge"] ∧
      Represents parity.rules.toList (ofRules parity.rules.toList) := by
  have fewNames : ["edge", "path", "edge"].toFinset.card ≤ UInt32.size := by decide
  have fewRelations : (mentioned parity.rules.toList).toFinset.card ≤ UInt32.size := by
    refine Nat.le_trans (List.toFinset_card_le _) ?_
    decide +kernel
  exact ⟨fewNames, fewRelations, numbersDensely_and_represents fewNames fewRelations⟩

end EdgeTable

end Datalog
