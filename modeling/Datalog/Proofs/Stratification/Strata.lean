import Datalog.Proofs.Stratification.NegativeCycle

/-!
# Strata of components

Each component of the dependency graph that holds the head of a rule becomes a stratum, in
the order of the components. `IsStratumOf` describes one of them in terms of names, and
`exists_places` says that the strata stand at an increasing list of components, so the
place of a stratum and the number of its component tell the same.
-/

namespace Datalog

/-- The graph of rules puts a relation into the component with a number. -/
def InComponent (rules : List Rule) (relation : String) (component : Nat) : Prop :=
  ∃ node, (DependencyGraph.ofRules rules).names.name? node = some relation ∧
    (DependencyGraph.ofRules rules).numbers[node]? = some component

/-- How many components the graph of rules has. -/
def componentCount (rules : List Rule) : Nat :=
  (components (DependencyGraph.ofRules rules).successors).length

namespace InComponent

variable {rules : List Rule} {first second : String} {component other : Nat}

/-- Relations of two components are interdependent exactly if the components are one. -/
theorem eq_iff (inFirst : InComponent rules first component)
    (inSecond : InComponent rules second other) :
    component = other ↔ Interdependent rules first second := by
  obtain ⟨source, isFirst, firstNumber⟩ := inFirst
  obtain ⟨target, isSecond, secondNumber⟩ := inSecond
  rw [← DependencyGraph.numbers_eq_iff isFirst isSecond, firstNumber, secondNumber,
    Option.some.injEq]

/-- A relation is in one component only. -/
theorem unique (inFirst : InComponent rules first component)
    (inOther : InComponent rules first other) : component = other :=
  (inFirst.eq_iff inOther).2 ⟨.refl, .refl⟩

/-- Every known relation is in one of the components, whose places are their numbers. -/
theorem exists_place {node : Nat}
    (isKnown : (DependencyGraph.ofRules rules).names.name? node = some first) :
    ∃ place nodes, InComponent rules first place ∧
      (components (DependencyGraph.ofRules rules).successors)[place]? = some nodes ∧
      node ∈ nodes := by
  have isNode : node < (DependencyGraph.ofRules rules).successors.size := by
    rw [DependencyGraph.size_successors]
    exact NameTable.lt_size_iff.2 ⟨first, isKnown⟩
  obtain ⟨place, nodes, atPlace, member, number⟩ :=
    exists_componentNumber (isCondensation_components _) isNode
  rw [DependencyGraph.size_successors] at number
  exact ⟨place, nodes, ⟨node, isKnown, number⟩, atPlace, member⟩

/-- Components are numbered below their count. -/
theorem lt_count (inFirst : InComponent rules first component) :
    component < componentCount rules := by
  have ⟨node, isKnown, _⟩ := inFirst
  obtain ⟨place, nodes, inPlace, atPlace, _⟩ := exists_place isKnown
  rw [inFirst.unique inPlace]
  exact (List.getElem?_eq_some_iff.1 atPlace).1

/-- The numbers of components grow along dependencies. -/
theorem le_of_leads (inFirst : InComponent rules first component)
    (inSecond : InComponent rules second other) (path : Leads rules first second) :
    component ≤ other := by
  have ⟨source, isFirst, _⟩ := inFirst
  have ⟨target, isSecond, _⟩ := inSecond
  obtain ⟨firstPlace, firstNodes, inFirstPlace, atFirst, sourceInside⟩ := exists_place isFirst
  obtain ⟨secondPlace, secondNodes, inSecondPlace, atSecond, targetInside⟩ :=
    exists_place isSecond
  rw [inFirst.unique inFirstPlace, inSecond.unique inSecondPlace]
  exact (isCondensation_components _).place_le atFirst atSecond sourceInside targetInside
    ((DependencyGraph.reaches_iff_leads isFirst isSecond).2 path)

/-- The relation of every head is in a component. -/
theorem exists_head {rule : Rule} (member : rule ∈ rules) :
    ∃ component, InComponent rules rule.head.relation component := by
  obtain ⟨node, isKnown⟩ := DependencyGraph.exists_name?_head member
  obtain ⟨place, _, inPlace, _⟩ := exists_place isKnown
  exact ⟨place, inPlace⟩

/-- The number of a component is what the flags and lists of strata are indexed by. -/
theorem iff_getD {node : Nat}
    (isKnown : (DependencyGraph.ofRules rules).names.name? node = some first) :
    InComponent rules first component ↔
      (DependencyGraph.ofRules rules).numbers.getD node (componentCount rules) = component := by
  obtain ⟨place, _, inPlace, _⟩ := exists_place isKnown
  have number : (DependencyGraph.ofRules rules).numbers[node]? = some place := by
    obtain ⟨_, isKnown', isNumber⟩ := inPlace
    rwa [NameTable.name?_inj isKnown isKnown']
  rw [Array.getD_eq_getD_getElem?, number, Option.getD_some]
  exact ⟨fun inComponent => inPlace.unique inComponent, fun same => same ▸ inPlace⟩

end InComponent

/-- A stratum consists of the rules and relations of a component. -/
structure IsStratumOf (rules : List Rule) (component : Nat) (stratum : Stratum) : Prop where
  increasing : stratum.rules.Pairwise (· < ·)
  nonempty : stratum.rules ≠ []
  mem_rules : ∀ index, index ∈ stratum.rules ↔
    ∃ rule, rules[index]? = some rule ∧ InComponent rules rule.head.relation component
  nodup : stratum.relations.Nodup
  mem_relations : ∀ relation,
    relation ∈ stratum.relations ↔ InComponent rules relation component
  recursive_iff : stratum.recursive = true ↔
    1 < stratum.relations.length ∨ ∃ first second, Feeds rules first second ∧
      InComponent rules first component ∧ InComponent rules second component

namespace DependencyGraph

variable {rules : List Rule} {component : Nat}

/-- Items distributed over places, as the list at one of the places. -/
theorem getD_distribute {α : Type} {places place : Nat} (items : List (Nat × α))
    (inBounds : place < places) :
    (distribute places items).getD place [] =
      items.filterMap fun item => if item.1 = place then some item.2 else none := by
  rw [Array.getD_eq_getD_getElem?, getElem?_distribute, if_pos inBounds, Option.getD_some]

/-- Distributing items keeps them in order at each place. -/
theorem pairwise_getD_distribute {α : Type} {relation : α → α → Prop} {places : Nat}
    {items : List (Nat × α)} (ordered : (items.map Prod.snd).Pairwise relation) (place : Nat) :
    ((distribute places items).getD place []).Pairwise relation := by
  by_cases inBounds : place < places
  · rw [getD_distribute _ inBounds]
    refine (List.pairwise_map.1 ordered).filterMap _ fun first second less => ?_
    simp only [Option.ite_none_right_eq_some, Option.some.injEq]
    rintro left ⟨_, rfl⟩ right ⟨_, rfl⟩
    exact less
  · simp [Array.getD_eq_getD_getElem?, inBounds]

/-- The rules sent to a component are those whose heads it holds. -/
theorem mem_rulesAt_iff (inBounds : component < componentCount rules) (index : Nat) :
    index ∈ (distribute (componentCount rules) <| rules.zipIdx.map fun entry =>
        ((((ofRules rules).names.number? entry.1.head.relation).map fun node =>
          (ofRules rules).numbers.getD node (componentCount rules)).getD (componentCount rules),
          entry.2)).getD component [] ↔
      ∃ rule, rules[index]? = some rule ∧
        InComponent rules rule.head.relation component := by
  rw [getD_distribute _ inBounds, List.filterMap_map]
  simp only [List.mem_filterMap, Prod.exists, List.mk_mem_zipIdx_iff_getElem?,
    Function.comp_apply, Option.ite_none_right_eq_some, Option.some.injEq]
  constructor
  · rintro ⟨rule, place, atPlace, isHere, rfl⟩
    obtain ⟨node, isKnown⟩ := exists_name?_head (List.mem_of_getElem? atPlace)
    rw [NameTable.number?_eq_some_iff.2 isKnown, Option.map_some, Option.getD_some] at isHere
    exact ⟨rule, atPlace, (InComponent.iff_getD isKnown).2 isHere⟩
  · rintro ⟨rule, atPlace, inComponent⟩
    obtain ⟨node, isKnown⟩ := exists_name?_head (List.mem_of_getElem? atPlace)
    refine ⟨rule, index, atPlace, ?_, rfl⟩
    rw [NameTable.number?_eq_some_iff.2 isKnown, Option.map_some, Option.getD_some]
    exact (InComponent.iff_getD isKnown).1 inComponent

/-- The nodes sent to a component are the numbers of its relations. -/
theorem mem_membersAt_iff (inBounds : component < componentCount rules) (node : Nat) :
    node ∈ (distribute (componentCount rules) <| (List.range (ofRules rules).size).map
        fun node => ((ofRules rules).numbers.getD node (componentCount rules), node)).getD
          component [] ↔
      ∃ relation, (ofRules rules).names.name? node = some relation ∧
        InComponent rules relation component := by
  rw [getD_distribute _ inBounds, List.filterMap_map]
  simp only [List.mem_filterMap, List.mem_range, Function.comp_apply,
    Option.ite_none_right_eq_some, Option.some.injEq]
  constructor
  · rintro ⟨node, isNode, isHere, rfl⟩
    obtain ⟨relation, isKnown⟩ := NameTable.lt_size_iff.1 isNode
    exact ⟨relation, isKnown, (InComponent.iff_getD isKnown).2 isHere⟩
  · rintro ⟨relation, isKnown, inComponent⟩
    exact ⟨node, NameTable.lt_size_iff.2 ⟨relation, isKnown⟩,
      (InComponent.iff_getD isKnown).1 inComponent, rfl⟩

/-- Setting flags raises those at the given places, as far as there are such places. -/
theorem getD_foldl_setIfInBounds (edges : List Dependency) (place : Dependency → Nat)
    (flags : Array Bool) (component : Nat) (inBounds : component < flags.size) :
    (edges.foldl (fun flags edge => flags.setIfInBounds (place edge) true) flags).getD component
        false = true ↔
      flags.getD component false = true ∨ ∃ edge ∈ edges, place edge = component := by
  induction edges generalizing flags with
  | nil => simp
  | cons edge edges inductionHypothesis =>
      rw [List.foldl_cons, inductionHypothesis _ (by simpa using inBounds)]
      simp only [Array.getD_eq_getD_getElem?, Array.getElem?_setIfInBounds,
        List.exists_mem_cons_iff]
      by_cases here : place edge = component
      · simp [here, inBounds]
      · simp [here]

/-- A component is flagged as recursive exactly when one of its relations feeds another. -/
theorem recursiveAt_iff (inBounds : component < componentCount rules) :
    (((ofRules rules).internal (ofRules rules).numbers).foldl
        (fun flags edge => flags.setIfInBounds
          ((ofRules rules).numbers.getD edge.source (componentCount rules)) true)
        (Array.replicate (componentCount rules) false)).getD component false = true ↔
      ∃ first second, Feeds rules first second ∧
        InComponent rules first component ∧ InComponent rules second component := by
  rw [getD_foldl_setIfInBounds _ _ _ _ (by simpa using inBounds)]
  have unset : (Array.replicate (componentCount rules) false).getD component false = false := by
    simp [Array.getD_eq_getD_getElem?, inBounds]
  rw [unset, or_iff_right Bool.false_ne_true]
  constructor
  · rintro ⟨edge, member, isHere⟩
    obtain ⟨isEdge, alike⟩ := mem_internal_iff.1 member
    obtain ⟨rule, atPlace, isHead, atom, inBody, isSource⟩ := exists_atom isEdge
    have inComponent := (InComponent.iff_getD isSource).2 isHere
    refine ⟨atom.relation, rule.head.relation, ⟨rule, List.mem_of_getElem? atPlace, rfl, atom,
      exists_mem_bodyPart_iff.1 ⟨_, inBody⟩, rfl⟩, inComponent, edge.target, isHead, ?_⟩
    obtain ⟨node, isKnown, number⟩ := inComponent
    rw [← alike, NameTable.name?_inj isSource isKnown, number]
  · rintro ⟨first, second, feeds, inFirst, inSecond⟩
    obtain ⟨source, isFirst, firstNumber⟩ := inFirst
    obtain ⟨target, isSecond, secondNumber⟩ := inSecond
    obtain ⟨edge, isEdge, rfl, rfl⟩ :=
      edge_successors_iff.1 ((edge_iff_feeds isFirst isSecond).2 feeds)
    refine ⟨edge, mem_internal_iff.2 ⟨isEdge, firstNumber.trans secondNumber.symm⟩, ?_⟩
    rw [Array.getD_eq_getD_getElem?, firstNumber, Option.getD_some]

/-- The place of a component in the strata: its stratum, or nothing if it holds no head. -/
theorem strata_eq (rules : List Rule) :
    ∃ stratumAt : Nat → Option Stratum,
      (ofRules rules).strata (ofRules rules).numbers (componentCount rules) rules =
        (List.range (componentCount rules)).filterMap stratumAt ∧
      ∀ component < componentCount rules,
        (∀ stratum, stratumAt component = some stratum → IsStratumOf rules component stratum) ∧
        (stratumAt component = none →
          ∀ rule ∈ rules, ¬ InComponent rules rule.head.relation component) := by
  refine ⟨_, rfl, fun component inBounds => ?_⟩
  have mem_rules := @mem_rulesAt_iff rules _ inBounds
  have mem_members := @mem_membersAt_iff rules _ inBounds
  have recursive := @recursiveAt_iff rules _ inBounds
  have increasing (items : List (Nat × Nat))
      (ordered : (items.map Prod.snd).Pairwise (· < ·)) :=
    @pairwise_getD_distribute _ _ (componentCount rules) _ ordered component
  have placesIncreasing := increasing (rules.zipIdx.map fun entry =>
    ((((ofRules rules).names.number? entry.1.head.relation).map fun node =>
      (ofRules rules).numbers.getD node (componentCount rules)).getD (componentCount rules),
      entry.2)) (by
        rw [List.map_map, Function.comp_def, List.zipIdx_map_snd]
        exact List.pairwise_lt_range')
  have nodesIncreasing := increasing ((List.range (ofRules rules).size).map
    fun node => ((ofRules rules).numbers.getD node (componentCount rules), node)) (by
      rw [List.map_map, Function.comp_def, List.map_id']
      exact List.pairwise_lt_range)
  simp only
  generalize (distribute (componentCount rules) (rules.zipIdx.map _)).getD component [] = places
    at mem_rules placesIncreasing ⊢
  generalize (distribute (componentCount rules) ((List.range _).map _)).getD component [] = nodes
    at mem_members nodesIncreasing ⊢
  cases places with
  | nil =>
      refine ⟨fun stratum isSome => (by cases isSome), fun _ rule member inComponent => ?_⟩
      obtain ⟨index, atPlace⟩ := List.mem_iff_getElem?.1 member
      exact absurd ((mem_rules index).2 ⟨rule, atPlace, inComponent⟩) List.not_mem_nil
  | cons first rest =>
      refine ⟨fun stratum isSome => ?_, fun isNone => by cases isNone⟩
      cases isSome
      have named : ∀ node ∈ nodes, ((ofRules rules).names.name? node).isSome = true := by
        intro node member
        obtain ⟨relation, isKnown, _⟩ := (mem_members node).1 member
        simp [isKnown]
      have lengths := List.filterMap_length_eq_length.2 named
      refine ⟨placesIncreasing, List.cons_ne_nil _ _, mem_rules, ?_, fun relation => ?_, ?_⟩
      · refine nodesIncreasing.filterMap _ fun left right less => ?_
        rintro relation isLeft _ isRight rfl
        exact absurd (NameTable.name?_inj isLeft isRight) (Nat.ne_of_lt less)
      · simp only [List.mem_filterMap, mem_members]
        constructor
        · rintro ⟨node, ⟨other, isKnown, inComponent⟩, isNamed⟩
          rw [isKnown, Option.some.injEq] at isNamed
          exact isNamed ▸ inComponent
        · intro inComponent
          have ⟨node, isKnown, _⟩ := inComponent
          exact ⟨node, ⟨relation, isKnown, inComponent⟩, isKnown⟩
      · rw [Bool.or_eq_true, decide_eq_true_iff, recursive, lengths, or_comm]

end DependencyGraph

/-- Strata that stand at the places of an increasing list of components, among which are
those of all heads. -/
structure Places (rules : List Rule) (strata : List Stratum) (places : List Nat) : Prop where
  increasing : places.Pairwise (· < ·)
  strata : List.Forall₂ (IsStratumOf rules) places strata
  complete : ∀ rule ∈ rules, ∀ component,
    InComponent rules rule.head.relation component → component ∈ places

/-- The strata of the graph of rules stand at the places of their components. -/
theorem exists_places (rules : List Rule) :
    ∃ places, Places rules ((DependencyGraph.ofRules rules).strata
      (DependencyGraph.ofRules rules).numbers (componentCount rules) rules) places := by
  obtain ⟨stratumAt, strata, isStratum⟩ := DependencyGraph.strata_eq rules
  refine ⟨(List.range (componentCount rules)).filter fun component =>
    (stratumAt component).isSome, List.pairwise_lt_range.filter _, ?_,
    fun rule member component inComponent => ?_⟩
  · rw [strata]
    refine (forall₂_filterMap stratumAt _).imp ?_
    rintro component stratum ⟨member, isSome⟩
    exact (isStratum component (List.mem_range.1 member)).1 stratum isSome
  · refine List.mem_filter.2 ⟨List.mem_range.2 inComponent.lt_count, ?_⟩
    rw [Option.isSome_iff_ne_none]
    exact fun isNone => (isStratum component inComponent.lt_count).2 isNone rule member inComponent

namespace Places

variable {rules : List Rule} {strata : List Stratum} {places : List Nat}

/-- A stratum of the list is that of the component at its place. -/
theorem exists_component (isPlaced : Places rules strata places) {place : Nat}
    {stratum : Stratum} (atPlace : strata[place]? = some stratum) :
    ∃ component, places[place]? = some component ∧ IsStratumOf rules component stratum := by
  obtain ⟨inBounds, rfl⟩ := List.getElem?_eq_some_iff.1 atPlace
  have inPlaces : place < places.length := isPlaced.strata.length_eq ▸ inBounds
  exact ⟨places[place], List.getElem?_eq_getElem inPlaces, isPlaced.strata.get inPlaces inBounds⟩

/-- The component of every head has a stratum in the list. -/
theorem exists_stratum (isPlaced : Places rules strata places) {rule : Rule}
    (member : rule ∈ rules) :
    ∃ (place : Nat) (stratum : Stratum) (component : Nat), strata[place]? = some stratum ∧
      places[place]? = some component ∧ IsStratumOf rules component stratum ∧
      InComponent rules rule.head.relation component := by
  obtain ⟨component, inComponent⟩ := InComponent.exists_head member
  obtain ⟨place, atPlace⟩ :=
    List.mem_iff_getElem?.1 (isPlaced.complete rule member component inComponent)
  obtain ⟨inPlaces, rfl⟩ := List.getElem?_eq_some_iff.1 atPlace
  have inBounds : place < strata.length := isPlaced.strata.length_eq ▸ inPlaces
  exact ⟨place, strata[place], places[place], List.getElem?_eq_getElem inBounds, atPlace,
    isPlaced.strata.get inPlaces inBounds, inComponent⟩

/-- Places follow the numbers of their components. -/
theorem le_of_le (isPlaced : Places rules strata places) {first second left right : Nat}
    (atFirst : places[first]? = some left) (atSecond : places[second]? = some right)
    (ordered : left ≤ right) : first ≤ second := by
  by_contra later
  obtain ⟨firstInBounds, rfl⟩ := List.getElem?_eq_some_iff.1 atFirst
  obtain ⟨secondInBounds, rfl⟩ := List.getElem?_eq_some_iff.1 atSecond
  have less := List.pairwise_iff_getElem.1 isPlaced.increasing second first secondInBounds
    firstInBounds (Nat.lt_of_not_le later)
  omega

/-- A component has one place. -/
theorem place_unique (isPlaced : Places rules strata places) {first second component : Nat}
    (atFirst : places[first]? = some component) (atSecond : places[second]? = some component) :
    first = second :=
  Nat.le_antisymm (isPlaced.le_of_le atFirst atSecond (Nat.le_refl _))
    (isPlaced.le_of_le atSecond atFirst (Nat.le_refl _))

/-- The relations of a stratum are the heads of its rules: where a component holds a head,
every other relation of it is one too, since dependencies lead to it. -/
theorem mem_relations_iff {component : Nat} {stratum : Stratum}
    (isStratum : IsStratumOf rules component stratum) (relation : String) :
    relation ∈ stratum.relations ↔ ∃ index ∈ stratum.rules, ∃ rule,
      rules[index]? = some rule ∧ rule.head.relation = relation := by
  rw [isStratum.mem_relations]
  constructor
  · intro inComponent
    obtain ⟨index, inRules⟩ := List.exists_mem_of_ne_nil _ isStratum.nonempty
    obtain ⟨rule, atPlace, headInside⟩ := (isStratum.mem_rules index).1 inRules
    have interdependent := (headInside.eq_iff inComponent).1 rfl
    rcases Relation.ReflTransGen.cases_tail interdependent.1 with same | ⟨_, _, feeds⟩
    · exact ⟨index, inRules, rule, atPlace, same.symm⟩
    · obtain ⟨other, member, rfl, _⟩ := feeds
      obtain ⟨otherIndex, atOther⟩ := List.mem_iff_getElem?.1 member
      exact ⟨otherIndex, (isStratum.mem_rules otherIndex).2 ⟨other, atOther, inComponent⟩, other,
        atOther, rfl⟩
  · rintro ⟨index, inRules, rule, atPlace, rfl⟩
    obtain ⟨other, atOther, inComponent⟩ := (isStratum.mem_rules index).1 inRules
    rw [atPlace, Option.some.injEq] at atOther
    exact atOther ▸ inComponent

end Places

end Datalog
