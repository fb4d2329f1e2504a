import Datalog.Proofs.Stratification.Search

/-!
# Strongly connected components

The search of a graph leaves its nodes in a `FinishOrder`, whose one law says that an edge
leading back over a node starts a path to it. The first node of a component in such an order
therefore reaches nothing before it (`FinishOrder.not_reaches_later`), so a search of the
reversed graph from there stays inside the component. `isCondensation_components` collects
the outcome: the components are the classes of mutual reachability, each listed once, and no
path leads from a later to an earlier one.
-/

namespace Datalog

/-- An array filled by `distribute` has the given number of places. -/
@[simp] theorem size_distribute {α : Type} (places : Nat) (items : List (Nat × α)) :
    (distribute places items).size = places := by
  induction items with
  | nil => simp [distribute]
  | cons item rest inductionHypothesis => simpa [distribute] using inductionHypothesis

/-- The place of an array filled by `distribute` holds the items sent there, in order. -/
theorem getElem?_distribute {α : Type} (places : Nat) (items : List (Nat × α)) (place : Nat) :
    (distribute places items)[place]? =
      if place < places then
        some (items.filterMap fun item => if item.1 = place then some item.2 else none)
      else none := by
  induction items with
  | nil => simp [distribute, Array.getElem?_replicate]
  | cons item rest inductionHypothesis =>
      simp only [distribute, List.foldr_cons, Array.getElem?_modify] at inductionHypothesis ⊢
      rw [inductionHypothesis]
      by_cases here : item.1 = place <;> by_cases inBounds : place < places <;>
        simp [here, inBounds]

namespace Successors

variable {successors : Successors} {first second third : Nat}

/-- Nodes that reach each other. -/
def StronglyConnected (successors : Successors) (first second : Nat) : Prop :=
  successors.Reaches first second ∧ successors.Reaches second first

/-- Every node is strongly connected to itself. -/
theorem StronglyConnected.refl (node : Nat) : successors.StronglyConnected node node :=
  ⟨.refl, .refl⟩

/-- Mutual reachability has no direction. -/
theorem StronglyConnected.symm (connected : successors.StronglyConnected first second) :
    successors.StronglyConnected second first :=
  ⟨connected.2, connected.1⟩

/-- Mutual reachability goes on through a common node. -/
theorem StronglyConnected.trans (connected : successors.StronglyConnected first second)
    (further : successors.StronglyConnected second third) :
    successors.StronglyConnected first third :=
  ⟨connected.1.trans further.1, further.2.trans connected.2⟩

/-- Whatever reaches a node other than itself is a node. -/
theorem Reaches.source_lt (path : successors.Reaches first second)
    (isNode : second < successors.size) : first < successors.size := by
  induction path using Relation.ReflTransGen.head_induction_on with
  | refl => exact isNode
  | head edge _ _ => exact edge.source_lt

/-- A path out of a set of nodes has an edge that leaves the set. -/
theorem Reaches.exists_edge (inside : Nat → Prop) (path : successors.Reaches first second)
    (start : inside first) (finish : ¬ inside second) :
    ∃ source target, inside source ∧ ¬ inside target ∧ successors.Reaches first source ∧
      successors.Edge source target ∧ successors.Reaches target second := by
  induction path with
  | refl => exact absurd start finish
  | @tail middle last path edge inductionHypothesis =>
      by_cases insideMiddle : inside middle
      · exact ⟨middle, last, insideMiddle, finish, path, edge, .refl⟩
      · obtain ⟨source, target, insideSource, outside, before, crossing, after⟩ :=
          inductionHypothesis insideMiddle
        exact ⟨source, target, insideSource, outside, before, crossing, after.tail edge⟩

/-- Edges of the reversed graph are the edges between nodes, turned around. -/
theorem edge_reverse_iff :
    successors.reverse.Edge first second ↔
      successors.Edge second first ∧ first < successors.size := by
  simp only [Edge, of, reverse, Array.getD_eq_getD_getElem?, getElem?_distribute]
  by_cases isNode : first < successors.size
  · simp only [isNode, if_true, Option.getD_some, List.mem_filterMap, List.mem_flatMap,
      List.mem_map, and_true]
    constructor
    · rintro ⟨item, ⟨entry, inEntries, target, inTargets, rfl⟩, selected⟩
      simp only [Option.ite_none_right_eq_some, Option.some.injEq] at selected
      obtain ⟨rfl, rfl⟩ := selected
      have atPlace := List.mk_mem_zipIdx_iff_getElem?.1 inEntries
      simp only [Array.getElem?_toList] at atPlace
      simpa [atPlace] using inTargets
    · intro edge
      cases atPlace : successors[second]? with
      | none => simp [atPlace] at edge
      | some targets =>
          refine ⟨(first, second), ⟨(targets, second), ?_, first, ?_, rfl⟩, by simp⟩
          · rw [List.mk_mem_zipIdx_iff_getElem?, Array.getElem?_toList, atPlace]
          · simpa [atPlace] using edge
  · simp [isNode]

/-- Paths between nodes are the paths of the reversed graph, turned around. -/
theorem reaches_reverse_iff (isNode : first < successors.size) :
    successors.reverse.Reaches first second ↔ successors.Reaches second first := by
  constructor
  · intro path
    induction path with
    | refl => exact .refl
    | tail _ edge inductionHypothesis =>
        exact .head (edge_reverse_iff.1 edge).1 inductionHypothesis
  · intro path
    induction path using Relation.ReflTransGen.head_induction_on with
    | refl => exact .refl
    | @head source target edge further inductionHypothesis =>
        exact .tail inductionHypothesis
          (edge_reverse_iff.2 ⟨edge, Reaches.source_lt further isNode⟩)

end Successors

/-- An order of all nodes in which an edge that leads from a node, or from behind it, to a
place before it starts a path to that node. -/
structure FinishOrder (successors : Successors) (order : List Nat) : Prop where
  nodup : order.Nodup
  mem_iff : ∀ node, node ∈ order ↔ node < successors.size
  crossing : ∀ {later earlier : List Nat} {node source target : Nat},
    order = later ++ node :: earlier → source ∈ node :: earlier → target ∈ later →
      successors.Edge source target → successors.Reaches target node

/-- A search from all nodes leaves them in a finishing order. -/
theorem finishOrder_finishOrder (successors : Successors) :
    FinishOrder successors (finishOrder successors) := by
  obtain ⟨visited, explores⟩ := explores_search successors (List.range successors.size)
    (.start successors.size)
  have order : finishOrder successors = visited := by
    rw [finishOrder, explores.finished_eq]
    simp [Search.start]
  rw [order]
  refine ⟨explores.nodup, fun node => ⟨fun member => ?_, fun isNode => ?_⟩, explores.crossing⟩
  · have isUnvisited := Search.lt_size_of_unvisited (explores.isVisited_eq_false member)
    simpa [Search.start] using isUnvisited
  · have isVisited := explores.isVisited_root (List.mem_range.2 isNode)
    rcases (explores.isVisited_iff node).1 isVisited with atStart | member
    · simp [Search.isVisited, Search.start, Array.getD_eq_getD_getElem?, isNode] at atStart
    · exact member

/-- The first node of a component in a finishing order reaches no node before it. -/
theorem FinishOrder.not_reaches_later {successors : Successors} {order later earlier : List Nat}
    {node other : Nat} (finishOrder : FinishOrder successors order)
    (split : order = later ++ node :: earlier)
    (isFirst : ∀ other ∈ later, ¬ successors.StronglyConnected other node)
    (member : other ∈ later) : ¬ successors.Reaches node other := by
  intro path
  have nodup := finishOrder.nodup
  rw [split] at nodup
  have apart := (List.nodup_append.1 nodup).2.2
  have notLater : node ∉ later := fun isLater => apart node isLater node List.mem_cons_self rfl
  obtain ⟨source, target, sourceNotLater, targetLater, path, edge, _⟩ :=
    Successors.Reaches.exists_edge (· ∉ later) path notLater (not_not.2 member)
  have inOrder := (finishOrder.mem_iff source).2 edge.source_lt
  rw [split] at inOrder
  have fromEarlier := (List.mem_append.1 inOrder).resolve_left sourceNotLater
  have back := finishOrder.crossing split fromEarlier (not_not.1 targetLater) edge
  exact isFirst target (not_not.1 targetLater) ⟨back, path.tail edge⟩

/-- A node that reaches another one, but is not reached from it, shares its component with a
node before the other one: the first of that component. -/
theorem FinishOrder.exists_before {successors : Successors} {order before after : List Nat}
    {root node : Nat} (finishOrder : FinishOrder successors order)
    (split : order = before ++ root :: after) (path : successors.Reaches node root)
    (noReturn : ¬ successors.Reaches root node) :
    ∃ other ∈ before, successors.StronglyConnected other node := by
  classical
  have isNode : root < successors.size := (finishOrder.mem_iff root).1 (by simp [split])
  have inOrder := (finishOrder.mem_iff node).2 (Successors.Reaches.source_lt path isNode)
  cases found : order.find? fun other => decide (successors.StronglyConnected other node) with
  | none =>
      have absent := List.find?_eq_none.1 found node inOrder
      simp [Successors.StronglyConnected.refl] at absent
  | some first =>
      obtain ⟨connected, later, earlier, firstSplit, isFirst⟩ :=
        List.find?_eq_some_iff_append.1 found
      have connected := of_decide_eq_true connected
      have notLater : root ∉ later := fun member =>
        finishOrder.not_reaches_later firstSplit
          (fun other isLater toFirst => by
            have apart := isFirst other isLater
            simp [toFirst.trans connected] at apart)
          member (connected.1.trans path)
      have distinct : first ≠ root := fun same => noReturn (same ▸ connected.1)
      rw [firstSplit] at split
      rcases List.append_eq_append_iff.1 split with ⟨rest, rfl, restEq⟩ | ⟨rest, rfl, restEq⟩
      · cases rest with
        | nil => exact absurd (List.cons.inj restEq).1 distinct
        | cons head rest =>
            rw [List.cons_append, List.cons.injEq] at restEq
            exact ⟨first, by simp [restEq.1], connected⟩
      · cases rest with
        | nil => exact absurd (List.cons.inj restEq).1.symm distinct
        | cons head rest =>
            rw [List.cons_append, List.cons.injEq] at restEq
            exact absurd (by simp [restEq.1]) notLater

/-- Lists of nodes that are the classes of mutual reachability, each listed once, such that
no path leads from a later to an earlier class. -/
structure IsCondensation (successors : Successors) (components : List (List Nat)) : Prop where
  nodup : ∀ component ∈ components, component.Nodup
  isClass : ∀ component ∈ components, ∃ root ∈ component, ∀ node,
    node ∈ component ↔ node < successors.size ∧ successors.StronglyConnected root node
  covers : ∀ node < successors.size, ∃ component ∈ components, node ∈ component
  ordered : components.Pairwise fun earlier later =>
    ∀ source ∈ later, ∀ target ∈ earlier, ¬ successors.Reaches source target

/-- What a search of the reversed graph collects from a root that is not visited yet is the
component of the root, if the components of all nodes before it are visited. -/
theorem mem_reached_iff {successors : Successors} {order before after visited : List Nat}
    {root : Nat} {state reached : Search} (finishOrder : FinishOrder successors order)
    (split : order = before ++ root :: after) (size : state.visited.size = successors.size)
    (isVisited : ∀ node < successors.size, state.isVisited node = true ↔
      ∃ earlier ∈ before, successors.StronglyConnected earlier node)
    (isUnvisited : state.isVisited root = false)
    (explores : Explores successors.reverse [root] state visited reached) (node : Nat) :
    node ∈ visited ↔ node < successors.size ∧ successors.StronglyConnected root node := by
  have rootIsNode : root < successors.size := (finishOrder.mem_iff root).1 (by simp [split])
  have sound : ∀ node ∈ visited,
      node < successors.size ∧ successors.StronglyConnected root node := by
    intro node member
    have wasUnvisited := explores.isVisited_eq_false member
    have isNode : node < successors.size := size ▸ Search.lt_size_of_unvisited wasUnvisited
    obtain ⟨start, isRoot, path⟩ := explores.reaches member
    rw [List.mem_singleton.1 isRoot, Successors.reaches_reverse_iff rootIsNode] at path
    refine ⟨isNode, ?_, path⟩
    by_contra noReturn
    have visitedBefore :=
      (isVisited node isNode).2 (finishOrder.exists_before split path noReturn)
    simp [wasUnvisited] at visitedBefore
  refine ⟨sound node, fun ⟨isNode, connected⟩ => ?_⟩
  by_contra notReached
  have rootReached : root ∈ visited := by
    rcases (explores.isVisited_iff root).1 (explores.isVisited_root List.mem_cons_self) with
      already | member
    · simp [isUnvisited] at already
    · exact member
  have reversePath := (Successors.reaches_reverse_iff rootIsNode).2 connected.2
  obtain ⟨source, target, inside, outside, _, edge, further⟩ :=
    Successors.Reaches.exists_edge (· ∈ visited) reversePath rootReached notReached
  -- The target precedes a node of the component and is reached from it, so it belongs to it.
  have forward := (Successors.edge_reverse_iff.1 edge).1
  have targetIsNode := forward.source_lt
  have fromNode := (Successors.reaches_reverse_iff targetIsNode).1 further
  have toRoot : successors.Reaches target root := .head forward (sound source inside).2.2
  have targetConnected : successors.StronglyConnected root target :=
    ⟨connected.1.trans fromNode, toRoot⟩
  rcases (explores.isVisited_iff target).1 (explores.isVisited_successor inside edge) with
    already | member
  · obtain ⟨earlier, isBefore, toTarget⟩ := (isVisited target targetIsNode).1 already
    have rootVisited := (isVisited root rootIsNode).2
      ⟨earlier, isBefore, toTarget.trans targetConnected.symm⟩
    simp [isUnvisited] at rootVisited
  · exact outside member

/-- Lists of nodes that complete the visited ones to a condensation. -/
structure Completes (successors : Successors) (state : Search)
    (components : List (List Nat)) : Prop where
  nodup : ∀ component ∈ components, component.Nodup
  isClass : ∀ component ∈ components, ∃ root ∈ component, ∀ node,
    node ∈ component ↔ node < successors.size ∧ successors.StronglyConnected root node
  isUnvisited : ∀ component ∈ components, ∀ node ∈ component, state.isVisited node = false
  covers : ∀ node < successors.size,
    state.isVisited node = true ∨ ∃ component ∈ components, node ∈ component
  ordered : components.Pairwise fun earlier later =>
    ∀ source ∈ later, ∀ target ∈ earlier, ¬ successors.Reaches source target

/-- A component that no unvisited node outside it reaches completes the visited nodes
together with what completes them after its own visit. -/
theorem Completes.cons {successors : Successors} {state after : Search} {root : Nat}
    {component : List Nat} {components : List (List Nat)}
    (completes : Completes successors after components) (nodup : component.Nodup)
    (mem_component : ∀ node,
      node ∈ component ↔ node < successors.size ∧ successors.StronglyConnected root node)
    (isNode : root < successors.size)
    (isUnvisited : ∀ node ∈ component, state.isVisited node = false)
    (visitedAfter : ∀ node,
      after.isVisited node = true ↔ state.isVisited node = true ∨ node ∈ component)
    (precedes : ∀ source < successors.size, successors.Reaches source root →
      after.isVisited source = true) :
    Completes successors state (component :: components) := by
  have rootInside := (mem_component root).2 ⟨isNode, .refl root⟩
  refine ⟨?_, ?_, ?_, fun node isNode => ?_, List.pairwise_cons.2 ⟨?_, completes.ordered⟩⟩
  · exact List.forall_mem_cons.2 ⟨nodup, completes.nodup⟩
  · exact List.forall_mem_cons.2 ⟨⟨root, rootInside, mem_component⟩, completes.isClass⟩
  · refine List.forall_mem_cons.2 ⟨isUnvisited, fun other member node inside => ?_⟩
    have unvisitedAfter := completes.isUnvisited other member node inside
    rw [Bool.eq_false_iff] at unvisitedAfter ⊢
    exact fun already => unvisitedAfter ((visitedAfter node).2 (.inl already))
  · rcases completes.covers node isNode with isVisited | ⟨other, member, inside⟩
    · rcases (visitedAfter node).1 isVisited with already | inside
      · exact .inl already
      · exact .inr ⟨component, List.mem_cons_self, inside⟩
    · exact .inr ⟨other, List.mem_cons_of_mem _ member, inside⟩
  · intro later member source inLater target inComponent path
    obtain ⟨_, _, isClass⟩ := completes.isClass later member
    have unvisitedAfter := completes.isUnvisited later member source inLater
    have toRoot := path.trans ((mem_component target).1 inComponent).2.2
    rw [precedes source ((isClass source).1 inLater).1 toRoot] at unvisitedAfter
    cases unvisitedAfter

/-- Collecting from the remaining roots completes the components of the earlier ones. -/
theorem completes_collectReached {successors : Successors} {order : List Nat}
    (finishOrder : FinishOrder successors order) (roots before : List Nat)
    (visited : Array Bool) (split : order = before ++ roots)
    (size : visited.size = successors.size)
    (isVisited : ∀ node < successors.size, (Search.mk visited []).isVisited node = true ↔
      ∃ earlier ∈ before, successors.StronglyConnected earlier node) :
    Completes successors ⟨visited, []⟩ (collectReached successors.reverse roots visited) := by
  induction roots generalizing before visited with
  | nil =>
      refine ⟨by simp [collectReached], by simp [collectReached], by simp [collectReached],
        fun node isNode => .inl ?_, .nil⟩
      have inOrder := (finishOrder.mem_iff node).2 isNode
      rw [split, List.append_nil] at inOrder
      exact (isVisited node isNode).2 ⟨node, inOrder, .refl node⟩
  | cons root roots inductionHypothesis =>
      have isNode : root < successors.size := (finishOrder.mem_iff root).1 (by simp [split])
      have nextSplit : order = (before ++ [root]) ++ roots := by simp [split]
      have visitedNext (node : Nat) :
          (∃ earlier ∈ before ++ [root], successors.StronglyConnected earlier node) ↔
            (∃ earlier ∈ before, successors.StronglyConnected earlier node) ∨
              successors.StronglyConnected root node := by
        simp [or_and_right, exists_or]
      obtain ⟨component, explores⟩ :=
        explores_search successors.reverse [root] ⟨visited, []⟩
      rw [List.map_singleton] at explores
      have finished := explores.finished_eq
      rw [List.append_nil] at finished
      simp only [collectReached]
      rw [finished]
      cases rootVisited : (Search.mk visited []).isVisited root with
      | true =>
          obtain ⟨nothing, same⟩ := explores.eq_of_isVisited (by simpa using rootVisited)
          rw [nothing, same, List.isEmpty_nil, if_pos rfl]
          obtain ⟨first, isBefore, toRoot⟩ := (isVisited root isNode).1 rootVisited
          refine inductionHypothesis (before ++ [root]) visited nextSplit size
            fun node isNode => ?_
          rw [isVisited node isNode, visitedNext, or_iff_left_of_imp]
          exact fun connected => ⟨first, isBefore, toRoot.trans connected⟩
      | false =>
          have mem_component :=
            mem_reached_iff finishOrder split size isVisited rootVisited explores
          have nonempty : component.isEmpty = false := List.isEmpty_eq_false_iff.2
            (List.ne_nil_of_mem ((mem_component root).2 ⟨isNode, .refl root⟩))
          rw [nonempty, if_neg Bool.false_ne_true]
          have completes := inductionHypothesis (before ++ [root]) _ nextSplit
            (explores.size_eq.trans size) fun node isNode => by
              refine (explores.isVisited_iff node).trans ?_
              rw [isVisited node isNode, visitedNext, mem_component, and_iff_right isNode]
          refine completes.cons explores.nodup mem_component isNode
            (fun node => explores.isVisited_eq_false) explores.isVisited_iff ?_
          intro source sourceIsNode path
          refine (explores.isVisited_iff source).2 ?_
          by_cases returns : successors.Reaches root source
          · exact .inr ((mem_component source).2 ⟨sourceIsNode, returns, path⟩)
          · exact .inl ((isVisited source sourceIsNode).2
              (finishOrder.exists_before split path returns))

/-- The components of a graph are its condensation. -/
theorem isCondensation_components (successors : Successors) :
    IsCondensation successors (components successors) := by
  have completes := completes_collectReached (finishOrder_finishOrder successors)
    (finishOrder successors) [] (Array.replicate successors.size false) rfl (by simp)
    fun node isNode => by
      simp [Search.isVisited, Array.getD_eq_getD_getElem?, isNode]
  refine ⟨completes.nodup, completes.isClass, fun node isNode => ?_, completes.ordered⟩
  refine (completes.covers node isNode).resolve_left ?_
  simp [Search.isVisited, Array.getD_eq_getD_getElem?, isNode]

namespace IsCondensation

variable {successors : Successors} {components : List (List Nat)}

/-- Nodes of one component are strongly connected. -/
theorem stronglyConnected (condensation : IsCondensation successors components)
    {component : List Nat} (member : component ∈ components) {first second : Nat}
    (firstInside : first ∈ component) (secondInside : second ∈ component) :
    successors.StronglyConnected first second := by
  obtain ⟨root, _, isClass⟩ := condensation.isClass component member
  exact ((isClass first).1 firstInside).2.symm.trans ((isClass second).1 secondInside).2

/-- The places of components follow the paths between their nodes. -/
theorem place_le (condensation : IsCondensation successors components)
    {first second : List Nat} {firstPlace secondPlace : Nat}
    (atFirst : components[firstPlace]? = some first)
    (atSecond : components[secondPlace]? = some second) {source target : Nat}
    (inFirst : source ∈ first) (inSecond : target ∈ second)
    (path : successors.Reaches source target) : firstPlace ≤ secondPlace := by
  by_contra later
  obtain ⟨firstInBounds, rfl⟩ := List.getElem?_eq_some_iff.1 atFirst
  obtain ⟨secondInBounds, rfl⟩ := List.getElem?_eq_some_iff.1 atSecond
  exact List.pairwise_iff_getElem.1 condensation.ordered _ _ secondInBounds firstInBounds
    (Nat.lt_of_not_le later) source inFirst target inSecond path

/-- A node belongs to the component at one place only. -/
theorem place_eq (condensation : IsCondensation successors components)
    {first second : List Nat} {firstPlace secondPlace : Nat}
    (atFirst : components[firstPlace]? = some first)
    (atSecond : components[secondPlace]? = some second) {node : Nat}
    (inFirst : node ∈ first) (inSecond : node ∈ second) : firstPlace = secondPlace :=
  Nat.le_antisymm (condensation.place_le atFirst atSecond inFirst inSecond .refl)
    (condensation.place_le atSecond atFirst inSecond inFirst .refl)

end IsCondensation

/-- Numbering the nodes of a component changes their numbers only. -/
theorem getElem?_numberComponent {α : Type} (component : List Nat) (number : α)
    (numbers : Array α) (node : Nat) :
    (component.foldl (fun numbers node => numbers.setIfInBounds node number) numbers)[node]? =
      if node ∈ component then numbers[node]?.map fun _ => number else numbers[node]? := by
  induction component generalizing numbers with
  | nil => simp
  | cons first rest inductionHypothesis =>
      rw [List.foldl_cons, inductionHypothesis, Array.getElem?_setIfInBounds]
      by_cases here : first = node
      · subst here
        by_cases inBounds : first < numbers.size <;> simp [inBounds]
      · simp [here, Ne.symm here]

/-- Numbering components from a number on gives each node the number of its component, if
the node is in no later one, and leaves the numbers of all other nodes. -/
theorem getElem?_numberComponents (components : List (List Nat)) (start : Nat)
    (numbers : Array Nat) (node : Nat) :
    let numbered := (components.zipIdx start).foldl
      (fun numbers component => component.1.foldl
        (fun numbers node => numbers.setIfInBounds node component.2) numbers) numbers
    ((∀ component ∈ components, node ∉ component) → numbered[node]? = numbers[node]?) ∧
      ∀ place component, components[place]? = some component → node ∈ component →
        (∀ later other, components[later]? = some other → node ∈ other → later = place) →
        numbered[node]? = numbers[node]?.map fun _ => start + place := by
  induction components generalizing start numbers with
  | nil => simp
  | cons first rest inductionHypothesis =>
      simp only [List.zipIdx_cons, List.foldl_cons]
      obtain ⟨others, inside⟩ := inductionHypothesis (start + 1)
        (first.foldl (fun numbers node => numbers.setIfInBounds node start) numbers)
      refine ⟨fun absent => ?_, fun place component atPlace member isOnly => ?_⟩
      · rw [others fun component inRest => absent component (List.mem_cons_of_mem _ inRest),
          getElem?_numberComponent, if_neg (absent first List.mem_cons_self)]
      · cases place with
        | zero =>
            obtain rfl : first = component := by simpa using atPlace
            rw [others, getElem?_numberComponent, if_pos member, Nat.add_zero]
            intro other inRest inOther
            obtain ⟨later, atLater⟩ := List.mem_iff_getElem?.1 inRest
            simpa using isOnly (later + 1) other (by simpa using atLater) inOther
        | succ place =>
            have notFirst : node ∉ first := fun inFirst => by
              simpa using isOnly 0 first (by simp) inFirst
            rw [inside place component (by simpa using atPlace) member,
              getElem?_numberComponent, if_neg notFirst, Nat.add_right_comm, Nat.add_assoc]
            intro later other atLater inOther
            simpa using isOnly (later + 1) other (by simpa using atLater) inOther

/-- A node has the number of the place at which its component stands. -/
theorem getElem?_componentNumbers {successors : Successors} {components : List (List Nat)}
    (condensation : IsCondensation successors components) {place node : Nat}
    {component : List Nat} (atPlace : components[place]? = some component)
    (member : node ∈ component) :
    (componentNumbers successors.size components)[node]? = some place := by
  have isNode : node < successors.size := by
    obtain ⟨_, _, isClass⟩ := condensation.isClass component (List.mem_of_getElem? atPlace)
    exact ((isClass node).1 member).1
  have numbered := (getElem?_numberComponents components 0
    (Array.replicate successors.size 0) node).2 place component atPlace member
    fun later other atLater inOther => condensation.place_eq atLater atPlace inOther member
  rw [componentNumbers, numbered]
  simp [isNode]

/-- Every node has the number of some component, to which it belongs. -/
theorem exists_componentNumber {successors : Successors} {components : List (List Nat)}
    (condensation : IsCondensation successors components) {node : Nat}
    (isNode : node < successors.size) :
    ∃ place component, components[place]? = some component ∧ node ∈ component ∧
      (componentNumbers successors.size components)[node]? = some place := by
  obtain ⟨component, member, inside⟩ := condensation.covers node isNode
  obtain ⟨place, atPlace⟩ := List.mem_iff_getElem?.1 member
  exact ⟨place, component, atPlace, inside,
    getElem?_componentNumbers condensation atPlace inside⟩

/-- Nodes have the same number exactly when they are strongly connected. -/
theorem componentNumbers_eq_iff {successors : Successors} {components : List (List Nat)}
    (condensation : IsCondensation successors components) {first second : Nat}
    (firstIsNode : first < successors.size) (secondIsNode : second < successors.size) :
    (componentNumbers successors.size components)[first]? =
        (componentNumbers successors.size components)[second]? ↔
      successors.StronglyConnected first second := by
  obtain ⟨firstPlace, firstComponent, atFirst, inFirst, firstNumber⟩ :=
    exists_componentNumber condensation firstIsNode
  obtain ⟨secondPlace, secondComponent, atSecond, inSecond, secondNumber⟩ :=
    exists_componentNumber condensation secondIsNode
  rw [firstNumber, secondNumber, Option.some.injEq]
  constructor
  · rintro rfl
    rw [atFirst, Option.some.injEq] at atSecond
    exact condensation.stronglyConnected (List.mem_of_getElem? atFirst) inFirst
      (atSecond ▸ inSecond)
  · intro connected
    exact Nat.le_antisymm (condensation.place_le atFirst atSecond inFirst inSecond connected.1)
      (condensation.place_le atSecond atFirst inSecond inFirst connected.2)

end Datalog
