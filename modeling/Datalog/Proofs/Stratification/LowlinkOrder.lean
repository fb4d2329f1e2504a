import Mathlib.Data.List.Sort
import Datalog.Proofs.Stratification.LowlinkComponents

/-!
# Two searches for the same components

Rules are stratified by the components that two depth-first searches collect, and a search
with lowlinks finds the same ones alone. Its steps are those of the first of the two searches
with lowlinks added (`Traces`), so each of its components has a node whose visit ended after
those of all nodes with lower numbers (`RootsFirst`). The components that are collected from
the order in which visits ended come in the order of such nodes (`precedes_components`). Both
numberings therefore run through the components in opposite directions
(`LowlinkSearch.map_numberOf`), which is part of `findsComponents_lowlinkComponents`.
-/

namespace Datalog

/-- What a depth-first search without lowlinks has noted at the same point. -/
def Lowlinks.asSearch (state : Lowlinks) (finished : List Nat) : Search :=
  ⟨state.index.map Option.isSome, finished⟩

/-- The tasks of a depth-first search without lowlinks at the same point. -/
def LowlinkSearch.tasks (successors : Successors) (search : LowlinkSearch) : List Task :=
  (search.calls.flatMap fun call => (call.rest successors).map .enter ++ [.leave call.node]) ++
    search.roots.map .enter

/-- The tasks of a call are to enter what its edges lead to and to leave its node. -/
theorem LowlinkSearch.tasks_cons {successors : Successors} {roots : List Nat} {call : Call}
    {calls : List Call} {state : Lowlinks} :
    tasks successors ⟨roots, call :: calls, state⟩ =
      (call.rest successors).map .enter ++ .leave call.node ::
        tasks successors ⟨roots, calls, state⟩ := by
  simp [tasks]

/-- Each complete component has a node whose visit ended after those of all nodes in the
components completed earlier. -/
def RootsFirst (successors : Successors) (state : Lowlinks) (finished : List Nat) : Prop :=
  ∀ number < state.count, ∃ later root earlier, finished = later ++ root :: earlier ∧
    state.Done successors.size root ∧ state.componentOf root = number ∧
    ∀ node, state.Done successors.size node → state.componentOf node < number → node ∈ earlier

/-- A depth-first search without lowlinks ends the same visits in the same order. -/
structure Traces (successors : Successors) (search : LowlinkSearch) (finished : List Nat) :
    Prop where
  search_eq : Datalog.search successors (search.tasks successors)
      (search.state.asSearch finished) =
    Datalog.search successors ((List.range successors.size).map .enter) (.start successors.size)
  mem_finished : ∀ node < successors.size, search.state.isVisited node = true →
    node ∉ search.calls.map Call.node → node ∈ finished
  rootsFirst : RootsFirst successors search.state finished

theorem RootsFirst.congr {successors : Successors} {state after : Lowlinks}
    {finished : List Nat} (rootsFirst : RootsFirst successors state finished)
    (same : state.SameComponents after successors.size) (ended : List Nat) :
    RootsFirst successors after (ended ++ finished) := by
  intro number inBounds
  rw [same.count_eq] at inBounds
  obtain ⟨later, root, earlier, rfl, done, isNumber, others⟩ := rootsFirst number inBounds
  refine ⟨ended ++ later, root, earlier, (List.append_assoc _ _ _).symm, ?_⟩
  simp only [same.done_iff, same.componentOf_eq]
  exact ⟨done, isNumber, others⟩

/-- The visit that completes a component is the last of all that have ended. -/
theorem Completing.rootsFirst {successors : Successors} {call : Call} {calls : List Call}
    {state : Lowlinks} {above below finished : List Nat}
    (completing : Completing successors call calls state above below)
    (rootsFirst : RootsFirst successors state finished)
    (mem_finished : ∀ node < successors.size, state.isVisited node = true →
      node ∉ (call :: calls).map Call.node → node ∈ finished) :
    RootsFirst successors (state.complete call.node) (call.node :: finished) := by
  have isLast : call.node ∈ above ++ [call.node] := List.mem_append_right _ List.mem_cons_self
  have count_eq : (state.complete call.node).count = state.count + 1 := by
    rw [Lowlinks.complete_eq completing.split completing.notAbove]
  have done_of_lt {node : Nat} (done : (state.complete call.node).Done successors.size node)
      (lower : (state.complete call.node).componentOf node < state.count) :
      state.Done successors.size node := by
    refine (completing.done_complete.1 done).resolve_right fun inside => ?_
    rw [completing.componentOf_inside inside] at lower
    exact Nat.lt_irrefl _ lower
  intro number inBounds
  rw [count_eq] at inBounds
  rcases Nat.lt_succ_iff_lt_or_eq.1 inBounds with isOld | rfl
  · obtain ⟨later, root, earlier, rfl, done, isNumber, others⟩ := rootsFirst number isOld
    refine ⟨call.node :: later, root, earlier, rfl, completing.done_complete.2 (.inl done),
      (completing.componentOf_done done).trans isNumber, fun node nodeDone lower => ?_⟩
    have nodeDone := done_of_lt nodeDone (Nat.lt_trans lower isOld)
    rw [completing.componentOf_done nodeDone] at lower
    exact others node nodeDone lower
  · refine ⟨[], call.node, finished, rfl, completing.done_complete.2 (.inr isLast),
      completing.componentOf_inside isLast, fun node nodeDone lower => ?_⟩
    have nodeDone := done_of_lt nodeDone lower
    exact mem_finished node nodeDone.isNode nodeDone.isVisited fun isCaller =>
      nodeDone.notOnStack (completing.stacked.calls_sublist.subset isCaller)

namespace Traces

open LowlinkSearch (Invariant)

variable {successors : Successors} {roots : List Nat} {calls : List Call} {state : Lowlinks}
  {node target nextEdge : Nat} {finished : List Nat}

theorem isVisited_asSearch : (state.asSearch finished).isVisited node = state.isVisited node := by
  simp only [Search.isVisited, Lowlinks.asSearch, Lowlinks.isVisited,
    Array.getD_eq_getD_getElem?, Array.getElem?_map]
  cases state.index[node]? <;> rfl

theorem mark_asSearch :
    (state.asSearch finished).mark node = (state.enter node).asSearch finished := by
  simp [Search.mark, Lowlinks.asSearch, Lowlinks.enter]

theorem start (successors : Successors) : Traces successors (.start successors.size) [] where
  search_eq := by
    simp [LowlinkSearch.tasks, LowlinkSearch.start, Lowlinks.asSearch, Lowlinks.start,
      Search.start]
  mem_finished node isNode isVisited := by
    rw [LowlinkSearch.start, Lowlinks.isVisited_start isNode] at isVisited
    cases isVisited
  rootsFirst number inBounds := absurd inBounds (Nat.not_lt_zero _)

/-- Both searches pass over visited nodes. -/
theorem search_of_visited (isVisited : state.isVisited node = true) (tasks : List Task) :
    search successors (.enter node :: tasks) (state.asSearch finished) =
      search successors tasks (state.asSearch finished) := by
  rw [search, isVisited_asSearch, if_pos isVisited]

/-- Both searches begin the visit of a node with its first edge. -/
theorem search_of_unvisited (isUnvisited : state.isVisited node = false) (tasks : List Task) :
    search successors (.enter node :: tasks) (state.asSearch finished) =
      search successors ((Call.rest successors ⟨node, 0⟩).map .enter ++ .leave node :: tasks)
        ((state.enter node).asSearch finished) := by
  rw [search, isVisited_asSearch, isUnvisited, if_neg Bool.false_ne_true, mark_asSearch]
  rfl

theorem skipRoot (traces : Traces successors ⟨node :: roots, [], state⟩ finished)
    (isVisited : state.isVisited node = true) :
    Traces successors ⟨roots, [], state⟩ finished :=
  ⟨(search_of_visited isVisited _).symm.trans traces.search_eq, traces.mem_finished,
    traces.rootsFirst⟩

/-- The first task of a search can be to enter a node which has not been visited. -/
theorem enter {before after : LowlinkSearch} (traces : Traces successors before finished)
    (isUnvisited : before.state.isVisited node = false)
    (isEntered : after.state = before.state.enter node)
    (isFirst : ∃ tasks, before.tasks successors = .enter node :: tasks ∧
      after.tasks successors =
        (Call.rest successors ⟨node, 0⟩).map .enter ++ .leave node :: tasks)
    (sameNodes : after.calls.map Call.node = node :: before.calls.map Call.node) :
    Traces successors after finished := by
  obtain ⟨tasks, beforeTasks, afterTasks⟩ := isFirst
  refine ⟨?_, fun other isNode isVisited notCaller => ?_, ?_⟩
  · rw [afterTasks, isEntered, ← search_of_unvisited isUnvisited, ← beforeTasks]
    exact traces.search_eq
  · rw [sameNodes] at notCaller
    obtain ⟨isOther, notCaller⟩ := List.ne_and_not_mem_of_not_mem_cons notCaller
    rw [isEntered, Lowlinks.isVisited_enter, decide_eq_false isOther, Bool.false_or] at isVisited
    exact traces.mem_finished other isNode isVisited notCaller
  · rw [isEntered]
    exact traces.rootsFirst.congr (Lowlinks.sameComponents_enter isUnvisited _) []

/-- Both searches pass over an edge to a visited node; only one of them notes lowlinks. -/
theorem pass {after : Lowlinks}
    (traces : Traces successors ⟨roots, ⟨node, nextEdge⟩ :: calls, state⟩ finished)
    (atCursor : (successors.of node)[nextEdge]? = some target)
    (isVisited : state.isVisited target = true) (index_eq : after.index = state.index)
    (same : state.SameComponents after successors.size) :
    Traces successors ⟨roots, ⟨node, nextEdge + 1⟩ :: calls, after⟩ finished := by
  have asSearch_eq : after.asSearch finished = state.asSearch finished := by
    rw [Lowlinks.asSearch, index_eq, Lowlinks.asSearch]
  refine ⟨?_, fun other isNode isVisited notCaller => ?_, traces.rootsFirst.congr same []⟩
  · have search_eq := traces.search_eq
    rw [LowlinkSearch.tasks_cons, Call.rest_eq_cons atCursor, List.map_cons, List.cons_append,
      search_of_visited isVisited] at search_eq
    rw [LowlinkSearch.tasks_cons, asSearch_eq]
    exact search_eq
  · rw [Lowlinks.isVisited, index_eq] at isVisited
    exact traces.mem_finished other isNode isVisited notCaller

/-- Both searches end the visit of a node when its edges have been followed. -/
theorem leave {call : Call}
    (invariant : Invariant successors ⟨roots, call :: calls, state⟩)
    (traces : Traces successors ⟨roots, call :: calls, state⟩ finished)
    (isDone : call.rest successors = []) :
    Traces successors ⟨roots, calls, state.leave call.node calls⟩ (call.node :: finished) := by
  have index_eq := LowlinkSearch.index_leave state call.node calls
  refine ⟨?_, fun other isNode isVisited notCaller => ?_, ?_⟩
  · have search_eq := traces.search_eq
    rw [LowlinkSearch.tasks_cons, isDone, List.map_nil, List.nil_append, search] at search_eq
    simp only [Lowlinks.asSearch, index_eq]
    exact search_eq
  · rw [Lowlinks.isVisited, index_eq] at isVisited
    by_cases isThis : other = call.node
    · rw [isThis]
      exact List.mem_cons_self
    · refine List.mem_cons_of_mem _ (traces.mem_finished other isNode isVisited fun isCaller => ?_)
      exact (List.mem_cons.1 isCaller).elim isThis notCaller
  · have rootsFirst := traces.rootsFirst.congr
      (state.sameComponents_returnTo call.node calls successors.size) []
    obtain ⟨above, below, completing, isComplete⟩ | ⟨_, isReturned⟩ :=
      invariant.leave_cases isDone
    · rw [isComplete]
      refine completing.rootsFirst rootsFirst fun other isNode isVisited notCaller => ?_
      refine traces.mem_finished other isNode ?_ notCaller
      cases calls <;> exact isVisited
    · rw [isReturned]
      exact rootsFirst.congr ⟨fun _ => .rfl, rfl, rfl⟩ [call.node]

/-- With every step of one search the other one goes on as well. -/
theorem step {search next : LowlinkSearch} (traces : Traces successors search finished)
    (invariant : Invariant successors search) (taken : search.step successors = some next) :
    ∃ finished, Traces successors next finished := by
  cases LowlinkSearch.turn_of_step taken with
  | skip isVisited => exact ⟨finished, traces.skipRoot isVisited⟩
  | visit isUnvisited =>
      exact ⟨finished, traces.enter isUnvisited rfl
        ⟨_, rfl, LowlinkSearch.tasks_cons⟩ rfl⟩
  | descend atCursor isUnvisited =>
      refine ⟨finished, traces.enter isUnvisited rfl ⟨_, ?_, LowlinkSearch.tasks_cons⟩ rfl⟩
      rw [LowlinkSearch.tasks_cons, Call.rest_eq_cons atCursor, LowlinkSearch.tasks_cons]
      rfl
  | @lower _ node _ target _ state atCursor isVisited =>
      exact ⟨finished, traces.pass atCursor isVisited rfl
        (state.sameComponents_lower node (state.number target) successors.size)⟩
  | pass atCursor isVisited =>
      exact ⟨finished, traces.pass atCursor isVisited rfl ⟨fun _ => .rfl, rfl, rfl⟩⟩
  | leave atCursor => exact ⟨_, traces.leave invariant (Call.rest_eq_nil atCursor)⟩

/-- When one search has halted, the other one has ended all visits in its order. -/
theorem run {search : LowlinkSearch} (traces : Traces successors search finished)
    (invariant : Invariant successors search) :
    ∃ finished, Traces successors ⟨[], [], search.run successors⟩ finished := by
  induction search using LowlinkSearch.run.induct successors generalizing finished with
  | case1 search halted =>
      rw [LowlinkSearch.run, halted, ← LowlinkSearch.eq_of_step_eq_none halted]
      exact ⟨finished, traces⟩
  | case2 search next taken inductionHypothesis =>
      rw [LowlinkSearch.run, taken]
      obtain ⟨finished, traces⟩ := traces.step invariant taken
      exact inductionHypothesis traces (invariant.step taken)

end Traces

/-- A node comes before those behind it in an order without repetition. -/
theorem idxOf_lt_idxOf {later earlier : List Nat} {node other : Nat}
    (nodup : (later ++ node :: earlier).Nodup) (member : other ∈ earlier) :
    (later ++ node :: earlier).idxOf node < (later ++ node :: earlier).idxOf other := by
  rw [List.nodup_append, List.nodup_cons] at nodup
  obtain ⟨-, ⟨notEarlier, -⟩, apart⟩ := nodup
  have notLater (behind : Nat) (isBehind : behind ∈ node :: earlier) : behind ∉ later :=
    fun isLater => apart behind isLater behind isBehind rfl
  rw [List.idxOf_append_of_notMem (notLater node List.mem_cons_self),
    List.idxOf_append_of_notMem (notLater other (List.mem_cons_of_mem _ member)),
    List.idxOf_cons_self, List.idxOf_cons_ne _ (by rintro rfl; exact notEarlier member)]
  exact Nat.lt_of_lt_of_eq (Nat.lt_succ_of_le (Nat.le_add_right _ _)) rfl

/-- One of the nodes of a component comes before all of another one. -/
def Precedes (order first second : List Nat) : Prop :=
  ∃ node ∈ first, ∀ other ∈ second, order.idxOf node < order.idxOf other

/-- Components collected by searches from the nodes in an order precede each other in it. -/
theorem precedes_collectReached {successors : Successors} {order : List Nat}
    (finishOrder : FinishOrder successors order) (reversed : Successors) (roots before : List Nat)
    (visited : Array Bool) (split : order = before ++ roots)
    (size : visited.size = successors.size)
    (isVisited : ∀ node ∈ before, (Search.mk visited []).isVisited node = true) :
    (∀ component ∈ collectReached reversed roots visited, ∀ node ∈ component,
      (Search.mk visited []).isVisited node = false) ∧
    (collectReached reversed roots visited).Pairwise (Precedes order) := by
  induction roots generalizing before visited with
  | nil =>
      refine ⟨fun component member => ?_, List.Pairwise.nil⟩
      cases member
  | cons root roots inductionHypothesis =>
      have nextSplit : order = (before ++ [root]) ++ roots := by simp [split]
      obtain ⟨component, explores⟩ := explores_search reversed [root] ⟨visited, []⟩
      rw [List.map_singleton] at explores
      have finished := explores.finished_eq
      rw [List.append_nil] at finished
      simp only [collectReached]
      rw [finished]
      have visitedNext : ∀ node ∈ before ++ [root],
          (search reversed [.enter root] ⟨visited, []⟩).isVisited node = true := by
        intro node member
        rcases List.mem_append.1 member with isBefore | isRoot
        · exact (explores.isVisited_iff node).2 (.inl (isVisited node isBefore))
        · rw [List.mem_singleton.1 isRoot]
          exact explores.isVisited_root List.mem_cons_self
      obtain ⟨unvisitedNext, pairwise⟩ := inductionHypothesis (before ++ [root]) _ nextSplit
        (explores.size_eq.trans size) visitedNext
      have unvisited : ∀ later ∈ collectReached reversed roots
          (search reversed [.enter root] ⟨visited, []⟩).visited, ∀ node ∈ later,
          (Search.mk visited []).isVisited node = false := by
        intro later member node inside
        have isUnvisited := unvisitedNext later member node inside
        rw [Bool.eq_false_iff] at isUnvisited ⊢
        exact fun already => isUnvisited ((explores.isVisited_iff node).2 (.inl already))
      split
      next => exact ⟨unvisited, pairwise⟩
      next nonempty =>
        refine ⟨List.forall_mem_cons.2 ⟨fun node => explores.isVisited_eq_false, unvisited⟩,
          List.pairwise_cons.2 ⟨fun later member => ⟨root, ?_, fun node inside => ?_⟩, pairwise⟩⟩
        · by_contra notInside
          have already := ((explores.isVisited_iff root).1
            (explores.isVisited_root List.mem_cons_self)).resolve_right notInside
          obtain ⟨rfl, -⟩ := explores.eq_of_isVisited (by simpa using already)
          exact nonempty rfl
        · have isUnvisited := unvisitedNext later member node inside
          have isNode := Search.lt_size_of_unvisited isUnvisited
          rw [explores.size_eq, size, ← finishOrder.mem_iff, nextSplit] at isNode
          have isLater := (List.mem_append.1 isNode).resolve_left fun isBefore =>
            Bool.false_ne_true (isUnvisited.symm.trans (visitedNext node isBefore))
          rw [split]
          exact idxOf_lt_idxOf (split ▸ finishOrder.nodup) isLater

/-- The components collected from a finishing order precede each other in it. -/
theorem precedes_components (successors : Successors) :
    (components successors).Pairwise (Precedes (finishOrder successors)) :=
  (precedes_collectReached (finishOrder_finishOrder successors) successors.reverse
    (finishOrder successors) [] (Array.replicate successors.size false) rfl (by simp)
    fun node member => by cases member).2

namespace LowlinkSearch

variable {successors : Successors}

/-- What a search has found when it halts. -/
def final (successors : Successors) : Lowlinks :=
  (LowlinkSearch.start successors.size).run successors

/-- The invariant holds when the search of a graph halts. -/
theorem invariant_final (successors : Successors) :
    Invariant successors ⟨[], [], final successors⟩ :=
  (Invariant.start successors).run

/-- The visits of the search end in the finishing order of the graph. -/
theorem rootsFirst_final (successors : Successors) :
    RootsFirst successors (final successors) (finishOrder successors) := by
  obtain ⟨finished, traces⟩ := (Traces.start successors).run (.start successors)
  have isOrder : finishOrder successors = finished := by
    rw [finishOrder, ← traces.search_eq]
    simp [tasks, search, Lowlinks.asSearch]
  rw [isOrder]
  exact traces.rootsFirst

/-- The search has completed all components. -/
theorem done_of_mem {node : Nat} {component : List Nat}
    (member : component ∈ components successors) (inside : node ∈ component) :
    (final successors).Done successors.size node := by
  obtain ⟨_, _, isClass⟩ := (isCondensation_components successors).isClass component member
  exact (invariant_final successors).done ((isClass node).1 inside).1

/-- Nodes of an earlier component in the finishing order have a higher number. -/
theorem componentOf_lt_of_pairwise (successors : Successors) :
    (components successors).Pairwise fun first second => ∀ node ∈ first, ∀ other ∈ second,
      (final successors).componentOf other < (final successors).componentOf node := by
  have condensation := isCondensation_components successors
  have condensed := (invariant_final successors).condensed
  refine ((precedes_components successors).and condensation.ordered).imp_of_mem ?_
  rintro first second firstMember secondMember ⟨⟨leader, isLeader, precedes⟩, noPath⟩
    node inFirst other inSecond
  have isFirst := done_of_mem firstMember inFirst
  have isSecond := done_of_mem secondMember inSecond
  by_contra notLower
  have different : (final successors).componentOf node ≠ (final successors).componentOf other :=
    fun same => noPath other inSecond node inFirst
      ((condensed.componentOf_eq_iff node other isFirst isSecond).1 same).2
  have lower := Nat.lt_of_le_of_ne (Nat.le_of_not_lt notLower) different
  -- The root of the second component would come both after the leader of the first and before.
  obtain ⟨later, root, earlier, split, rootDone, isNumber, others⟩ :=
    rootsFirst_final successors _ (condensed.componentOf_lt other isSecond)
  have rootInSecond : root ∈ second := by
    obtain ⟨representative, _, isClass⟩ := condensation.isClass second secondMember
    have connected := (condensed.componentOf_eq_iff other root isSecond rootDone).1 isNumber.symm
    exact (isClass root).2 ⟨rootDone.isNode, ((isClass other).1 inSecond).2.trans connected⟩
  have leaderDone := done_of_mem firstMember isLeader
  have sameNumber := (condensed.componentOf_eq_iff leader node leaderDone isFirst).2
    (condensation.stronglyConnected firstMember isLeader inFirst)
  have isEarlier := others leader leaderDone (sameNumber ▸ lower)
  have after := precedes root rootInSecond
  have nodup := (finishOrder_finishOrder successors).nodup
  rw [split] at after nodup
  exact Nat.lt_asymm after (idxOf_lt_idxOf nodup isEarlier)

/-- The number of a component is that of its first node. -/
def numberOf (successors : Successors) (component : List Nat) : Nat :=
  (final successors).componentOf (component.headD 0)

/-- All nodes of a component have its number. -/
theorem numberOf_eq {component : List Nat} {node : Nat}
    (member : component ∈ components successors) (inside : node ∈ component) :
    numberOf successors component = (final successors).componentOf node := by
  have condensed := (invariant_final successors).condensed
  have isHead : component.headD 0 ∈ component := by
    cases component with
    | nil => cases inside
    | cons head rest => exact List.mem_cons_self
  exact (condensed.componentOf_eq_iff _ node (done_of_mem member isHead)
    (done_of_mem member inside)).2
    ((isCondensation_components successors).stronglyConnected member isHead inside)

/-- The components in the finishing order have all numbers, the highest one first. -/
theorem map_numberOf (successors : Successors) :
    (components successors).map (numberOf successors) =
      (List.range (final successors).count).reverse := by
  have condensation := isCondensation_components successors
  have condensed := (invariant_final successors).condensed
  have descending : ((components successors).map (numberOf successors)).Pairwise (· > ·) := by
    refine List.pairwise_map.2 ((componentOf_lt_of_pairwise successors).imp_of_mem ?_)
    intro first second firstMember secondMember lower
    obtain ⟨node, inFirst, _⟩ := condensation.isClass first firstMember
    obtain ⟨other, inSecond, _⟩ := condensation.isClass second secondMember
    rw [numberOf_eq firstMember inFirst, numberOf_eq secondMember inSecond]
    exact lower node inFirst other inSecond
  refine descending.eq_of_mem_iff (List.pairwise_reverse.2 List.pairwise_lt_range) fun number => ?_
  rw [List.mem_reverse, List.mem_range, List.mem_map]
  constructor
  · rintro ⟨component, member, rfl⟩
    obtain ⟨node, inside, _⟩ := condensation.isClass component member
    rw [numberOf_eq member inside]
    exact condensed.componentOf_lt node (done_of_mem member inside)
  · intro inBounds
    obtain ⟨node, done, isNumber⟩ := condensed.exists_componentOf number inBounds
    obtain ⟨component, member, inside⟩ := condensation.covers node done.isNode
    exact ⟨component, member, (numberOf_eq member inside).trans isNumber⟩

/-- The nodes are those that have a place in the table of numbers. -/
theorem getElem?_component_eq_some_iff {node number : Nat} :
    (final successors).component[node]? = some number ↔
      node < successors.size ∧ (final successors).componentOf node = number := by
  rw [← (invariant_final successors).stacked.sized.component, Array.getElem?_eq_some_iff,
    ← exists_prop]
  refine exists_congr fun isNode => ?_
  rw [Lowlinks.componentOf, Array.getD_eq_getD_getElem?, Array.getElem?_eq_getElem isNode,
    Option.getD_some]

/-- The number of a component and the place at which it is collected add up. -/
theorem numberOf_add_place {component : List Nat} {place : Nat}
    (atPlace : (components successors)[place]? = some component) :
    numberOf successors component + place + 1 = (final successors).count := by
  have numbers := congrArg (·[place]?) (map_numberOf successors)
  simp only [List.getElem?_map, atPlace, Option.map_some] at numbers
  obtain ⟨inBounds, isNumber⟩ := List.getElem?_eq_some_iff.1 numbers.symm
  rw [List.getElem_reverse, List.getElem_range, List.length_range] at isNumber
  rw [List.length_reverse, List.length_range] at inBounds
  omega

end LowlinkSearch

/-- What the numbers that a search gives the nodes say about the components of a graph. -/
structure FindsComponents (successors : Successors) (component : Array Nat) (count : Nat) :
    Prop where
  /-- The search halts with the numbers after two steps for each node and one for each edge. -/
  halts : ∃ halted,
    LowlinkSearch.afterSteps successors
      (2 * successors.size + successors.toList.flatten.length) (.start successors.size) =
        some halted ∧
    halted.step successors = none ∧ halted.state.component = component ∧
    halted.state.count = count
  /-- Every node has a number below the count, and every such number is that of a node. -/
  size : component.size = successors.size
  lt_count : ∀ number ∈ component, number < count
  isUsed : ∀ number < count, number ∈ component
  /-- Nodes with the same number are those that reach each other. -/
  same_iff : ∀ first < successors.size, ∀ second < successors.size,
    component[first]? = component[second]? ↔ successors.StronglyConnected first second
  /-- Edges between components lead to lower numbers. -/
  descends : ∀ source target, successors.Edge source target →
    ∀ sourceNumber targetNumber : Nat, component[source]? = some sourceNumber →
    component[target]? = some targetNumber → sourceNumber ≠ targetNumber →
    targetNumber < sourceNumber
  /-- The components by which rules are stratified have the same numbers in opposite order. -/
  length_components : (components successors).length = count
  opposite : ∀ node number : Nat, component[node]? = some number → ∃ place,
    (componentNumbers successors.size (components successors))[node]? = some place ∧
      number + place + 1 = count

/-- A search with lowlinks numbers the strongly connected components of every graph, so that
edges between components lead to lower numbers. -/
theorem findsComponents_lowlinkComponents (successors : Successors) :
    FindsComponents successors (lowlinkComponents successors).1
      (lowlinkComponents successors).2 := by
  have invariant := LowlinkSearch.invariant_final successors
  have condensed := invariant.condensed
  have length : (components successors).length = (lowlinkComponents successors).2 := by
    have length := congrArg List.length (LowlinkSearch.map_numberOf successors)
    rwa [List.length_map, List.length_reverse, List.length_range] at length
  constructor
  · refine ⟨⟨[], [], LowlinkSearch.final successors⟩, ?_, rfl, rfl, rfl⟩
    rw [← LowlinkSearch.remaining_start]
    exact LowlinkSearch.afterSteps_remaining (.start successors)
  · exact invariant.stacked.sized.component
  · intro number member
    obtain ⟨node, isNumber⟩ := Array.mem_iff_getElem?.1 member
    obtain ⟨isNode, rfl⟩ := LowlinkSearch.getElem?_component_eq_some_iff.1 isNumber
    exact condensed.componentOf_lt node (invariant.done isNode)
  · intro number inBounds
    obtain ⟨node, done, isNumber⟩ := condensed.exists_componentOf number inBounds
    exact Array.mem_of_getElem?
      (LowlinkSearch.getElem?_component_eq_some_iff.2 ⟨done.isNode, isNumber⟩)
  · intro first isFirst second isSecond
    have number {node : Nat} (isNode : node < successors.size) :=
      LowlinkSearch.getElem?_component_eq_some_iff.2 ⟨isNode, rfl⟩
    rw [lowlinkComponents, ← LowlinkSearch.final, number isFirst, number isSecond,
      Option.some.injEq]
    exact condensed.componentOf_eq_iff first second (invariant.done isFirst)
      (invariant.done isSecond)
  · intro source target edge sourceNumber targetNumber isSource isTarget different
    obtain ⟨sourceIsNode, rfl⟩ := LowlinkSearch.getElem?_component_eq_some_iff.1 isSource
    obtain ⟨targetIsNode, rfl⟩ := LowlinkSearch.getElem?_component_eq_some_iff.1 isTarget
    exact Nat.lt_of_le_of_ne
      (condensed.componentOf_le source target (invariant.done sourceIsNode) edge targetIsNode)
      different.symm
  · exact length
  · intro node number isNumber
    obtain ⟨isNode, rfl⟩ := LowlinkSearch.getElem?_component_eq_some_iff.1 isNumber
    obtain ⟨place, component, atPlace, inside, isPlace⟩ :=
      exists_componentNumber (isCondensation_components successors) isNode
    have sum := LowlinkSearch.numberOf_add_place atPlace
    rw [LowlinkSearch.numberOf_eq (List.mem_of_getElem? atPlace) inside] at sum
    exact ⟨place, isPlace, sum⟩

/-- A cycle of three nodes with a doubled edge and a loop, and a node that leads to it and to
another one. -/
example : lowlinkComponents #[[1, 1], [2, 1], [0], [0, 4], []] = (#[0, 0, 0, 2, 1], 3) := by
  cbv

end Datalog
