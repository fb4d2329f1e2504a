import Datalog.Proofs.Stratification.Lowlinks

/-!
# The components that a search with lowlinks completes

When a visit ends with the number of its node as lowlink, no edge leads from the node or what
is above it to what is below it on the stack (`Completing.closed`). What is above the node
reaches it by lowlinks, and the node reaches what is above it, so that a strongly connected
component is taken off the stack (`Completing.mem_iff`), after all those that it leads to.
`Condensed` says so of the numbers of components, and `LowlinkSearch.Invariant.step` puts the
invariants together: every step keeps them, and so does a search until it halts.
-/

namespace Datalog

/-- A node whose component is complete. -/
structure Lowlinks.Done (state : Lowlinks) (size node : Nat) : Prop where
  isNode : node < size
  isVisited : state.isVisited node = true
  notOnStack : node ∉ state.stack

/-- A change that leaves the complete components as they are. -/
structure Lowlinks.SameComponents (before after : Lowlinks) (size : Nat) : Prop where
  done_iff : ∀ node, after.Done size node ↔ before.Done size node
  component_eq : after.component = before.component
  count_eq : after.count = before.count

/-- Such a change leaves the numbers of nodes. -/
theorem Lowlinks.SameComponents.componentOf_eq {before after : Lowlinks} {size : Nat}
    (same : before.SameComponents after size) (node : Nat) :
    after.componentOf node = before.componentOf node := by
  rw [componentOf, same.component_eq, componentOf]

/-- No component is complete when the visit of one of its nodes begins. -/
theorem Lowlinks.sameComponents_enter {state : Lowlinks} {node : Nat}
    (isUnvisited : state.isVisited node = false) (size : Nat) :
    state.SameComponents (state.enter node) size := by
  refine ⟨fun other => ?_, rfl, rfl⟩
  constructor
  · rintro ⟨isNode, isVisited, notOnStack⟩
    obtain ⟨isOther, notOnStack⟩ := List.ne_and_not_mem_of_not_mem_cons notOnStack
    rw [isVisited_enter, decide_eq_false isOther, Bool.false_or] at isVisited
    exact ⟨isNode, isVisited, notOnStack⟩
  · rintro ⟨isNode, isVisited, notOnStack⟩
    refine ⟨isNode, ?_, fun member => ?_⟩
    · rw [isVisited_enter, isVisited, Bool.or_true]
    · rcases List.mem_cons.1 member with rfl | member
      · rw [isUnvisited] at isVisited
        cases isVisited
      · exact notOnStack member

/-- Lowlinks do not matter to complete components. -/
theorem Lowlinks.sameComponents_lower (state : Lowlinks) (node bound size : Nat) :
    state.SameComponents (state.lower node bound) size :=
  ⟨fun _ => ⟨fun ⟨isNode, isVisited, notOnStack⟩ => ⟨isNode, isVisited, notOnStack⟩,
    fun ⟨isNode, isVisited, notOnStack⟩ => ⟨isNode, isVisited, notOnStack⟩⟩, rfl, rfl⟩

/-- Passing a lowlink on changes nothing else. -/
theorem Lowlinks.sameComponents_returnTo (state : Lowlinks) (node : Nat) (calls : List Call)
    (size : Nat) : state.SameComponents (state.returnTo node calls) size := by
  cases calls with
  | nil => exact ⟨fun _ => .rfl, rfl, rfl⟩
  | cons parent calls => exact sameComponents_lower state parent.node (state.low node) size

/-- What the numbers of the complete components say. -/
structure Condensed (successors : Successors) (state : Lowlinks) : Prop where
  /-- A component is complete only after those that it leads to. -/
  closed : ∀ source target, state.Done successors.size source →
    successors.Edge source target → target < successors.size →
    state.Done successors.size target
  componentOf_lt : ∀ node, state.Done successors.size node →
    state.componentOf node < state.count
  exists_componentOf : ∀ number < state.count, ∃ node,
    state.Done successors.size node ∧ state.componentOf node = number
  componentOf_eq_iff : ∀ first second, state.Done successors.size first →
    state.Done successors.size second →
    (state.componentOf first = state.componentOf second ↔
      successors.StronglyConnected first second)
  componentOf_le : ∀ source target, state.Done successors.size source →
    successors.Edge source target → target < successors.size →
    state.componentOf target ≤ state.componentOf source

namespace Condensed

variable {successors : Successors} {state : Lowlinks} {source target : Nat}

theorem start (successors : Successors) :
    Condensed successors (.start successors.size) := by
  have notDone {node : Nat} :
      ¬ (Lowlinks.start successors.size).Done successors.size node := fun done => by
    have isVisited := done.isVisited
    rw [Lowlinks.isVisited_start done.isNode] at isVisited
    cases isVisited
  constructor
  · exact fun source target done => absurd done notDone
  · exact fun node done => absurd done notDone
  · exact fun number inBounds => absurd inBounds (Nat.not_lt_zero _)
  · exact fun first second done => absurd done notDone
  · exact fun source target done => absurd done notDone

/-- Only a change of the complete components matters. -/
theorem congr {after : Lowlinks} (condensed : Condensed successors state)
    (same : state.SameComponents after successors.size) : Condensed successors after := by
  constructor <;> simp only [same.done_iff, same.componentOf_eq, same.count_eq]
  · exact condensed.closed
  · exact condensed.componentOf_lt
  · exact condensed.exists_componentOf
  · exact condensed.componentOf_eq_iff
  · exact condensed.componentOf_le

/-- Complete components lead to complete components only. -/
theorem done_of_reaches (condensed : Condensed successors state)
    (done : state.Done successors.size source) (path : successors.Reaches source target)
    (isNode : target < successors.size) : state.Done successors.size target := by
  by_contra notDone
  obtain ⟨last, next, lastDone, nextNotDone, _, edge, further⟩ :=
    path.exists_edge (state.Done successors.size) done notDone
  exact nextNotDone (condensed.closed last next lastDone edge (further.source_lt isNode))

end Condensed

/-- The end of a visit whose lowlink is the number of its own node, and the stack above and
below the node. -/
structure Completing (successors : Successors) (call : Call) (calls : List Call)
    (state : Lowlinks) (above below : List Nat) : Prop where
  stacked : Stacked successors (call :: calls) state
  linked : Linked successors (call :: calls) state
  condensed : Condensed successors state
  isDone : call.rest successors = []
  isLow : state.low call.node = state.number call.node
  split : state.stack = above ++ call.node :: below
  isAbove : ∀ node ∈ above, state.number call.node < state.number node
  isBelow : ∀ node ∈ below, state.number node < state.number call.node

namespace Completing

variable {successors : Successors} {state : Lowlinks} {call : Call} {calls : List Call}
  {node source target : Nat} {above below : List Nat}

theorem mem_stack (completing : Completing successors call calls state above below) :
    node ∈ state.stack ↔ node ∈ above ++ [call.node] ∨ node ∈ below :=
  Lowlinks.mem_stack_iff completing.split

theorem notAbove (completing : Completing successors call calls state above below) :
    call.node ∉ above :=
  fun member => Nat.lt_irrefl _ (completing.isAbove call.node member)

/-- The node of the visit is the oldest of those taken off the stack. -/
theorem number_le (completing : Completing successors call calls state above below)
    (inside : node ∈ above ++ [call.node]) :
    state.number call.node ≤ state.number node := by
  rcases List.mem_append.1 inside with isAbove | isLast
  · exact Nat.le_of_lt (completing.isAbove node isAbove)
  · exact Nat.le_of_eq (List.mem_singleton.1 isLast ▸ rfl)

/-- Edges lead from the nodes taken off the stack to such nodes and to complete components:
the lowlink of the visit accounts for all edges to nodes below it. -/
theorem closed (completing : Completing successors call calls state above below)
    (inside : source ∈ above ++ [call.node]) (edge : successors.Edge source target)
    (isNode : target < successors.size) :
    target ∈ above ++ [call.node] ∨ state.Done successors.size target := by
  have onStack := completing.mem_stack.2 (.inl inside)
  have followed : Followed successors (call :: calls) source target := by
    refine ⟨edge, List.forall_mem_cons.2 ⟨fun _ => ?_, fun caller member same => ?_⟩⟩
    · rw [completing.isDone]
      exact List.not_mem_nil
    · have older := completing.stacked.number_lt_last (List.mem_map_of_mem member)
      rw [same] at older
      exact absurd (completing.number_le inside) (Nat.not_le_of_lt older)
  have isVisited := completing.linked.isVisited source onStack target isNode followed
  by_cases targetOnStack : target ∈ state.stack
  · refine .inl ((completing.mem_stack.1 targetOnStack).resolve_right fun inBelow => ?_)
    obtain ⟨holder, isHolder, notOlder, holds⟩ := completing.linked.covered source onStack target
      targetOnStack followed call.node List.mem_cons_self (completing.number_le inside)
    rcases List.mem_cons.1 isHolder with rfl | isEarlier
    · rw [completing.isLow] at holds
      exact absurd (completing.isBelow target inBelow) (Nat.not_lt_of_le holds)
    · exact absurd notOlder (Nat.not_le_of_lt (completing.stacked.number_lt_last isEarlier))
  · exact .inr ⟨isNode, isVisited, targetOnStack⟩

/-- The same holds of paths. -/
theorem closed_of_reaches (completing : Completing successors call calls state above below)
    (inside : source ∈ above ++ [call.node]) (path : successors.Reaches source target)
    (isNode : target < successors.size) :
    target ∈ above ++ [call.node] ∨ state.Done successors.size target := by
  by_contra outside
  obtain ⟨last, next, lastInside, nextOutside, _, edge, further⟩ := path.exists_edge
    (fun node => node ∈ above ++ [call.node] ∨ state.Done successors.size node)
    (.inl inside) outside
  have nextIsNode := further.source_lt isNode
  rcases lastInside with lastInside | lastDone
  · exact nextOutside (completing.closed lastInside edge nextIsNode)
  · exact nextOutside (.inr (completing.condensed.closed last next lastDone edge nextIsNode))

/-- Every node taken off the stack reaches the oldest one: by lowlinks it reaches older ones. -/
theorem reaches (completing : Completing successors call calls state above below)
    (inside : node ∈ above ++ [call.node]) : successors.Reaches node call.node := by
  induction isNumber : state.number node using Nat.strongRecOn generalizing node with
  | ind number inductionHypothesis =>
      rcases List.mem_append.1 inside with isAbove | isLast
      · have onStack := completing.mem_stack.2 (.inl inside)
        have notCaller : node ∉ (call :: calls).map Call.node := by
          have newer := completing.isAbove node isAbove
          intro isCaller
          rcases List.mem_cons.1 isCaller with rfl | isEarlier
          · exact Nat.lt_irrefl _ newer
          · exact Nat.lt_asymm newer (completing.stacked.number_lt_last isEarlier)
        have lower := completing.linked.low_lt node onStack notCaller
        obtain ⟨oldest, isOldest, isLow, path⟩ := completing.linked.exists_low node onStack
        rw [← isLow, isNumber] at lower
        have oldestInside : oldest ∈ above ++ [call.node] :=
          (completing.closed_of_reaches inside path
            (completing.stacked.isNode oldest isOldest)).resolve_right
            fun done => done.notOnStack isOldest
        exact path.trans (inductionHypothesis _ lower oldestInside rfl)
      · rw [List.mem_singleton.1 isLast]
        exact .refl

/-- The nodes taken off the stack are a strongly connected component. -/
theorem mem_iff (completing : Completing successors call calls state above below)
    (isNode : node < successors.size) :
    node ∈ above ++ [call.node] ↔ successors.StronglyConnected call.node node := by
  have isLast : call.node ∈ above ++ [call.node] := List.mem_append_right _ List.mem_cons_self
  have onStack := completing.mem_stack.2 (.inl isLast)
  constructor
  · intro inside
    have path := completing.linked.reaches call.node List.mem_cons_self node
      (completing.mem_stack.2 (.inl inside)) (completing.number_le inside)
    exact ⟨path, completing.reaches inside⟩
  · intro ⟨path, back⟩
    refine (completing.closed_of_reaches isLast path isNode).resolve_right fun done => ?_
    have lastDone := completing.condensed.done_of_reaches done back
      (completing.stacked.isNode call.node onStack)
    exact lastDone.notOnStack onStack

/-- Afterwards the nodes taken off the stack are done as well. -/
theorem done_complete (completing : Completing successors call calls state above below) :
    (state.complete call.node).Done successors.size node ↔
      state.Done successors.size node ∨ node ∈ above ++ [call.node] := by
  have stacked := completing.stacked.complete completing.split completing.notAbove
  have onStack_iff := stacked.isOnStack_iff node
  rw [Lowlinks.isOnStack_complete completing.split completing.notAbove,
    completing.stacked.isOnStack_iff] at onStack_iff
  have isVisited_eq : (state.complete call.node).isVisited node = state.isVisited node := by
    rw [Lowlinks.complete_eq completing.split completing.notAbove]
    rfl
  constructor
  · rintro ⟨isNode, isVisited, notOnStack⟩
    rw [isVisited_eq] at isVisited
    by_cases inside : node ∈ above ++ [call.node]
    · exact .inr inside
    · exact .inl ⟨isNode, isVisited, fun onStack => notOnStack (onStack_iff.1 ⟨inside, onStack⟩)⟩
  · rintro (⟨isNode, isVisited, notOnStack⟩ | inside)
    · exact ⟨isNode, isVisited_eq ▸ isVisited, fun onStack => notOnStack (onStack_iff.2 onStack).2⟩
    · have onStack := completing.mem_stack.2 (.inl inside)
      exact ⟨completing.stacked.isNode node onStack,
        isVisited_eq ▸ completing.stacked.isVisited node onStack,
        fun onStack => (onStack_iff.2 onStack).1 inside⟩

/-- A complete component is off the stack already. -/
theorem not_done (completing : Completing successors call calls state above below)
    (inside : node ∈ above ++ [call.node]) : ¬ state.Done successors.size node :=
  fun done => done.notOnStack (completing.mem_stack.2 (.inl inside))

/-- The component that a visit completes gets the next number. -/
theorem componentOf_inside (completing : Completing successors call calls state above below)
    (inside : node ∈ above ++ [call.node]) :
    (state.complete call.node).componentOf node = state.count := by
  have isNode := completing.stacked.isNode node (completing.mem_stack.2 (.inl inside))
  rw [Lowlinks.componentOf_complete completing.stacked.sized completing.split
    completing.notAbove isNode, if_pos inside]

/-- The components completed earlier keep their numbers, which are smaller. -/
theorem componentOf_done (completing : Completing successors call calls state above below)
    (done : state.Done successors.size node) :
    (state.complete call.node).componentOf node = state.componentOf node := by
  rw [Lowlinks.componentOf_complete completing.stacked.sized completing.split
    completing.notAbove done.isNode, if_neg fun inside => completing.not_done inside done]

/-- The nodes taken off the stack have the number of a component of their own. -/
theorem condensed_complete (completing : Completing successors call calls state above below) :
    Condensed successors (state.complete call.node) := by
  have condensed := completing.condensed
  have isLast : call.node ∈ above ++ [call.node] := List.mem_append_right _ List.mem_cons_self
  have count_eq : (state.complete call.node).count = state.count + 1 := by
    rw [Lowlinks.complete_eq completing.split completing.notAbove]
  have connected {node : Nat} (inside : node ∈ above ++ [call.node]) :
      successors.StronglyConnected call.node node :=
    (completing.mem_iff
      (completing.stacked.isNode node (completing.mem_stack.2 (.inl inside)))).1 inside
  -- Different components have different numbers, and no path leads back to the new one.
  have apart {first second : Nat} (done : state.Done successors.size first)
      (inside : second ∈ above ++ [call.node]) :
      state.componentOf first ≠ state.count ∧ ¬ successors.Reaches first second := by
    refine ⟨Nat.ne_of_lt (condensed.componentOf_lt first done), fun path => ?_⟩
    have isNode := completing.stacked.isNode second (completing.mem_stack.2 (.inl inside))
    exact completing.not_done inside (condensed.done_of_reaches done path isNode)
  constructor
  · intro source target done edge isNode
    rw [completing.done_complete] at done ⊢
    rcases done with done | inside
    · exact .inl (condensed.closed source target done edge isNode)
    · exact (completing.closed inside edge isNode).symm
  · intro node done
    rw [count_eq]
    rcases completing.done_complete.1 done with done | inside
    · rw [completing.componentOf_done done]
      exact Nat.lt_succ_of_lt (condensed.componentOf_lt node done)
    · rw [completing.componentOf_inside inside]
      exact Nat.lt_succ_self _
  · intro number inBounds
    rw [count_eq] at inBounds
    rcases Nat.lt_succ_iff_lt_or_eq.1 inBounds with isOld | rfl
    · obtain ⟨node, done, same⟩ := condensed.exists_componentOf number isOld
      exact ⟨node, completing.done_complete.2 (.inl done),
        (completing.componentOf_done done).trans same⟩
    · exact ⟨call.node, completing.done_complete.2 (.inr isLast),
        completing.componentOf_inside isLast⟩
  · intro first second isFirst isSecond
    rcases completing.done_complete.1 isFirst with firstDone | firstInside <;>
      rcases completing.done_complete.1 isSecond with secondDone | secondInside
    · rw [completing.componentOf_done firstDone, completing.componentOf_done secondDone]
      exact condensed.componentOf_eq_iff first second firstDone secondDone
    · rw [completing.componentOf_done firstDone, completing.componentOf_inside secondInside]
      have ⟨different, noPath⟩ := apart firstDone secondInside
      exact iff_of_false different fun connected => noPath connected.1
    · rw [completing.componentOf_inside firstInside, completing.componentOf_done secondDone]
      have ⟨different, noPath⟩ := apart secondDone firstInside
      exact iff_of_false different.symm fun connected => noPath connected.2
    · rw [completing.componentOf_inside firstInside, completing.componentOf_inside secondInside]
      exact iff_of_true rfl ((connected firstInside).symm.trans (connected secondInside))
  · intro source target done edge isNode
    rcases completing.done_complete.1 done with done | inside
    · have targetDone := condensed.closed source target done edge isNode
      rw [completing.componentOf_done done, completing.componentOf_done targetDone]
      exact condensed.componentOf_le source target done edge isNode
    · rw [completing.componentOf_inside inside]
      rcases completing.closed inside edge isNode with targetInside | targetDone
      · exact Nat.le_of_eq (completing.componentOf_inside targetInside)
      · rw [completing.componentOf_done targetDone]
        exact Nat.le_of_lt (condensed.componentOf_lt target targetDone)

end Completing

/-- What every step of a search preserves: besides what is known of the stack, of paths and of
the complete components, that no node is forgotten. -/
structure LowlinkSearch.Invariant (successors : Successors) (search : LowlinkSearch) : Prop where
  stacked : Stacked successors search.calls search.state
  linked : Linked successors search.calls search.state
  condensed : Condensed successors search.state
  visited_or_root : ∀ node < successors.size,
    search.state.isVisited node = true ∨ node ∈ search.roots

namespace LowlinkSearch.Invariant

variable {successors : Successors} {roots : List Nat} {calls : List Call} {state : Lowlinks}
  {node target nextEdge : Nat}

theorem start (successors : Successors) : Invariant successors (.start successors.size) where
  stacked := .start successors
  linked := .start successors
  condensed := .start successors
  visited_or_root _ isNode := .inr (List.mem_range.2 isNode)

/-- The visit of a node may begin from the last call. -/
theorem enter (invariant : Invariant successors ⟨roots, calls, state⟩)
    (isUnvisited : state.isVisited node = false)
    (fromLast : ∀ last ∈ calls.head?, successors.Edge last.node node) :
    Invariant successors ⟨roots, ⟨node, 0⟩ :: calls, state.enter node⟩ where
  stacked := invariant.stacked.enter isUnvisited
  linked := invariant.linked.enter invariant.stacked isUnvisited fromLast
  condensed := invariant.condensed.congr (Lowlinks.sameComponents_enter isUnvisited _)
  visited_or_root other isNode := by
    rw [Lowlinks.isVisited_enter, Bool.or_eq_true]
    exact (invariant.visited_or_root other isNode).imp_left .inr

/-- A root that has been visited needs no further turn. -/
theorem skipRoot (invariant : Invariant successors ⟨node :: roots, calls, state⟩)
    (isVisited : state.isVisited node = true) :
    Invariant successors ⟨roots, calls, state⟩ where
  stacked := invariant.stacked
  linked := invariant.linked
  condensed := invariant.condensed
  visited_or_root other isNode := by
    rcases invariant.visited_or_root other isNode with already | isRoot
    · exact .inl already
    · refine (List.mem_cons.1 isRoot).imp_left ?_
      rintro rfl
      exact isVisited

/-- The lowlink of a node may be lowered to the number of one that it reaches. -/
theorem lower (invariant : Invariant successors ⟨roots, calls, state⟩)
    (onStack : target ∈ state.stack) (path : successors.Reaches node target) :
    Invariant successors ⟨roots, calls, state.lower node (state.number target)⟩ where
  stacked := invariant.stacked.lower
  linked := invariant.linked.lower onStack path
  condensed := invariant.condensed.congr (Lowlinks.sameComponents_lower _ _ _ _)
  visited_or_root := invariant.visited_or_root

/-- A call may follow its next edge to a visited node if that is noted in its lowlink. -/
theorem follow (before : List Call) {after : List Call}
    (invariant : Invariant successors ⟨roots, before ++ ⟨node, nextEdge⟩ :: after, state⟩)
    (atCursor : (successors.of node)[nextEdge]? = some target)
    (isVisited : state.isVisited target = true)
    (noted : target ∈ state.stack → state.low node ≤ state.number target) :
    Invariant successors ⟨roots, before ++ ⟨node, nextEdge + 1⟩ :: after, state⟩ := by
  have sameNodes : (before ++ ⟨node, nextEdge + 1⟩ :: after).map Call.node =
      (before ++ ⟨node, nextEdge⟩ :: after).map Call.node := by simp
  refine ⟨{ invariant.stacked with calls_sublist := sameNodes ▸ invariant.stacked.calls_sublist },
    invariant.linked.follow sameNodes (by simp) (fun source other followed => ?_) isVisited noted,
    invariant.condensed, invariant.visited_or_root⟩
  by_cases isThis : source = node ∧ other = target
  · exact .inr isThis
  · refine .inl ⟨followed.edge, fun call member isSource => ?_⟩
    rcases List.mem_append.1 member with isBefore | member
    · exact followed.notAhead call (List.mem_append_left _ isBefore) isSource
    · rcases List.mem_cons.1 member with rfl | isAfter
      · have notAhead := followed.notAhead ⟨node, nextEdge + 1⟩
          (List.mem_append_right _ List.mem_cons_self) isSource
        rw [Call.rest_eq_cons atCursor, List.mem_cons, not_or]
        exact ⟨fun isTarget => isThis ⟨isSource.symm, isTarget⟩, notAhead⟩
      · exact followed.notAhead call
          (List.mem_append_right _ (List.mem_cons_of_mem _ isAfter)) isSource

/-- A visit passes its lowlink on before it ends. -/
theorem returnTo {call : Call}
    (invariant : Invariant successors ⟨roots, call :: calls, state⟩) :
    Invariant successors ⟨roots, call :: calls, state.returnTo call.node calls⟩ := by
  cases calls with
  | nil => exact invariant
  | cons parent calls =>
      have onStack := invariant.stacked.calls_sublist.subset List.mem_cons_self
      have isCaller : parent.node ∈ (call :: parent :: calls).map Call.node :=
        List.mem_cons_of_mem _ List.mem_cons_self
      obtain ⟨oldest, isOldest, isLow, further⟩ :=
        invariant.linked.exists_low call.node onStack
      have path := invariant.linked.reaches parent.node isCaller call.node onStack
        (Nat.le_of_lt (invariant.stacked.number_lt_last List.mem_cons_self))
      rw [Lowlinks.returnTo, ← isLow]
      exact invariant.lower isOldest (path.trans further)

/-- Once the lowlink has been passed on, the visit returned to has none that is higher. -/
theorem low_returnTo_le {call : Call}
    (invariant : Invariant successors ⟨roots, call :: calls, state⟩) :
    ∀ parent ∈ calls.head?, (state.returnTo call.node calls).low parent.node ≤
      (state.returnTo call.node calls).low call.node := by
  cases calls with
  | nil => exact fun parent isParent => by cases isParent
  | cons last calls =>
      rintro parent ⟨rfl⟩
      have older := invariant.stacked.number_lt_last List.mem_cons_self
      have isOther : call.node ≠ last.node := fun same => by simp [same] at older
      rw [Lowlinks.returnTo, Lowlinks.low_lower, Lowlinks.low_lower, if_pos rfl, if_neg isOther]
      exact Nat.min_le_right _ _

/-- A visit whose edges have been followed completes a component when it ends, or its node
waits on the stack for that of an older node. -/
theorem leave_cases {call : Call}
    (invariant : Invariant successors ⟨roots, call :: calls, state⟩)
    (isDone : call.rest successors = []) :
    (∃ above below,
      Completing successors call calls (state.returnTo call.node calls) above below ∧
      state.leave call.node calls = (state.returnTo call.node calls).complete call.node) ∨
    (state.returnTo call.node calls).low call.node <
      (state.returnTo call.node calls).number call.node ∧
      state.leave call.node calls = state.returnTo call.node calls := by
  have ⟨stacked, linked, condensed, _⟩ := invariant.returnTo
  have onStack := stacked.calls_sublist.subset List.mem_cons_self
  rw [Lowlinks.leave]
  by_cases isLow : (state.returnTo call.node calls).low call.node =
      (state.returnTo call.node calls).number call.node
  · obtain ⟨above, below, split, isAbove, isBelow⟩ := stacked.exists_split onStack
    exact .inl ⟨above, below,
      ⟨stacked, linked, condensed, isDone, isLow, split, isAbove, isBelow⟩, if_pos isLow⟩
  · exact .inr ⟨Nat.lt_of_le_of_ne (linked.low_le call.node onStack) isLow, if_neg isLow⟩

/-- A visit may end when its edges have been followed. -/
theorem leave {call : Call}
    (invariant : Invariant successors ⟨roots, call :: calls, state⟩)
    (isDone : call.rest successors = []) :
    Invariant successors ⟨roots, calls, state.leave call.node calls⟩ := by
  have ⟨stacked, linked, condensed, visited_or_root⟩ := invariant.returnTo
  have passedOn := invariant.low_returnTo_le
  obtain ⟨above, below, completing, isComplete⟩ | ⟨isLower, isReturned⟩ :=
    invariant.leave_cases isDone
  · have complete_eq := Lowlinks.complete_eq completing.split completing.notAbove
    rw [isComplete]
    refine ⟨stacked.complete completing.split completing.notAbove, ?_,
      completing.condensed_complete, ?_⟩
    · refine linked.leave stacked ?_ ?_ isDone passedOn ?_ ?_ ?_ <;> rw [complete_eq]
      · exact fun node inBelow => completing.mem_stack.2 (.inr inBelow)
      · intro node inBelow older isOlder notNewer
        refine (completing.mem_stack.1 isOlder).resolve_left fun inside => ?_
        have newer := Nat.le_trans (completing.number_le inside) notNewer
        exact absurd (completing.isBelow node inBelow) (Nat.not_lt_of_le newer)
      · exact fun inBelow => absurd (completing.isBelow _ inBelow) (Nat.lt_irrefl _)
    · rw [complete_eq]
      exact visited_or_root
  · rw [isReturned]
    refine ⟨stacked.tail, ?_, condensed, visited_or_root⟩
    exact linked.leave stacked rfl rfl isDone passedOn (fun _ => id)
      (fun _ _ _ isOlder _ => isOlder) fun _ => isLower

/-- Every step preserves the invariant. -/
theorem step {search next : LowlinkSearch} (invariant : Invariant successors search)
    (taken : search.step successors = some next) : Invariant successors next := by
  cases turn_of_step taken with
  | skip isVisited => exact invariant.skipRoot isVisited
  | visit isUnvisited =>
      have entered := invariant.enter isUnvisited fun last isLast => by cases isLast
      exact entered.skipRoot (by simp)
  | @descend _ node nextEdge target _ state atCursor isUnvisited =>
      have edge : successors.Edge node target := List.mem_of_getElem? atCursor
      have onStack := invariant.stacked.calls_sublist.subset List.mem_cons_self
      have entered := invariant.enter isUnvisited (by rintro last ⟨rfl⟩; exact edge)
      -- The node that is entered is newer than the one that the edge comes from.
      have noted : (state.enter target).low node ≤ (state.enter target).number target := by
        rw [(invariant.stacked.enter_of_mem isUnvisited onStack).2,
          (invariant.stacked.enter_self isUnvisited).1]
        exact Nat.le_trans (invariant.linked.low_le node onStack)
          (Nat.le_of_lt (invariant.stacked.number_lt node onStack))
      exact follow [⟨target, 0⟩] entered atCursor (by simp) fun _ => noted
  | lower atCursor isVisited isOnStack =>
      have lowered := invariant.lower ((invariant.stacked.isOnStack_iff _).1 isOnStack)
        (.single (List.mem_of_getElem? atCursor))
      refine follow [] lowered atCursor isVisited fun _ => ?_
      rw [Lowlinks.low_lower, if_pos rfl]
      exact Nat.min_le_right _ _
  | @pass _ _ _ target _ _ atCursor isVisited notOnStack =>
      refine follow [] invariant atCursor isVisited fun onStack => ?_
      have isOnStack := (invariant.stacked.isOnStack_iff target).2 onStack
      exact absurd (notOnStack.symm.trans isOnStack) Bool.false_ne_true
  | leave atCursor => exact invariant.leave (Call.rest_eq_nil atCursor)

/-- Without calls nothing is on the stack, since the lowlink of a waiting node is the number
of an older one. -/
theorem stack_eq_nil (invariant : Invariant successors ⟨roots, [], state⟩) :
    state.stack = [] := by
  have notOnStack (number : Nat) : ∀ node ∈ state.stack, state.number node ≠ number := by
    induction number using Nat.strongRecOn with
    | ind number inductionHypothesis =>
        rintro node member rfl
        obtain ⟨oldest, onStack, isLow, _⟩ := invariant.linked.exists_low node member
        have lower := invariant.linked.low_lt node member List.not_mem_nil
        rw [← isLow] at lower
        exact inductionHypothesis _ lower oldest onStack rfl
  exact List.eq_nil_iff_forall_not_mem.2 fun node member => notOnStack _ node member rfl

/-- A search without roots and calls has completed the components of all nodes. -/
theorem done (invariant : Invariant successors ⟨[], [], state⟩)
    (isNode : node < successors.size) : state.Done successors.size node := by
  refine ⟨isNode, (invariant.visited_or_root node isNode).resolve_right List.not_mem_nil, ?_⟩
  rw [invariant.stack_eq_nil]
  exact List.not_mem_nil

/-- The invariant holds when a search halts. -/
theorem run {search : LowlinkSearch} (invariant : Invariant successors search) :
    Invariant successors ⟨[], [], search.run successors⟩ := by
  induction search using LowlinkSearch.run.induct successors with
  | case1 search halted =>
      rw [LowlinkSearch.run, halted, ← eq_of_step_eq_none halted]
      exact invariant
  | case2 search next taken inductionHypothesis =>
      rw [LowlinkSearch.run, taken]
      exact inductionHypothesis (invariant.step taken)

end LowlinkSearch.Invariant

/-- Visited nodes have no pending tasks. -/
theorem pendingTasks_eq_zero {edges : List (List Nat)} {flags : List Bool}
    (visited : ∀ flag ∈ flags, flag = true) : Search.pendingTasks edges flags = 0 := by
  induction edges generalizing flags with
  | nil => simpa [Search.pendingTasks] using visited
  | cons targets edges inductionHypothesis =>
      cases flags with
      | nil => rfl
      | cons flag flags =>
          obtain ⟨isVisited, others⟩ := List.forall_mem_cons.1 visited
          rw [Search.pendingTasks, if_pos isVisited, inductionHypothesis others]

/-- At first every node has one pending task and another for each of its edges. -/
theorem pendingTasks_replicate (edges : List (List Nat)) :
    Search.pendingTasks edges (List.replicate edges.length false) =
      edges.length + edges.flatten.length := by
  induction edges with
  | nil => rfl
  | cons targets edges inductionHypothesis =>
      rw [List.length_cons, List.replicate_succ, Search.pendingTasks, inductionHypothesis,
        List.flatten_cons, List.length_append, if_neg Bool.false_ne_true]
      omega

namespace LowlinkSearch

variable {successors : Successors}

/-- What a search has become after a number of steps, if it takes so many. -/
def afterSteps (successors : Successors) : Nat → LowlinkSearch → Option LowlinkSearch
  | 0, search => some search
  | steps + 1, search => (search.step successors).bind (afterSteps successors steps)

/-- A search takes two steps for each node and one for each edge. -/
theorem remaining_start (successors : Successors) :
    (LowlinkSearch.start successors.size).remaining successors =
      2 * successors.size + successors.toList.flatten.length := by
  have flags : (Lowlinks.start successors.size).index.toList.map Option.isSome =
      List.replicate successors.toList.length false := by
    simp [Lowlinks.start]
  simp only [remaining, LowlinkSearch.start, flags, pendingTasks_replicate]
  simp
  omega

/-- A search halts after as many steps as remain. -/
theorem afterSteps_remaining {search : LowlinkSearch}
    (invariant : Invariant successors search) :
    afterSteps successors (search.remaining successors) search =
      some ⟨[], [], search.run successors⟩ := by
  induction search using LowlinkSearch.run.induct successors with
  | case1 search halted =>
      have isFinal := eq_of_step_eq_none halted
      rw [isFinal] at invariant
      have none_pending : Search.pendingTasks successors.toList
          (search.state.index.toList.map Option.isSome) = 0 := by
        refine pendingTasks_eq_zero fun flag member => ?_
        obtain ⟨index, isIndex, rfl⟩ := List.mem_map.1 member
        obtain ⟨node, inBounds, rfl⟩ := List.mem_iff_getElem.1 isIndex
        rw [Array.length_toList] at inBounds
        have isNode := inBounds
        rw [invariant.stacked.sized.index] at isNode
        have isVisited := (invariant.done isNode).isVisited
        simpa [Lowlinks.isVisited, Array.getD_eq_getD_getElem?, Array.getElem?_eq_getElem inBounds]
          using isVisited
      have isZero : search.remaining successors = 0 := by
        rw [isFinal]
        simpa [remaining] using none_pending
      rw [isZero, LowlinkSearch.run, halted, ← isFinal]
      rfl
  | case2 search next taken inductionHypothesis =>
      rw [LowlinkSearch.run, taken, ← remaining_step taken, afterSteps, taken]
      exact inductionHypothesis (invariant.step taken)

end LowlinkSearch

end Datalog
