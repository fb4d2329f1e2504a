import Datalog.Stratification.Search

/-!
# Strongly connected components in one search

Tarjan's algorithm finds the components of a graph in a single depth-first search. Nodes are
numbered as their visits begin, and stay on a stack until their component is complete. The
lowlink of a node is the least number on the stack that its visit has come across. A visit
that ends while this is the number of its own node completes a component: the nodes on the
stack from there on. Visits that have begun and not ended are kept in a list of calls, so deep
graphs need no deep recursion, and each call has a cursor on the edges of its node.

A component is complete only after every component that it leads to, so edges between
components lead from higher to lower numbers. The components are those that `components` lists,
the last one first.
-/

namespace Datalog

/-- The nodes as a search knows them, and the components that are complete. -/
structure Lowlinks where
  index : Array (Option Nat)
  lowlink : Array Nat
  onStack : Array Bool
  stack : List Nat
  component : Array Nat
  count : Nat
  nextIndex : Nat

namespace Lowlinks

/-- The nodes of a graph of the given size before any visit. -/
def start (size : Nat) : Lowlinks where
  index := Array.replicate size none
  lowlink := Array.replicate size 0
  onStack := Array.replicate size false
  stack := []
  component := Array.replicate size 0
  count := 0
  nextIndex := 0

/-- Whether a node needs no visit any more; numbers that are no nodes never do. -/
def isVisited (state : Lowlinks) (node : Nat) : Bool :=
  (state.index.getD node (some 0)).isSome

/-- The number that a node got when its visit began. -/
def number (state : Lowlinks) (node : Nat) : Nat :=
  (state.index.getD node none).getD 0

/-- The lowlink of a node. -/
def low (state : Lowlinks) (node : Nat) : Nat :=
  state.lowlink.getD node 0

/-- Whether a node is marked as one on the stack. -/
def isOnStack (state : Lowlinks) (node : Nat) : Bool :=
  state.onStack.getD node false

/-- The number of the component of a node. -/
def componentOf (state : Lowlinks) (node : Nat) : Nat :=
  state.component.getD node 0

/-- Begin the visit of a node. -/
def enter (state : Lowlinks) (node : Nat) : Lowlinks :=
  { state with
    index := state.index.setIfInBounds node (some state.nextIndex)
    lowlink := state.lowlink.setIfInBounds node state.nextIndex
    onStack := state.onStack.setIfInBounds node true
    stack := node :: state.stack
    nextIndex := state.nextIndex + 1 }

/-- Lower the lowlink of a node to a bound. -/
def lower (state : Lowlinks) (node bound : Nat) : Lowlinks :=
  { state with lowlink := state.lowlink.modify node (min · bound) }

/-- Take nodes off the stack, up to and including the given one, into the next component. -/
def popThrough (state : Lowlinks) (node : Nat) : List Nat → Lowlinks
  | [] => { state with stack := [] }
  | top :: rest =>
      let popped := { state with
        onStack := state.onStack.setIfInBounds top false
        stack := rest
        component := state.component.setIfInBounds top state.count }
      if top = node then popped else popped.popThrough node rest

/-- Complete the component that a node was the first to be visited of. -/
def complete (state : Lowlinks) (node : Nat) : Lowlinks :=
  let popped := state.popThrough node state.stack
  { popped with count := popped.count + 1 }

end Lowlinks

/-- A visit that has begun, and how many edges of its node it has followed. -/
structure Call where
  node : Nat
  nextEdge : Nat

/-- The targets of the edges that a call has still to follow. -/
def Call.rest (successors : Successors) (call : Call) : List Nat :=
  (successors.of call.node).drop call.nextEdge

/-- The edge at the cursor of a call is the first that it has still to follow. -/
theorem Call.rest_eq_cons {successors : Successors} {node nextEdge target : Nat}
    (atCursor : (successors.of node)[nextEdge]? = some target) :
    Call.rest successors ⟨node, nextEdge⟩ =
      target :: Call.rest successors ⟨node, nextEdge + 1⟩ := by
  obtain ⟨inBounds, isTarget⟩ := List.getElem?_eq_some_iff.1 atCursor
  rw [Call.rest, List.drop_eq_getElem_cons inBounds, isTarget]
  rfl

/-- A call whose cursor is behind the edges has none to follow. -/
theorem Call.rest_eq_nil {successors : Successors} {node nextEdge : Nat}
    (atCursor : (successors.of node)[nextEdge]? = none) :
    Call.rest successors ⟨node, nextEdge⟩ = [] :=
  List.drop_eq_nil_of_le (List.getElem?_eq_none_iff.1 atCursor)

/-- Pass the lowlink of a node to the visit which its own one returns to. -/
def Lowlinks.returnTo (state : Lowlinks) (node : Nat) : List Call → Lowlinks
  | [] => state
  | parent :: _ => state.lower parent.node (state.low node)

/-- End the visit of a node. -/
def Lowlinks.leave (state : Lowlinks) (node : Nat) (calls : List Call) : Lowlinks :=
  let returned := state.returnTo node calls
  if returned.low node = returned.number node then returned.complete node else returned

/-- A search on its way: where visits are still to begin, the visits that have begun and not
ended, and what it knows of the nodes. -/
structure LowlinkSearch where
  roots : List Nat
  calls : List Call
  state : Lowlinks

namespace LowlinkSearch

/-- The search of a graph before its first step. -/
def start (size : Nat) : LowlinkSearch :=
  ⟨List.range size, [], .start size⟩

/-- One step of a search: turn to the next root, follow an edge or end a visit. -/
def step (successors : Successors) : LowlinkSearch → Option LowlinkSearch
  | ⟨[], [], _⟩ => none
  | ⟨root :: roots, [], state⟩ =>
      if state.isVisited root then some ⟨roots, [], state⟩
      else some ⟨roots, [⟨root, 0⟩], state.enter root⟩
  | ⟨roots, ⟨node, nextEdge⟩ :: calls, state⟩ =>
      match (successors.of node)[nextEdge]? with
      | none => some ⟨roots, calls, state.leave node calls⟩
      | some target =>
          let calls := ⟨node, nextEdge + 1⟩ :: calls
          if !state.isVisited target then
            some ⟨roots, ⟨target, 0⟩ :: calls, state.enter target⟩
          else if state.isOnStack target then
            some ⟨roots, calls, state.lower node (state.number target)⟩
          else some ⟨roots, calls, state⟩

/-- What a step can be. -/
inductive Turn (successors : Successors) : LowlinkSearch → LowlinkSearch → Prop where
  | skip {root roots state} (isVisited : state.isVisited root = true) :
      Turn successors ⟨root :: roots, [], state⟩ ⟨roots, [], state⟩
  | visit {root roots state} (isUnvisited : state.isVisited root = false) :
      Turn successors ⟨root :: roots, [], state⟩ ⟨roots, [⟨root, 0⟩], state.enter root⟩
  | descend {roots node nextEdge target calls state}
      (atCursor : (successors.of node)[nextEdge]? = some target)
      (isUnvisited : state.isVisited target = false) :
      Turn successors ⟨roots, ⟨node, nextEdge⟩ :: calls, state⟩
        ⟨roots, ⟨target, 0⟩ :: ⟨node, nextEdge + 1⟩ :: calls, state.enter target⟩
  | lower {roots node nextEdge target calls state}
      (atCursor : (successors.of node)[nextEdge]? = some target)
      (isVisited : state.isVisited target = true) (isOnStack : state.isOnStack target = true) :
      Turn successors ⟨roots, ⟨node, nextEdge⟩ :: calls, state⟩
        ⟨roots, ⟨node, nextEdge + 1⟩ :: calls, state.lower node (state.number target)⟩
  | pass {roots node nextEdge target calls state}
      (atCursor : (successors.of node)[nextEdge]? = some target)
      (isVisited : state.isVisited target = true) (notOnStack : state.isOnStack target = false) :
      Turn successors ⟨roots, ⟨node, nextEdge⟩ :: calls, state⟩
        ⟨roots, ⟨node, nextEdge + 1⟩ :: calls, state⟩
  | leave {roots node nextEdge calls state}
      (atCursor : (successors.of node)[nextEdge]? = none) :
      Turn successors ⟨roots, ⟨node, nextEdge⟩ :: calls, state⟩
        ⟨roots, calls, state.leave node calls⟩

/-- A step is one of the turns. -/
theorem turn_of_step {successors : Successors} {search next : LowlinkSearch}
    (taken : search.step successors = some next) : Turn successors search next := by
  obtain ⟨roots, calls, state⟩ := search
  cases calls with
  | nil =>
      cases roots with
      | nil => cases taken
      | cons root roots =>
          simp only [step] at taken
          split at taken <;> cases taken
          next isVisited => exact .skip isVisited
          next isUnvisited => exact .visit (Bool.eq_false_iff.2 isUnvisited)
  | cons call calls =>
      simp only [step] at taken
      split at taken
      next atCursor =>
        cases taken
        exact .leave atCursor
      next target atCursor =>
        split at taken
        next isUnvisited =>
          cases taken
          exact .descend atCursor (Bool.not_eq_true' _ ▸ isUnvisited)
        next isVisited =>
          rw [Bool.not_eq_true', Bool.not_eq_false] at isVisited
          split at taken <;> cases taken
          next isOnStack => exact .lower atCursor isVisited isOnStack
          next notOnStack => exact .pass atCursor isVisited (Bool.eq_false_iff.2 notOnStack)

/-- A search halts only when it has neither roots nor calls left. -/
theorem eq_of_step_eq_none {successors : Successors} {search : LowlinkSearch}
    (halted : search.step successors = none) : search = ⟨[], [], search.state⟩ := by
  obtain ⟨roots, calls, state⟩ := search
  cases calls with
  | nil =>
      cases roots with
      | nil => rfl
      | cons root roots =>
          rw [step] at halted
          split at halted <;> cases halted
  | cons call calls =>
      rw [step] at halted
      split at halted
      next => cases halted
      next =>
        split at halted
        next => cases halted
        next => split at halted <;> cases halted

/-- How many steps a search can still take. -/
def remaining (successors : Successors) (search : LowlinkSearch) : Nat :=
  search.roots.length + search.calls.length + (search.calls.flatMap (Call.rest successors)).length +
    Search.pendingTasks successors.toList (search.state.index.toList.map Option.isSome)

/-- Beginning a visit turns its pending steps into those of a call. -/
theorem pendingTasks_enter (successors : Successors) {state : Lowlinks} {node : Nat}
    (isUnvisited : state.isVisited node = false) :
    Search.pendingTasks successors.toList ((state.enter node).index.toList.map Option.isSome) +
        ((Call.rest successors ⟨node, 0⟩).length + 1) =
      Search.pendingTasks successors.toList (state.index.toList.map Option.isSome) := by
  have flag : (state.index.toList.map Option.isSome)[node]? = some false := by
    rw [List.getElem?_map, Array.getElem?_toList]
    cases found : state.index[node]? with
    | none => simp [Lowlinks.isVisited, Array.getD_eq_getD_getElem?, found] at isUnvisited
    | some index =>
        simpa [Lowlinks.isVisited, Array.getD_eq_getD_getElem?, found] using isUnvisited
  have targets : successors.of node = successors.toList.getD node [] := by
    simp [Successors.of, Array.getD_eq_getD_getElem?, List.getD_eq_getElem?_getD]
  have marked : (state.enter node).index.toList.map Option.isSome =
      (state.index.toList.map Option.isSome).set node true := by
    rw [Lowlinks.enter, Array.toList_setIfInBounds, List.map_set, Option.isSome_some]
  have pending := @Search.pendingTasks_set successors.toList _ _ flag
  rw [marked, Call.rest, List.drop_zero, targets, ← Nat.add_assoc]
  exact pending

/-- The end of a visit leaves the nodes their numbers. -/
theorem index_leave (state : Lowlinks) (node : Nat) (calls : List Call) :
    (state.leave node calls).index = state.index := by
  have index_popThrough (state : Lowlinks) (stack : List Nat) :
      (state.popThrough node stack).index = state.index := by
    induction stack generalizing state with
    | nil => rfl
    | cons top rest inductionHypothesis =>
        rw [Lowlinks.popThrough]
        split
        next => rfl
        next => rw [inductionHypothesis]
  have index_returnTo : (state.returnTo node calls).index = state.index := by
    cases calls <;> rfl
  simp only [Lowlinks.leave]
  split
  next => rw [Lowlinks.complete, index_popThrough, index_returnTo]
  next => exact index_returnTo

/-- Every step leaves one fewer to take. -/
theorem remaining_step {successors : Successors} {search next : LowlinkSearch}
    (taken : search.step successors = some next) :
    next.remaining successors + 1 = search.remaining successors := by
  cases turn_of_step taken with
  | skip =>
      simp only [remaining, List.length_cons]
      omega
  | visit isUnvisited =>
      have pending := pendingTasks_enter successors isUnvisited
      simp only [remaining, List.length_cons, List.flatMap_cons, List.flatMap_nil,
        List.length_append, List.length_nil]
      omega
  | descend atCursor isUnvisited =>
      have pending := pendingTasks_enter successors isUnvisited
      simp only [remaining, List.length_cons, List.flatMap_cons, List.length_append,
        Call.rest_eq_cons atCursor]
      omega
  | lower atCursor | pass atCursor =>
      simp only [remaining, Lowlinks.lower, List.length_cons, List.flatMap_cons,
        List.length_append, Call.rest_eq_cons atCursor]
      omega
  | leave atCursor =>
      simp only [remaining, index_leave, List.length_cons, List.flatMap_cons,
        Call.rest_eq_nil atCursor, List.nil_append]
      omega

/-- Take steps until none is left. -/
def run (successors : Successors) (search : LowlinkSearch) : Lowlinks :=
  match _taken : search.step successors with
  | none => search.state
  | some next => next.run successors
termination_by search.remaining successors
decreasing_by
  rw [← remaining_step _taken]
  exact Nat.lt_succ_self _

end LowlinkSearch

/-- The number of the component of each node, and how many components there are. -/
def lowlinkComponents (successors : Successors) : Array Nat × Nat :=
  let final := (LowlinkSearch.start successors.size).run successors
  (final.component, final.count)

end Datalog
