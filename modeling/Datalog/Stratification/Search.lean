/-!
# Depth-first search and strongly connected components

Graphs here have the nodes `0, 1, …` and list the targets of the edges of each node in
order. `search` visits nodes depth first with an explicit list of tasks, so deep graphs need
no deep recursion, and lists the nodes in the order in which their visits end, the latest
first. `components` searches the graph, and then the reversed graph from the nodes in that
order: each search from a node not yet reached collects one component, and an edge between
two components leads from an earlier to a later one.
-/

namespace Datalog

/-- The targets of the edges of each node. -/
abbrev Successors := Array (List Nat)

/-- The targets of the edges of a node; a number that is no node has none. -/
def Successors.of (successors : Successors) (node : Nat) : List Nat :=
  successors.getD node []

/-- A step of a search: begin the visit of a node, or end it. -/
inductive Task where
  | enter (node : Nat)
  | leave (node : Nat)
  deriving DecidableEq

/-- Which nodes a search has begun to visit, and those whose visits have ended, the latest
first. -/
structure Search where
  visited : Array Bool
  finished : List Nat

namespace Search

/-- The search of a graph of the given size before its first step. -/
def start (size : Nat) : Search :=
  ⟨Array.replicate size false, []⟩

/-- Whether a node needs no visit any more; numbers that are no nodes never do. -/
def isVisited (search : Search) (node : Nat) : Bool :=
  search.visited.getD node true

/-- The search with the visit of a node begun. -/
def mark (search : Search) (node : Nat) : Search :=
  { search with visited := search.visited.setIfInBounds node true }

/-- The search with the visit of a node ended. -/
def finish (search : Search) (node : Nat) : Search :=
  { search with finished := node :: search.finished }

/-- The tasks that the nodes not yet visited can still add, given the edges of each. -/
def pendingTasks : List (List Nat) → List Bool → Nat
  | targets :: edges, visited :: flags =>
      (if visited then 0 else targets.length + 1) + pendingTasks edges flags
  | _, flags => flags.countP (!·)

/-- Visiting a node takes its tasks off the pending ones. -/
theorem pendingTasks_set {edges : List (List Nat)} {flags : List Bool} {node : Nat}
    (unvisited : flags[node]? = some false) :
    pendingTasks edges (flags.set node true) + (edges.getD node []).length + 1 =
      pendingTasks edges flags := by
  induction edges generalizing flags node with
  | nil =>
      obtain ⟨inBounds, isFalse⟩ := List.getElem?_eq_some_iff.1 unvisited
      have counted : 0 < flags.countP (!·) :=
        List.countP_pos_iff.2 ⟨_, List.getElem_mem inBounds, by simp [isFalse]⟩
      have count := List.countP_set (p := (!·)) (a := true) inBounds
      simp only [isFalse] at count
      simp only [pendingTasks, List.getD_nil, List.length_nil]
      simp at count
      omega
  | cons targets edges inductionHypothesis =>
      cases flags with
      | nil => simp at unvisited
      | cons flag flags =>
          cases node with
          | zero =>
              simp only [List.getElem?_cons_zero, Option.some.injEq] at unvisited
              simp [unvisited, pendingTasks]
              omega
          | succ node =>
              have rest := inductionHypothesis (by simpa using unvisited)
              simp only [List.set_cons_succ, pendingTasks, List.getD_cons_succ]
              omega

end Search

/-- Carry out the tasks in order, entering the successors of a node between entering and
leaving it. Nodes that were entered before are passed over. -/
def search (successors : Successors) : List Task → Search → Search
  | [], state => state
  | .leave node :: tasks, state => search successors tasks (state.finish node)
  | .enter node :: tasks, state =>
      if state.isVisited node then search successors tasks state
      else
        search successors ((successors.of node).map .enter ++ .leave node :: tasks)
          (state.mark node)
termination_by tasks state =>
  tasks.length + Search.pendingTasks successors.toList state.visited.toList
decreasing_by
  · simp [Search.finish]
  · simp
  · next unvisited =>
      have flag : state.visited.toList[node]? = some false := by
        simp only [Search.isVisited, Array.getD_eq_getD_getElem?, Bool.not_eq_true] at unvisited
        rw [Array.getElem?_toList]
        cases found : state.visited[node]? with
        | none => simp [found] at unvisited
        | some visited => simpa [found] using unvisited
      have pending := @Search.pendingTasks_set successors.toList _ _ flag
      have targets : successors.of node = successors.toList.getD node [] := by
        simp [Successors.of, Array.getD_eq_getD_getElem?, List.getD_eq_getElem?_getD]
      simp only [Search.mark, Array.toList_setIfInBounds, List.length_append, List.length_map,
        List.length_cons, targets]
      omega

/-- All nodes in the order in which a search from `0, 1, …` leaves them, the last one first. -/
def finishOrder (successors : Successors) : List Nat :=
  (search successors ((List.range successors.size).map .enter) (.start successors.size)).finished

/-- Collect what is reached from each root in turn and was not reached from an earlier one. -/
def collectReached (successors : Successors) : List Nat → Array Bool → List (List Nat)
  | [], _ => []
  | root :: roots, visited =>
      let reached := search successors [.enter root] ⟨visited, []⟩
      if reached.finished.isEmpty then collectReached successors roots reached.visited
      else reached.finished :: collectReached successors roots reached.visited

/-- Distribute items over places by their numbers, keeping their order in each place. -/
def distribute {α : Type} (places : Nat) (items : List (Nat × α)) : Array (List α) :=
  items.foldr (fun item rest => rest.modify item.1 (item.2 :: ·)) (Array.replicate places [])

/-- The graph with every edge turned around. -/
def Successors.reverse (successors : Successors) : Successors :=
  distribute successors.size <|
    successors.toList.zipIdx.flatMap fun entry => entry.1.map fun target => (target, entry.2)

/-- The strongly connected components, those that others can be reached from first. -/
def components (successors : Successors) : List (List Nat) :=
  collectReached successors.reverse (finishOrder successors)
    (Array.replicate successors.size false)

/-- The number of the component of each node, by the order of the components. -/
def componentNumbers (size : Nat) (components : List (List Nat)) : Array Nat :=
  components.zipIdx.foldl
    (fun numbers component =>
      component.1.foldl (fun numbers node => numbers.setIfInBounds node component.2) numbers)
    (Array.replicate size 0)

end Datalog
