import Datalog.Stratification.LowlinkSearch
import Datalog.Proofs.Stratification.Components

/-!
# What numbers and lowlinks say

A search with lowlinks makes a few elementary changes: it begins a visit, follows an edge,
lowers a lowlink and ends a visit, perhaps with a component. Two invariants are kept by each
of them. `Stacked` says that the marks are those of the stack, on which the nodes lie in the
order of their numbers, and that the calls are for some of these nodes. `Linked` says what is
known of paths: a call reaches everything that is newer on the stack, a lowlink is the number
of a node that is reached, and an edge that has been followed to an older node shows in the
lowlink of a call.
-/

namespace Datalog

/-- A table with one entry replaced. -/
theorem getD_setIfInBounds {α : Type} {table : Array α} {place other : Nat} {entry default : α}
    (inBounds : place < table.size) :
    (table.setIfInBounds place entry).getD other default =
      if other = place then entry else table.getD other default := by
  rw [Array.getD_eq_getD_getElem?, Array.getD_eq_getD_getElem?, Array.getElem?_setIfInBounds]
  by_cases same : place = other
  · simp [same, same ▸ inBounds]
  · simp [same, Ne.symm same]

/-- What follows a node in a part of a list is a part of what follows the node there. -/
theorem sublist_of_cons_sublist {above below rest : List Nat} {node : Nat}
    (notAbove : node ∉ above) (sublist : (node :: rest).Sublist (above ++ node :: below)) :
    rest.Sublist below := by
  induction above with
  | nil => exact List.cons_sublist_cons.1 sublist
  | cons top above inductionHypothesis =>
      rw [List.mem_cons, not_or] at notAbove
      cases sublist with
      | cons _ sublist => exact inductionHypothesis notAbove.2 sublist
      | cons_cons _ sublist => exact absurd rfl notAbove.1

namespace Lowlinks

variable {state : Lowlinks} {node other bound size : Nat} {above below : List Nat}

/-- Every table has a place for each node. -/
structure Sized (state : Lowlinks) (size : Nat) : Prop where
  index : state.index.size = size
  lowlink : state.lowlink.size = size
  onStack : state.onStack.size = size
  component : state.component.size = size

/-- What is not visited is a node. -/
theorem Sized.isNode (sized : state.Sized size) (isUnvisited : state.isVisited node = false) :
    node < size := by
  rw [← sized.index]
  by_contra outside
  simp [isVisited, Array.getD_eq_getD_getElem?, outside] at isUnvisited

theorem sized_start (size : Nat) : (start size).Sized size := by
  constructor <;> simp [start]

theorem isVisited_start (isNode : node < size) : (start size).isVisited node = false := by
  simp [isVisited, start, Array.getD_eq_getD_getElem?, isNode]

theorem isOnStack_start : (start size).isOnStack node = false := by
  by_cases isNode : node < size <;>
    simp [isOnStack, start, Array.getD_eq_getD_getElem?, isNode]

theorem Sized.enter (sized : state.Sized size) : (state.enter node).Sized size := by
  constructor <;> simp [Lowlinks.enter, sized.index, sized.lowlink, sized.onStack, sized.component]

@[simp] theorem isVisited_enter :
    (state.enter node).isVisited other = (decide (other = node) || state.isVisited other) := by
  simp only [isVisited, enter, Array.getD_eq_getD_getElem?, Array.getElem?_setIfInBounds]
  by_cases same : node = other
  · subst same
    by_cases inBounds : node < state.index.size <;> simp [inBounds]
  · simp [same, Ne.symm same]

theorem number_enter (sized : state.Sized size) (isNode : node < size) :
    (state.enter node).number other =
      if other = node then state.nextIndex else state.number other := by
  rw [number, enter, getD_setIfInBounds (by rwa [sized.index])]
  split <;> rfl

theorem low_enter (sized : state.Sized size) (isNode : node < size) :
    (state.enter node).low other =
      if other = node then state.nextIndex else state.low other :=
  getD_setIfInBounds (by rwa [sized.lowlink])

theorem isOnStack_enter (sized : state.Sized size) (isNode : node < size) :
    (state.enter node).isOnStack other = if other = node then true else state.isOnStack other :=
  getD_setIfInBounds (by rwa [sized.onStack])

theorem Sized.lower (sized : state.Sized size) : (state.lower node bound).Sized size := by
  constructor <;> simp [Lowlinks.lower, sized.index, sized.lowlink, sized.onStack, sized.component]

@[simp] theorem low_lower :
    (state.lower node bound).low other =
      if other = node then min (state.low other) bound else state.low other := by
  simp only [low, lower, Array.getD_eq_getD_getElem?, Array.getElem?_modify]
  by_cases same : node = other
  · subst same
    cases state.lowlink[node]? <;> simp
  · simp [same, Ne.symm same]

/-- Everything on the stack down to a node is popped through it, and the rest is below. -/
theorem mem_stack_iff (split : state.stack = above ++ node :: below) :
    other ∈ state.stack ↔ other ∈ above ++ [node] ∨ other ∈ below := by
  rw [split, List.append_cons above node below, List.mem_append]

/-- Nodes that are popped lose their marks and get the next number of a component. -/
theorem popThrough_eq (notAbove : node ∉ above) :
    state.popThrough node (above ++ node :: below) =
      { state with
        onStack := (above ++ [node]).foldl (fun marks top => marks.setIfInBounds top false)
          state.onStack
        stack := below
        component := (above ++ [node]).foldl
          (fun numbers top => numbers.setIfInBounds top state.count) state.component } := by
  induction above generalizing state with
  | nil => simp [popThrough]
  | cons top above inductionHypothesis =>
      rw [List.mem_cons, not_or] at notAbove
      obtain ⟨isOther, notAbove⟩ := notAbove
      rw [List.cons_append, popThrough, if_neg (Ne.symm isOther), inductionHypothesis notAbove]
      rfl

/-- A component that is complete is popped and counted. -/
theorem complete_eq (split : state.stack = above ++ node :: below) (notAbove : node ∉ above) :
    state.complete node =
      { state with
        onStack := (above ++ [node]).foldl (fun marks top => marks.setIfInBounds top false)
          state.onStack
        stack := below
        component := (above ++ [node]).foldl
          (fun numbers top => numbers.setIfInBounds top state.count) state.component
        count := state.count + 1 } := by
  rw [complete, split, popThrough_eq notAbove]

theorem Sized.complete (sized : state.Sized size) (split : state.stack = above ++ node :: below)
    (notAbove : node ∉ above) : (state.complete node).Sized size := by
  have size_foldl {α : Type} (nodes : List Nat) (entry : α) (table : Array α) :
      (nodes.foldl (fun table node => table.setIfInBounds node entry) table).size =
        table.size := by
    induction nodes generalizing table with
    | nil => rfl
    | cons first rest inductionHypothesis =>
        rw [List.foldl_cons, inductionHypothesis, Array.size_setIfInBounds]
  rw [complete_eq split notAbove]
  exact ⟨sized.index, sized.lowlink, (size_foldl _ _ _).trans sized.onStack,
    (size_foldl _ _ _).trans sized.component⟩

theorem isOnStack_complete (split : state.stack = above ++ node :: below)
    (notAbove : node ∉ above) :
    (state.complete node).isOnStack other = true ↔
      other ∉ above ++ [node] ∧ state.isOnStack other = true := by
  rw [complete_eq split notAbove]
  simp only [isOnStack, Array.getD_eq_getD_getElem?]
  rw [getElem?_numberComponent]
  by_cases popped : other ∈ above ++ [node]
  · cases state.onStack[other]? <;> simp [popped]
  · simp [popped]

theorem componentOf_complete (sized : state.Sized size)
    (split : state.stack = above ++ node :: below) (notAbove : node ∉ above)
    (isNode : other < size) :
    (state.complete node).componentOf other =
      if other ∈ above ++ [node] then state.count else state.componentOf other := by
  rw [← sized.component] at isNode
  rw [complete_eq split notAbove]
  simp only [componentOf, Array.getD_eq_getD_getElem?]
  rw [getElem?_numberComponent]
  by_cases popped : other ∈ above ++ [node] <;> simp [popped, isNode]

end Lowlinks

/-- How the marks, the stack and the calls of a search belong together. -/
structure Stacked (successors : Successors) (calls : List Call) (state : Lowlinks) : Prop where
  sized : state.Sized successors.size
  isOnStack_iff : ∀ node, state.isOnStack node = true ↔ node ∈ state.stack
  isNode : ∀ node ∈ state.stack, node < successors.size
  isVisited : ∀ node ∈ state.stack, state.isVisited node = true
  number_lt : ∀ node ∈ state.stack, state.number node < state.nextIndex
  /-- The newest node is on top. -/
  descending : state.stack.Pairwise fun later earlier => state.number earlier < state.number later
  calls_sublist : (calls.map Call.node).Sublist state.stack

namespace Stacked

variable {successors : Successors} {call : Call} {calls : List Call} {state : Lowlinks}
  {node other bound : Nat} {above below : List Nat}

theorem start (successors : Successors) :
    Stacked successors [] (.start successors.size) where
  sized := Lowlinks.sized_start _
  isOnStack_iff node := by
    rw [Lowlinks.isOnStack_start]
    exact iff_of_false Bool.false_ne_true List.not_mem_nil
  isNode node member := by cases member
  isVisited node member := by cases member
  number_lt node member := by cases member
  descending := .nil
  calls_sublist := List.nil_sublist _

/-- No node is on the stack twice. -/
theorem nodup (stacked : Stacked successors calls state) : state.stack.Nodup :=
  stacked.descending.imp fun less same => by simp [same] at less

/-- The last call is the one for the newest node. -/
theorem number_lt_last (stacked : Stacked successors (call :: calls) state)
    (member : node ∈ calls.map Call.node) : state.number node < state.number call.node := by
  have descending := stacked.descending.sublist stacked.calls_sublist
  exact (List.pairwise_cons.1 descending).1 _ member

/-- No call is for a newer node than the last one. -/
theorem number_le_last (stacked : Stacked successors (call :: calls) state)
    (member : node ∈ (call :: calls).map Call.node) :
    state.number node ≤ state.number call.node := by
  rcases List.mem_cons.1 member with rfl | isEarlier
  · exact Nat.le_refl _
  · exact Nat.le_of_lt (stacked.number_lt_last isEarlier)

/-- The stack does not depend on the last call. -/
theorem tail (stacked : Stacked successors (call :: calls) state) :
    Stacked successors calls state :=
  { stacked with
    calls_sublist := (List.sublist_cons_self _ _).trans stacked.calls_sublist }

/-- The stack falls apart at every node on it. -/
theorem exists_split (stacked : Stacked successors calls state) (member : node ∈ state.stack) :
    ∃ above below, state.stack = above ++ node :: below ∧
      (∀ other ∈ above, state.number node < state.number other) ∧
      ∀ other ∈ below, state.number other < state.number node := by
  obtain ⟨above, below, split⟩ := List.append_of_mem member
  have descending := stacked.descending
  rw [split, List.pairwise_append, List.pairwise_cons] at descending
  obtain ⟨-, ⟨isBelow, -⟩, isAbove⟩ := descending
  exact ⟨above, below, split,
    fun other inAbove => isAbove other inAbove node List.mem_cons_self, isBelow⟩

/-- Beginning a visit leaves the nodes on the stack their numbers and lowlinks. -/
theorem enter_of_mem (stacked : Stacked successors calls state)
    (isUnvisited : state.isVisited node = false) (member : other ∈ state.stack) :
    (state.enter node).number other = state.number other ∧
      (state.enter node).low other = state.low other := by
  have isNode := stacked.sized.isNode isUnvisited
  have isOther : other ≠ node := by
    rintro rfl
    simp [stacked.isVisited other member] at isUnvisited
  rw [Lowlinks.number_enter stacked.sized isNode, Lowlinks.low_enter stacked.sized isNode]
  simp [isOther]

/-- A node is the newest when its visit begins, and its lowlink is its number. -/
theorem enter_self (stacked : Stacked successors calls state)
    (isUnvisited : state.isVisited node = false) :
    (state.enter node).number node = state.nextIndex ∧
      (state.enter node).low node = state.nextIndex := by
  have isNode := stacked.sized.isNode isUnvisited
  rw [Lowlinks.number_enter stacked.sized isNode, Lowlinks.low_enter stacked.sized isNode]
  simp

theorem enter (stacked : Stacked successors calls state)
    (isUnvisited : state.isVisited node = false) :
    Stacked successors (⟨node, 0⟩ :: calls) (state.enter node) := by
  have isNode := stacked.sized.isNode isUnvisited
  have number_enter {other : Nat} (member : other ∈ state.stack) :=
    (stacked.enter_of_mem isUnvisited member).1
  have number_self := (stacked.enter_self isUnvisited).1
  constructor
  · exact stacked.sized.enter
  · intro other
    rw [Lowlinks.isOnStack_enter stacked.sized isNode]
    by_cases same : other = node <;> simp [Lowlinks.enter, same, stacked.isOnStack_iff]
  · exact List.forall_mem_cons.2 ⟨isNode, stacked.isNode⟩
  · refine List.forall_mem_cons.2 ⟨?_, fun other member => ?_⟩
    · simp
    · simp [stacked.isVisited other member]
  · refine List.forall_mem_cons.2 ⟨?_, fun other member => ?_⟩
    · rw [number_self]
      exact Nat.lt_succ_self _
    · rw [number_enter member]
      exact Nat.lt_succ_of_lt (stacked.number_lt other member)
  · refine List.pairwise_cons.2 ⟨fun other member => ?_, ?_⟩
    · rw [number_self, number_enter member]
      exact stacked.number_lt other member
    · refine stacked.descending.imp_of_mem fun isFirst isSecond less => ?_
      rwa [number_enter isFirst, number_enter isSecond]
  · exact stacked.calls_sublist.cons_cons node

theorem lower (stacked : Stacked successors calls state) :
    Stacked successors calls (state.lower node bound) :=
  { stacked with sized := stacked.sized.lower }

theorem complete (stacked : Stacked successors (call :: calls) state)
    (split : state.stack = above ++ call.node :: below) (notAbove : call.node ∉ above) :
    Stacked successors calls (state.complete call.node) := by
  have below_sublist : below.Sublist state.stack := by
    rw [split]
    exact (List.sublist_cons_self _ _).trans (List.sublist_append_right _ _)
  constructor
  · exact stacked.sized.complete split notAbove
  · intro other
    rw [Lowlinks.isOnStack_complete split notAbove, stacked.isOnStack_iff,
      Lowlinks.complete_eq split notAbove]
    have nodup := stacked.nodup
    rw [split, List.append_cons above call.node below] at nodup
    have apart := (List.nodup_append.1 nodup).2.2
    rw [Lowlinks.mem_stack_iff split]
    constructor
    · rintro ⟨notPopped, member⟩
      exact member.resolve_left notPopped
    · intro inBelow
      exact ⟨fun popped => apart other popped other inBelow rfl, .inr inBelow⟩
  all_goals rw [Lowlinks.complete_eq split notAbove]
  · exact fun other inBelow => stacked.isNode other (below_sublist.subset inBelow)
  · exact fun other inBelow => stacked.isVisited other (below_sublist.subset inBelow)
  · exact fun other inBelow => stacked.number_lt other (below_sublist.subset inBelow)
  · exact stacked.descending.sublist below_sublist
  · exact sublist_of_cons_sublist notAbove (split ▸ stacked.calls_sublist)

end Stacked

/-- An edge that no call has still to follow. -/
structure Followed (successors : Successors) (calls : List Call) (source target : Nat) :
    Prop where
  edge : successors.Edge source target
  notAhead : ∀ call ∈ calls, call.node = source → target ∉ call.rest successors

/-- A call that begins has all edges of its node ahead and hides no others. -/
theorem Followed.of_begun {successors : Successors} {calls : List Call}
    {node source target : Nat}
    (followed : Followed successors (⟨node, 0⟩ :: calls) source target) :
    source ≠ node ∧ Followed successors calls source target := by
  constructor
  · rintro rfl
    exact followed.notAhead _ List.mem_cons_self rfl followed.edge
  · exact ⟨followed.edge,
      fun call member => followed.notAhead call (List.mem_cons_of_mem _ member)⟩

/-- What numbers and lowlinks say about paths. -/
structure Linked (successors : Successors) (calls : List Call) (state : Lowlinks) : Prop where
  /-- A call reaches everything that is newer than its node. -/
  reaches : ∀ caller ∈ calls.map Call.node, ∀ node ∈ state.stack,
    state.number caller ≤ state.number node → successors.Reaches caller node
  low_le : ∀ node ∈ state.stack, state.low node ≤ state.number node
  exists_low : ∀ node ∈ state.stack, ∃ oldest ∈ state.stack,
    state.number oldest = state.low node ∧ successors.Reaches node oldest
  /-- A node whose visit has ended waits for an older node. -/
  low_lt : ∀ node ∈ state.stack, node ∉ calls.map Call.node →
    state.low node < state.number node
  isVisited : ∀ source ∈ state.stack, ∀ target < successors.size,
    Followed successors calls source target → state.isVisited target = true
  /-- An edge to the stack shows in the lowlink of a call that is not older than any given one
  before its source. -/
  covered : ∀ source ∈ state.stack, ∀ target ∈ state.stack,
    Followed successors calls source target →
    ∀ caller ∈ calls.map Call.node, state.number caller ≤ state.number source →
    ∃ holder ∈ calls.map Call.node,
      state.number caller ≤ state.number holder ∧ state.low holder ≤ state.number target

namespace Linked

variable {successors : Successors} {call : Call} {calls advanced : List Call}
  {state after : Lowlinks} {node target : Nat}

theorem start (successors : Successors) :
    Linked successors [] (.start successors.size) where
  reaches caller member := by cases member
  low_le node member := by cases member
  exists_low node member := by cases member
  low_lt node member := by cases member
  isVisited source member := by cases member
  covered source member := by cases member

/-- The calls reach a node to which an edge of the last one leads. -/
theorem reaches_of_edge (linked : Linked successors calls state)
    (stacked : Stacked successors calls state)
    (fromLast : ∀ last ∈ calls.head?, successors.Edge last.node node) {caller : Nat}
    (isCaller : caller ∈ calls.map Call.node) : successors.Reaches caller node := by
  cases calls with
  | nil => cases isCaller
  | cons last calls =>
      have onStack := stacked.calls_sublist.subset List.mem_cons_self
      exact (linked.reaches caller isCaller last.node onStack
        (stacked.number_le_last isCaller)).tail (fromLast last rfl)

/-- The visit of a node may begin from the last call. The node is newer than all others, and
none of its edges has been followed. -/
theorem enter (linked : Linked successors calls state) (stacked : Stacked successors calls state)
    (isUnvisited : state.isVisited node = false)
    (fromLast : ∀ last ∈ calls.head?, successors.Edge last.node node) :
    Linked successors (⟨node, 0⟩ :: calls) (state.enter node) := by
  have isNode := stacked.sized.isNode isUnvisited
  have isOld {other : Nat} (member : other ∈ state.stack) :=
    stacked.enter_of_mem isUnvisited member
  obtain ⟨number_self, low_self⟩ := stacked.enter_self isUnvisited
  have isOlder {other : Nat} (member : other ∈ state.stack) :
      ¬ (state.enter node).number node ≤ (state.enter node).number other := by
    rw [number_self, (isOld member).1]
    exact Nat.not_le_of_lt (stacked.number_lt other member)
  have caller_mem {caller : Nat} (member : caller ∈ calls.map Call.node) :
      caller ∈ state.stack := stacked.calls_sublist.subset member
  constructor
  · refine List.forall_mem_cons.2 ⟨?_, fun caller isCaller => ?_⟩
    · refine List.forall_mem_cons.2 ⟨fun _ => .refl, fun other member newer => ?_⟩
      exact absurd newer (isOlder member)
    · refine List.forall_mem_cons.2 ⟨fun _ => linked.reaches_of_edge stacked fromLast isCaller,
        fun other member newer => ?_⟩
      rw [(isOld (caller_mem isCaller)).1, (isOld member).1] at newer
      exact linked.reaches caller isCaller other member newer
  · refine List.forall_mem_cons.2 ⟨?_, fun other member => ?_⟩
    · exact Nat.le_of_eq (low_self.trans number_self.symm)
    · rw [(isOld member).1, (isOld member).2]
      exact linked.low_le other member
  · refine List.forall_mem_cons.2 ⟨?_, fun other member => ?_⟩
    · exact ⟨node, List.mem_cons_self, number_self.trans low_self.symm, .refl⟩
    · obtain ⟨oldest, onStack, isLow, path⟩ := linked.exists_low other member
      refine ⟨oldest, List.mem_cons_of_mem _ onStack, ?_, path⟩
      rw [(isOld onStack).1, (isOld member).2, isLow]
  · refine List.forall_mem_cons.2 ⟨fun notCaller => ?_, fun other member notCaller => ?_⟩
    · exact absurd List.mem_cons_self notCaller
    · rw [(isOld member).1, (isOld member).2]
      exact linked.low_lt other member fun isCaller => notCaller (List.mem_cons_of_mem _ isCaller)
  · refine List.forall_mem_cons.2 ⟨fun target _ followed => absurd rfl followed.of_begun.1,
      fun source member target targetIsNode followed => ?_⟩
    rw [Lowlinks.isVisited_enter, Bool.or_eq_true]
    exact .inr (linked.isVisited source member target targetIsNode followed.of_begun.2)
  · refine List.forall_mem_cons.2 ⟨fun target _ followed => absurd rfl followed.of_begun.1,
      fun source member => ?_⟩
    refine List.forall_mem_cons.2 ⟨fun followed => ?_, fun target targetMember followed => ?_⟩
    · have isVisited := linked.isVisited source member node isNode followed.of_begun.2
      simp [isVisited] at isUnvisited
    · refine List.forall_mem_cons.2 ⟨fun newer => absurd newer (isOlder member),
        fun caller isCaller newer => ?_⟩
      rw [(isOld (caller_mem isCaller)).1, (isOld member).1] at newer
      obtain ⟨holder, isHolder, notOlder, holds⟩ := linked.covered source member target
        targetMember followed.of_begun.2 caller isCaller newer
      refine ⟨holder, List.mem_cons_of_mem _ isHolder, ?_, ?_⟩
      · rwa [(isOld (caller_mem isCaller)).1, (isOld (caller_mem isHolder)).1]
      · rwa [(isOld (caller_mem isHolder)).2, (isOld targetMember).1]

/-- An edge may be followed to a visited node if it is noted in the lowlink. -/
theorem follow {caller : Nat} (linked : Linked successors calls state)
    (sameNodes : advanced.map Call.node = calls.map Call.node)
    (isCaller : caller ∈ calls.map Call.node)
    (followed : ∀ source other, Followed successors advanced source other →
      Followed successors calls source other ∨ source = caller ∧ other = target)
    (isVisited : state.isVisited target = true)
    (noted : target ∈ state.stack → state.low caller ≤ state.number target) :
    Linked successors advanced state := by
  constructor
  · rw [sameNodes]
    exact linked.reaches
  · exact linked.low_le
  · exact linked.exists_low
  · rw [sameNodes]
    exact linked.low_lt
  · intro source member other isNode isFollowed
    rcases followed source other isFollowed with before | ⟨rfl, rfl⟩
    · exact linked.isVisited source member other isNode before
    · exact isVisited
  · rw [sameNodes]
    intro source member other otherMember isFollowed first isFirst newer
    rcases followed source other isFollowed with before | ⟨rfl, rfl⟩
    · exact linked.covered source member other otherMember before first isFirst newer
    · exact ⟨source, isCaller, newer, noted otherMember⟩

/-- A lowlink may be lowered to the number of a node that is reached. -/
theorem lower (linked : Linked successors calls state) (onStack : target ∈ state.stack)
    (path : successors.Reaches node target) :
    Linked successors calls (state.lower node (state.number target)) := by
  have low_le (other : Nat) :
      (state.lower node (state.number target)).low other ≤ state.low other := by
    rw [Lowlinks.low_lower]
    split
    next => exact Nat.min_le_left _ _
    next => exact Nat.le_refl _
  constructor
  · exact linked.reaches
  · exact fun other member => Nat.le_trans (low_le other) (linked.low_le other member)
  · intro other member
    obtain ⟨oldest, isOldest, isLow, further⟩ := linked.exists_low other member
    rw [Lowlinks.low_lower]
    split
    next same =>
      rw [same] at isLow further ⊢
      rcases Nat.le_total (state.low node) (state.number target) with lower | lower
      · rw [Nat.min_eq_left lower]
        exact ⟨oldest, isOldest, isLow, further⟩
      · rw [Nat.min_eq_right lower]
        exact ⟨target, onStack, rfl, path⟩
    next => exact ⟨oldest, isOldest, isLow, further⟩
  · exact fun other member notCaller =>
      Nat.lt_of_le_of_lt (low_le other) (linked.low_lt other member notCaller)
  · exact linked.isVisited
  · intro source member target targetMember followed caller isCaller newer
    obtain ⟨holder, isHolder, notOlder, holds⟩ :=
      linked.covered source member target targetMember followed caller isCaller newer
    exact ⟨holder, isHolder, notOlder, Nat.le_trans (low_le holder) holds⟩

/-- The last visit may end when its edges have been followed and its lowlink has been passed
on. The newest nodes may leave the stack then; its own node must do so if its lowlink is its
number. -/
theorem leave (linked : Linked successors (call :: calls) state)
    (stacked : Stacked successors (call :: calls) state)
    (index_eq : after.index = state.index) (lowlink_eq : after.lowlink = state.lowlink)
    (isDone : call.rest successors = [])
    (passedOn : ∀ parent ∈ calls.head?, state.low parent.node ≤ state.low call.node)
    (subset : after.stack ⊆ state.stack)
    (downward : ∀ node ∈ after.stack, ∀ older ∈ state.stack,
      state.number older ≤ state.number node → older ∈ after.stack)
    (waits : call.node ∈ after.stack → state.low call.node < state.number call.node) :
    Linked successors calls after := by
  have number_eq (node : Nat) : after.number node = state.number node := by
    rw [Lowlinks.number, index_eq, Lowlinks.number]
  have low_eq (node : Nat) : after.low node = state.low node := by
    rw [Lowlinks.low, lowlink_eq, Lowlinks.low]
  have isVisited_eq (node : Nat) : after.isVisited node = state.isVisited node := by
    rw [Lowlinks.isVisited, index_eq, Lowlinks.isVisited]
  have followedBefore {source target : Nat} (followed : Followed successors calls source target) :
      Followed successors (call :: calls) source target := by
    refine ⟨followed.edge, List.forall_mem_cons.2 ⟨fun _ => ?_, followed.notAhead⟩⟩
    rw [isDone]
    exact List.not_mem_nil
  constructor
  · intro caller isCaller node member newer
    rw [number_eq, number_eq] at newer
    exact linked.reaches caller (List.mem_cons_of_mem _ isCaller) node (subset member) newer
  · intro node member
    rw [number_eq, low_eq]
    exact linked.low_le node (subset member)
  · intro node member
    obtain ⟨oldest, onStack, isLow, path⟩ := linked.exists_low node (subset member)
    have notNewer := linked.low_le node (subset member)
    rw [← isLow] at notNewer
    refine ⟨oldest, downward node member oldest onStack notNewer, ?_, path⟩
    rw [number_eq, low_eq, isLow]
  · intro node member notCaller
    rw [number_eq, low_eq]
    by_cases isLast : node = call.node
    · rw [isLast] at member ⊢
      exact waits member
    · refine linked.low_lt node (subset member) fun isCaller => ?_
      exact (List.mem_cons.1 isCaller).elim isLast notCaller
  · intro source member target isNode followed
    rw [isVisited_eq]
    exact linked.isVisited source (subset member) target isNode (followedBefore followed)
  · intro source member target targetMember followed caller isCaller newer
    rw [number_eq, number_eq] at newer
    obtain ⟨holder, isHolder, notOlder, holds⟩ := linked.covered source (subset member) target
      (subset targetMember) (followedBefore followed) caller (List.mem_cons_of_mem _ isCaller)
      newer
    simp only [number_eq, low_eq]
    rcases List.mem_cons.1 isHolder with rfl | isHolder
    · -- The visit that ends held the edge; now the one that it returns to does.
      cases calls with
      | nil => cases isCaller
      | cons parent calls =>
          exact ⟨parent.node, List.mem_cons_self, stacked.tail.number_le_last isCaller,
            Nat.le_trans (passedOn parent rfl) holds⟩
    · exact ⟨holder, isHolder, notOlder, holds⟩

end Linked

end Datalog
