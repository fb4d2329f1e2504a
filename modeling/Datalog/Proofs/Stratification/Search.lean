import Mathlib.Logic.Relation
import Mathlib.Tactic.ByContra
import Mathlib.Tactic.Tauto
import Datalog.Stratification.Search

/-!
# What a depth-first search visits

`Explores` restates a search without its list of tasks: the visit of a node encloses the
visits of its successors. `search_append` says that the search runs as this relation
prescribes, and every other fact is an induction over the nested visits: the newly visited
nodes are those that the roots reach outside the visited ones, and `Explores.crossing` tells
how the order in which visits end follows the edges.
-/

namespace Datalog

/-- An edge of a graph. -/
def Successors.Edge (successors : Successors) (source target : Nat) : Prop :=
  target ∈ successors.of source

/-- A path along edges of a graph. -/
def Successors.Reaches (successors : Successors) : Nat → Nat → Prop :=
  Relation.ReflTransGen successors.Edge

/-- Only nodes have edges. -/
theorem Successors.Edge.source_lt {successors : Successors} {source target : Nat}
    (edge : successors.Edge source target) : source < successors.size := by
  by_contra outside
  simp [Edge, of, Array.getD_eq_getD_getElem?, outside] at edge

namespace Search

/-- The nodes whose visits have not begun. -/
def unvisited (state : Search) : Nat :=
  state.visited.toList.countP (!·)

/-- After a visit has begun, its node counts as visited along with those before. -/
@[simp] theorem isVisited_mark (state : Search) (node other : Nat) :
    (state.mark node).isVisited other = (decide (other = node) || state.isVisited other) := by
  simp only [isVisited, mark, Array.getD_eq_getD_getElem?, Array.getElem?_setIfInBounds]
  by_cases same : node = other
  · subst same
    by_cases inBounds : node < state.visited.size <;> simp [inBounds]
  · simp [same, Ne.symm same]

/-- The end of a visit changes no node's being visited. -/
@[simp] theorem isVisited_finish (state : Search) (node other : Nat) :
    (state.finish node).isVisited other = state.isVisited other := rfl

/-- A search knows no nodes beyond its flags, so they never need a visit. -/
theorem lt_size_of_unvisited {state : Search} {node : Nat}
    (isUnvisited : state.isVisited node = false) : node < state.visited.size := by
  by_contra outside
  simp [isVisited, Array.getD_eq_getD_getElem?, outside] at isUnvisited

/-- Every begun visit leaves one node fewer. -/
theorem unvisited_mark {state : Search} {node : Nat}
    (isUnvisited : state.isVisited node = false) :
    (state.mark node).unvisited + 1 = state.unvisited := by
  have inBounds : node < state.visited.toList.length := by
    simpa using lt_size_of_unvisited isUnvisited
  have isFalse : state.visited.toList[node] = false := by
    simpa [isVisited, Array.getD_eq_getD_getElem?, lt_size_of_unvisited isUnvisited]
      using isUnvisited
  have counted : 0 < state.visited.toList.countP (!·) :=
    List.countP_pos_iff.2 ⟨_, List.getElem_mem inBounds, by simp [isFalse]⟩
  have count := List.countP_set (p := (!·)) (a := true) inBounds
  simp only [isFalse, Bool.not_false, Bool.not_true, if_true, Bool.false_eq_true, if_false]
    at count
  simp only [unvisited, mark, Array.toList_setIfInBounds]
  omega

end Search

/-- Nested visits: from a list of roots, one state leads to another, and the listed nodes
are visited on the way, the one whose visit ends last first. -/
inductive Explores (successors : Successors) :
    List Nat → Search → List Nat → Search → Prop where
  | done {state} : Explores successors [] state [] state
  | skip {root roots before visited after} (isVisited : before.isVisited root = true)
      (others : Explores successors roots before visited after) :
      Explores successors (root :: roots) before visited after
  | visit {root roots before below middle beyond after}
      (isUnvisited : before.isVisited root = false)
      (inside : Explores successors (successors.of root) (before.mark root) below middle)
      (others : Explores successors roots (middle.finish root) beyond after) :
      Explores successors (root :: roots) before (beyond ++ root :: below) after

namespace Explores

variable {successors : Successors} {roots : List Nat} {before after : Search}
  {visited : List Nat}

/-- Entering roots carries out their nested visits and goes on with the remaining tasks. -/
theorem search_append (explores : Explores successors roots before visited after)
    (tasks : List Task) :
    search successors (roots.map .enter ++ tasks) before = search successors tasks after := by
  induction explores generalizing tasks with
  | done => rfl
  | skip isVisited _ inductionHypothesis =>
      rw [List.map_cons, List.cons_append, search, if_pos isVisited, inductionHypothesis]
  | @visit root roots before below middle beyond after isUnvisited _ _ insideHypothesis
      othersHypothesis =>
      rw [List.map_cons, List.cons_append, search, isUnvisited, if_neg Bool.false_ne_true,
        insideHypothesis, search, othersHypothesis]

/-- The visited nodes are put in front of those whose visits had ended. -/
theorem finished_eq (explores : Explores successors roots before visited after) :
    after.finished = visited ++ before.finished := by
  induction explores with
  | done => rfl
  | skip _ _ inductionHypothesis => exact inductionHypothesis
  | visit _ _ _ insideHypothesis othersHypothesis =>
      rw [othersHypothesis, Search.finish, insideHypothesis]
      simp [Search.mark]

/-- Afterwards exactly the nodes visited before and on the way are visited. -/
theorem isVisited_iff (explores : Explores successors roots before visited after) (node : Nat) :
    after.isVisited node = true ↔ before.isVisited node = true ∨ node ∈ visited := by
  induction explores with
  | done => simp
  | skip _ _ inductionHypothesis => exact inductionHypothesis
  | visit _ _ _ insideHypothesis othersHypothesis =>
      rw [othersHypothesis, Search.isVisited_finish, insideHypothesis, Search.isVisited_mark]
      simp only [Bool.or_eq_true, decide_eq_true_eq, List.mem_append, List.mem_cons]
      tauto

/-- The number of flags stays the same. -/
theorem size_eq (explores : Explores successors roots before visited after) :
    after.visited.size = before.visited.size := by
  induction explores with
  | done => rfl
  | skip _ _ inductionHypothesis => exact inductionHypothesis
  | visit _ _ _ insideHypothesis othersHypothesis =>
      rw [othersHypothesis]
      simpa [Search.finish, Search.mark] using insideHypothesis

/-- Visits never make more nodes unvisited. -/
theorem unvisited_le (explores : Explores successors roots before visited after) :
    after.unvisited ≤ before.unvisited := by
  induction explores with
  | done => exact Nat.le_refl _
  | skip _ _ inductionHypothesis => exact inductionHypothesis
  | visit isUnvisited _ _ insideHypothesis othersHypothesis =>
      have fewer := Search.unvisited_mark isUnvisited
      simp only [Search.unvisited, Search.finish] at *
      omega

/-- Entering visited roots does nothing. -/
theorem eq_of_isVisited (explores : Explores successors roots before visited after)
    (isVisited : ∀ root ∈ roots, before.isVisited root = true) :
    visited = [] ∧ after = before := by
  induction explores with
  | done => exact ⟨rfl, rfl⟩
  | skip _ _ inductionHypothesis =>
      exact inductionHypothesis fun root member => isVisited root (List.mem_cons_of_mem _ member)
  | visit isUnvisited =>
      have rootVisited := isVisited _ List.mem_cons_self
      simp [isUnvisited] at rootVisited

/-- Only nodes that were not visited before are visited. -/
theorem isVisited_eq_false (explores : Explores successors roots before visited after)
    {node : Nat} (member : node ∈ visited) : before.isVisited node = false := by
  induction explores with
  | done => simp at member
  | skip _ _ inductionHypothesis => exact inductionHypothesis member
  | @visit root roots before below middle beyond after isUnvisited inside _ insideHypothesis
      othersHypothesis =>
      rcases List.mem_append.1 member with inBeyond | inRest
      · have unvisitedLater := othersHypothesis inBeyond
        rw [Search.isVisited_finish] at unvisitedLater
        by_contra isVisited
        have kept := (inside.isVisited_iff node).2 (.inl (by simp_all))
        simp [kept] at unvisitedLater
      · rcases List.mem_cons.1 inRest with rfl | inBelow
        · exact isUnvisited
        · have unvisitedInside := insideHypothesis inBelow
          simp only [Search.isVisited_mark, Bool.or_eq_false_iff] at unvisitedInside
          exact unvisitedInside.2

/-- No node is visited twice. -/
theorem nodup (explores : Explores successors roots before visited after) : visited.Nodup := by
  induction explores with
  | done => exact List.nodup_nil
  | skip _ _ inductionHypothesis => exact inductionHypothesis
  | @visit root roots before below middle beyond after _ inside others insideHypothesis
      othersHypothesis =>
      have rootNotBelow : root ∉ below := fun inBelow => by
        have unvisitedInside := inside.isVisited_eq_false inBelow
        simp at unvisitedInside
      refine List.nodup_append.2
        ⟨othersHypothesis, List.nodup_cons.2 ⟨rootNotBelow, insideHypothesis⟩, ?_⟩
      rintro node inBeyond other inRest rfl
      have unvisitedLater := others.isVisited_eq_false inBeyond
      rw [Search.isVisited_finish] at unvisitedLater
      have isVisited : middle.isVisited node = true := by
        rcases List.mem_cons.1 inRest with rfl | inBelow
        · exact (inside.isVisited_iff node).2 (.inl (by simp))
        · exact (inside.isVisited_iff node).2 (.inr inBelow)
      simp [isVisited] at unvisitedLater

/-- Afterwards all roots are visited. -/
theorem isVisited_root (explores : Explores successors roots before visited after) {root : Nat}
    (member : root ∈ roots) : after.isVisited root = true := by
  induction explores with
  | done => simp at member
  | skip isVisited others inductionHypothesis =>
      rcases List.mem_cons.1 member with rfl | inRest
      · exact (others.isVisited_iff _).2 (.inl isVisited)
      · exact inductionHypothesis inRest
  | visit _ inside others _ othersHypothesis =>
      rcases List.mem_cons.1 member with rfl | inRest
      · exact (others.isVisited_iff _).2 (.inl ((inside.isVisited_iff _).2 (.inl (by simp))))
      · exact othersHypothesis inRest

/-- Afterwards the successors of every visited node are visited. -/
theorem isVisited_successor (explores : Explores successors roots before visited after)
    {source target : Nat} (member : source ∈ visited) (edge : successors.Edge source target) :
    after.isVisited target = true := by
  induction explores with
  | done => simp at member
  | skip _ _ inductionHypothesis => exact inductionHypothesis member
  | visit _ inside others insideHypothesis othersHypothesis =>
      rcases List.mem_append.1 member with inBeyond | inRest
      · exact othersHypothesis inBeyond
      · refine (others.isVisited_iff target).2 (.inl ?_)
        rcases List.mem_cons.1 inRest with rfl | inBelow
        · exact inside.isVisited_root edge
        · exact insideHypothesis inBelow

/-- Every visited node is reached from a root. -/
theorem reaches (explores : Explores successors roots before visited after) {node : Nat}
    (member : node ∈ visited) : ∃ root ∈ roots, successors.Reaches root node := by
  induction explores with
  | done => simp at member
  | skip _ _ inductionHypothesis =>
      obtain ⟨root, inRoots, path⟩ := inductionHypothesis member
      exact ⟨root, List.mem_cons_of_mem _ inRoots, path⟩
  | @visit root roots before below middle beyond after _ _ _ insideHypothesis
      othersHypothesis =>
      rcases List.mem_append.1 member with inBeyond | inRest
      · obtain ⟨other, inRoots, path⟩ := othersHypothesis inBeyond
        exact ⟨other, List.mem_cons_of_mem _ inRoots, path⟩
      · refine ⟨root, List.mem_cons_self, ?_⟩
        rcases List.mem_cons.1 inRest with rfl | inBelow
        · exact .refl
        · obtain ⟨target, edge, path⟩ := insideHypothesis inBelow
          exact .head edge path

/-- An edge that leads back over a node, to a visit that ended later, starts a path to that
node: while the node was visited, the visit of the edge's target was still going on. -/
theorem crossing (explores : Explores successors roots before visited after)
    {later earlier : List Nat} {node source target : Nat}
    (split : visited = later ++ node :: earlier) (fromEarlier : source ∈ node :: earlier)
    (toLater : target ∈ later) (edge : successors.Edge source target) :
    successors.Reaches target node := by
  induction explores generalizing later earlier with
  | done => simp at split
  | skip _ _ inductionHypothesis => exact inductionHypothesis split fromEarlier toLater
  | @visit root roots before below middle beyond after isUnvisited inside others
      insideHypothesis othersHypothesis =>
      -- Whatever an edge out of the finished visit of the root leads to is visited by then.
      have notBack (inRest : source ∈ root :: below) (inBeyond : target ∈ beyond) : False := by
        have unvisitedLater := others.isVisited_eq_false inBeyond
        have isVisited : middle.isVisited target = true := by
          rcases List.mem_cons.1 inRest with rfl | inBelow
          · exact inside.isVisited_root edge
          · exact inside.isVisited_successor inBelow edge
        simp [isVisited] at unvisitedLater
      rcases List.append_eq_append_iff.1 split with
        ⟨rest, rfl, restEq⟩ | ⟨rest, rfl, restEq⟩
      · cases rest with
        | nil =>
            simp only [List.nil_append, List.cons.injEq] at restEq
            obtain ⟨rfl, rfl⟩ := restEq
            rw [List.append_nil] at toLater
            exact (notBack fromEarlier toLater).elim
        | cons first rest =>
            simp only [List.cons_append, List.cons.injEq] at restEq
            obtain ⟨rfl, rfl⟩ := restEq
            have inRest : source ∈ root :: (rest ++ node :: earlier) :=
              List.mem_cons_of_mem _ (List.mem_append_right _ fromEarlier)
            rcases List.mem_append.1 toLater with inBeyond | inRoot
            · exact (notBack inRest inBeyond).elim
            · rcases List.mem_cons.1 inRoot with rfl | inBelow
              · obtain ⟨successor, first, path⟩ :=
                  inside.reaches (List.mem_append_right rest List.mem_cons_self)
                exact .head first path
              · exact insideHypothesis rfl fromEarlier inBelow
      · cases rest with
        | nil =>
            simp only [List.nil_append, List.cons.injEq] at restEq
            obtain ⟨rfl, rfl⟩ := restEq
            exact (notBack fromEarlier (List.mem_append_left _ toLater)).elim
        | cons first rest =>
            simp only [List.cons_append, List.cons.injEq] at restEq
            obtain ⟨rfl, rfl⟩ := restEq
            rw [← List.cons_append] at fromEarlier
            rcases List.mem_append.1 fromEarlier with inBeyond | inRest
            · exact othersHypothesis rfl inBeyond toLater
            · exact (notBack inRest (List.mem_append_left _ toLater)).elim

end Explores

/-- Every search has nested visits. The induction is on the number of unvisited nodes, which
the visit of a root lowers before its successors are entered. -/
theorem exists_explores (successors : Successors) (bound : Nat) (before : Search)
    (fewUnvisited : before.unvisited ≤ bound) (roots : List Nat) :
    ∃ visited after, Explores successors roots before visited after := by
  induction bound generalizing before roots with
  | zero =>
      induction roots with
      | nil => exact ⟨[], before, .done⟩
      | cons root roots inductionHypothesis =>
          obtain ⟨visited, after, others⟩ := inductionHypothesis
          have isVisited : before.isVisited root = true := by
            by_contra isUnvisited
            have fewer := Search.unvisited_mark (Bool.eq_false_iff.2 isUnvisited)
            omega
          exact ⟨visited, after, .skip isVisited others⟩
  | succ bound boundHypothesis =>
      induction roots generalizing before with
      | nil => exact ⟨[], before, .done⟩
      | cons root roots inductionHypothesis =>
          cases isVisited : before.isVisited root with
          | true =>
              obtain ⟨visited, after, others⟩ := inductionHypothesis before fewUnvisited
              exact ⟨visited, after, .skip isVisited others⟩
          | false =>
              have fewer := Search.unvisited_mark isVisited
              obtain ⟨below, middle, inside⟩ :=
                boundHypothesis (before.mark root) (by omega) (successors.of root)
              have insideFewer := inside.unvisited_le
              obtain ⟨beyond, after, others⟩ :=
                inductionHypothesis (middle.finish root)
                  (by simp only [Search.unvisited, Search.finish] at *; omega)
              exact ⟨beyond ++ root :: below, after, .visit isVisited inside others⟩

/-- A search that enters roots carries out their nested visits. -/
theorem explores_search (successors : Successors) (roots : List Nat) (before : Search) :
    ∃ visited, Explores successors roots before visited
      (search successors (roots.map .enter) before) := by
  obtain ⟨visited, after, explores⟩ :=
    exists_explores successors before.unvisited before (Nat.le_refl _) roots
  have result := explores.search_append []
  rw [List.append_nil, search] at result
  exact ⟨visited, result ▸ explores⟩

end Datalog
