import Datalog.CommandLine
import Datalog.Proofs.RuleSet.Restatement

/-!
# The output of the command

The facts that the command prints are a program for themselves: they are parsed as clauses
that state them, in the shapes of their relations and as they are written, so the command
prints its own output again (`CommandLine.runIn_output`). Infinite numbers have no literal and
must not be among them.
-/

namespace Datalog

/-- A rule set states the facts of a store, as they are written and in the shapes that the
store knows, and has no rules. -/
structure RuleSet.States (ruleSet : RuleSet) (store : FactStore) : Prop where
  facts : ruleSet.facts.toList.Perm store.allFacts
  rules : ruleSet.rules.toList = []
  shapes : ∀ relation ∈ store.relationNames,
    ruleSet.shapeOf? relation = store.shapeOf? relation

/-- No value in a store is infinite. -/
def FactStore.IsFinite (store : FactStore) : Prop :=
  ∀ fact ∈ store.allFacts, ∀ value ∈ fact.values, ¬ value.IsInfinite

instance (store : FactStore) : Decidable store.IsFinite :=
  inferInstanceAs (Decidable (∀ fact ∈ store.allFacts, ∀ value ∈ fact.values, _))

namespace RuleSet

variable {source : String} {ruleSet : RuleSet} {limits : Limits} {store : FactStore}

/-- The facts that a source implies are atoms that can be written, in the order of the text. -/
theorem exists_atoms_of_evaluate (compiled : compile source = .ok ruleSet)
    (isOk : ruleSet.evaluate limits = .ok store) (finite : store.IsFinite) :
    ∃ atoms : List (AtomOf Value),
      (atoms.map fun atom => (⟨atom.relation, atom.terms⟩ : Fact)) = store.sortedFacts ∧
      ∀ atom ∈ atoms, Source.WritableAtom Value.text Draft.ReadsValue atom ∧
        store.shapeOf? atom.relation = some atom.shape := by
  refine exists_map_eq fun fact isPrinted => ?_
  have member := store.perm_sortedFacts.mem_iff.1 isPrinted
  obtain ⟨atom, isWritable, rfl, isShape⟩ :=
    exists_atom_of_evaluate compiled isOk member (finite fact member)
  exact ⟨atom, rfl, isWritable, isShape⟩

/-- The text of the store that a source implies compiles to a rule set that states its facts,
in the order of the text. -/
theorem exists_compile_text (compiled : compile source = .ok ruleSet)
    (isOk : ruleSet.evaluate limits = .ok store) (wellFormed : store.WellFormed)
    (occupied : store.Occupied) (finite : store.IsFinite) :
    ∃ restated, compile store.text = .ok restated ∧
      restated.facts.toList = store.sortedFacts ∧ restated.States store := by
  obtain ⟨atoms, areFacts, areAtoms⟩ := exists_atoms_of_evaluate compiled isOk finite
  have isText : store.text = lines ((atoms.map Statement.fact).map Statement.text) := by
    rw [wellFormed.text_eq_lines, ← areFacts, List.map_map, List.map_map]
    refine congrArg lines (List.map_congr_left fun atom member => ?_)
    change Fact.textIn _ (store.shapeOf? atom.relation) ++ "." = _
    rw [(areAtoms atom member).2, textIn_shape]
    rfl
  obtain ⟨clauses, isParsed, areRead⟩ := Source.exists_parse_lines
    (List.forall_mem_map.2 fun atom member => .fact (areAtoms atom member).1)
  have agree : ∀ first ∈ atoms, ∀ second ∈ atoms, first.relation = second.relation →
      first.shape = second.shape := by
    intro first isFirst second isSecond sameRelation
    have isShape := (areAtoms first isFirst).2
    rw [sameRelation, (areAtoms second isSecond).2] at isShape
    exact (Option.some.inj isShape).symm
  obtain ⟨restated, isCompiled, isFacts, noRules, areShapes⟩ :=
    exists_compileClauses_of_facts areRead agree store.text
  have stated : restated.facts.toList = store.sortedFacts := by
    rw [isFacts, areFacts]
    exact OrderedSet.toList_insertMany_empty wellFormed.pairwise_sortedFacts
  refine ⟨restated, bind_eq_ok_iff.2 ⟨clauses, isText ▸ isParsed, isCompiled⟩, stated,
    stated ▸ store.perm_sortedFacts, noRules, fun relation known => ?_⟩
  -- A relation that is named has a fact, which is one of the atoms.
  obtain ⟨fact, isListed⟩ := occupied.mem_relationNames_iff.1 known
  have ofRelation := wellFormed.relation_eq relation fact isListed
  have inFacts : fact ∈ store.sortedFacts := by
    refine store.perm_sortedFacts.mem_iff.2 ?_
    rw [FactStore.allFacts_eq_flatMap_relationNames]
    exact List.mem_flatMap.2 ⟨relation, known, Array.mem_toList_iff.2 isListed⟩
  rw [← areFacts] at inFacts
  obtain ⟨atom, member, rfl⟩ := List.mem_map.1 inFacts
  rw [← ofRelation]
  exact (areShapes atom member).trans (areAtoms atom member).2.symm

/-- The text of the store that a source implies is a program for a store with this text. -/
theorem exists_evaluate_text (compiled : compile source = .ok ruleSet)
    (isOk : ruleSet.evaluate limits = .ok store) (finite : store.IsFinite) :
    ∃ restated, compile store.text = .ok restated ∧ restated.States store ∧
      ∃ printed, restated.evaluate limits = .ok printed ∧ printed.text = store.text := by
  obtain ⟨checked, stratification, accepted, isRun⟩ := evaluate_eq_ok_iff.1 isOk
  have semipositive := semipositive_rulesOf checked accepted
  obtain ⟨wellFormed, isModel⟩ := facts_eq_of_run semipositive isRun
  have occupied := occupied_of_run isRun
  obtain ⟨restated, isCompiled, isSorted, states⟩ :=
    exists_compile_text compiled isOk wellFormed occupied finite
  obtain ⟨_, _, _, rfl, means, _⟩ := exists_means_of_compile isCompiled
  refine ⟨_, isCompiled, states, _, evaluate_of_no_rules means.consistent states.rules ?_, ?_⟩
  · -- The facts are as many as before, and there was room for them.
    obtain ⟨fits, _⟩ := (exists_run_iff semipositive).1 ⟨store, isRun⟩
    rw [isSorted, wellFormed.size_addMany_sortedFacts]
    exact wellFormed.size_le_iff.2 (isModel ▸ fits)
  · rw [isSorted]
    exact FactStore.text_addMany_sortedFacts wellFormed occupied states.shapes

end RuleSet

namespace CommandLine

variable {options : Options} {source : String} {ruleSet : RuleSet} {store : FactStore}

/-- A run that asks for all facts and nothing else prints the store that its source implies. -/
theorem run_eq_text (allRelations : options.relations = []) (noStrata : options.showStrata = false)
    (compiled : RuleSet.compile source = .ok ruleSet)
    (isOk : ruleSet.evaluate options.limits = .ok store) :
    run options (.ok source) = ⟨0, store.text, ""⟩ := by
  have noReport : strataOutput options ruleSet = "" := by rw [strataOutput, noStrata]; rfl
  have allFacts : factsOutput options store = store.text := by
    rw [factsOutput, allRelations]
    rfl
  simp only [run, compiled, isOk, noReport, allFacts, String.empty_append]

/-- A run that succeeds has compiled and evaluated its source. -/
theorem exists_evaluate_of_status (succeeds : (run options (.ok source)).status = 0) :
    ∃ ruleSet store, RuleSet.compile source = .ok ruleSet ∧
      ruleSet.evaluate options.limits = .ok store := by
  simp only [run] at succeeds
  split at succeeds
  next => cases succeeds
  next ruleSet compiled =>
    split at succeeds
    next => cases succeeds
    next store isOk => exact ⟨ruleSet, store, compiled, isOk⟩

/-- A run that succeeds and asks for all facts prints a program that states them. Run under the
same limits, with whatever files there are, this program prints itself. -/
theorem runIn_output (allRelations : options.relations = [])
    (noStrata : options.showStrata = false) (succeeds : (run options (.ok source)).status = 0)
    (finite : ∀ ruleSet store, RuleSet.compile source = .ok ruleSet →
      ruleSet.evaluate options.limits = .ok store → store.IsFinite) (files : FileTree) :
    ∃ ruleSet store, RuleSet.compile source = .ok ruleSet ∧
      ruleSet.evaluate options.limits = .ok store ∧
      run options (.ok source) = ⟨0, store.text, ""⟩ ∧
      runIn { options with file := none } store.text files = ⟨0, store.text, ""⟩ ∧
      ∃ restated, RuleSet.compile store.text = .ok restated ∧ restated.States store := by
  obtain ⟨ruleSet, store, compiled, isOk⟩ := exists_evaluate_of_status succeeds
  obtain ⟨restated, isCompiled, states, printed, isPrinted, sameText⟩ :=
    RuleSet.exists_evaluate_text compiled isOk (finite ruleSet store compiled isOk)
  refine ⟨ruleSet, store, compiled, isOk, run_eq_text allRelations noStrata compiled isOk, ?_,
    restated, isCompiled, states⟩
  have printsAgain : runIn { options with file := none } store.text files =
      ⟨0, printed.text, ""⟩ := run_eq_text allRelations noStrata isCompiled isPrinted
  rw [printsAgain, sameText]

/-- Named and ordered relations, a rule, and values with signs, escapes and points. -/
def tracks : String :=
  "line(to: \"B\\\"\", from: -0.0). line(from: 2.5, to: :a).
   far(X, null) :- line(from: Y, to: X), Y > 2. stop(0). stop(-0.0). empty() :- stop(7)."

/-- What is printed for `tracks` is a program that prints itself. -/
theorem runIn_output_tracks :
    (run .standard (.ok tracks)).status = 0 ∧
      (∀ ruleSet store, RuleSet.compile tracks = .ok ruleSet →
        ruleSet.evaluate .standard = .ok store → store.IsFinite) ∧
      ∃ ruleSet store, RuleSet.compile tracks = .ok ruleSet ∧
        ruleSet.evaluate .standard = .ok store ∧
        run .standard (.ok tracks) = ⟨0, store.text, ""⟩ ∧
        runIn .standard store.text ⟨[], []⟩ = ⟨0, store.text, ""⟩ ∧
        ∃ restated, RuleSet.compile store.text = .ok restated ∧ restated.States store := by
  have evaluated : (do
      let ruleSet ← RuleSet.compile tracks
      let store ← ruleSet.evaluate .standard
      return decide store.IsFinite : Except Error Bool) = .ok true := by
    decide +kernel
  obtain ⟨ruleSet, compiled, evaluated⟩ := bind_eq_ok_iff.1 evaluated
  obtain ⟨store, isOk, evaluated⟩ := bind_eq_ok_iff.1 evaluated
  have succeeds : (run .standard (.ok tracks)).status = 0 := by
    rw [run_eq_text rfl rfl compiled isOk]
  have finite : ∀ ruleSet store, RuleSet.compile tracks = .ok ruleSet →
      ruleSet.evaluate .standard = .ok store → store.IsFinite := by
    intro other otherStore alsoCompiled alsoOk
    obtain rfl := Except.ok.inj (compiled.symm.trans alsoCompiled)
    obtain rfl := Except.ok.inj (isOk.symm.trans alsoOk)
    exact of_decide_eq_true (Except.ok.inj evaluated)
  exact ⟨succeeds, finite, runIn_output rfl rfl succeeds finite ⟨[], []⟩⟩

end CommandLine

end Datalog
