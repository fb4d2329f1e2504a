import Datalog.Proofs.Evaluation.Extension
import Datalog.Proofs.Evaluation.Join
import Datalog.Proofs.RuleSet.Check

/-!
# Matches of safe rules

The check of a rule set looks at the variables of its rules before any fact is known. It
makes sure that a match of the positive atoms gives a value to whatever else needs one.
`Rule.Settled` says what this means for one match, `RuleSet.neverStuck_of_check` that all
matches of checked rules are settled, whatever the store holds and the atoms read of it.
-/

namespace Datalog

section Values

variable {bindings : Bindings}

/-- A term whose variable is bound has a value unless it is a wildcard. -/
theorem Term.resolve?_eq_none_iff {term : Term}
    (bound : ∀ name, term.var? = some name → bindings.Bound name) :
    term.resolve? bindings = none ↔ ∃ name, term = .wildcard name := by
  cases term with
  | wildcard name => exact ⟨fun _ => ⟨name, rfl⟩, fun _ => rfl⟩
  | constant value => simp [resolve?]
  | var name =>
      obtain ⟨value, isBound⟩ := bound name rfl
      simp [resolve?, isBound]

/-- An atom whose variables are bound denotes a fact unless it has a wildcard. -/
theorem Atom.ground?_eq_none_iff {atom : Atom}
    (bound : ∀ name ∈ atom.variables, bindings.Bound name) :
    atom.ground? bindings = none ↔ ∃ name, .wildcard name ∈ atom.terms := by
  have unresolved : ∀ term ∈ atom.terms,
      (term.resolve? bindings = none ↔ ∃ name, term = .wildcard name) := fun term member =>
    Term.resolve?_eq_none_iff fun name isVar =>
      bound name (List.mem_filterMap.2 ⟨term, member, isVar⟩)
  rw [ground?, Option.map_eq_none_iff, mapM_eq_none_iff]
  constructor
  · rintro ⟨term, member, isNone⟩
    obtain ⟨name, rfl⟩ := (unresolved term member).1 isNone
    exact ⟨name, member⟩
  · rintro ⟨name, member⟩
    exact ⟨_, member, rfl⟩

end Values

namespace Rule

variable {rule : Rule} {store : FactStore} {bindings : Bindings}

/-- A match of the positive atoms of a rule leaves nothing open in the rest of the rule. -/
structure Settled (rule : Rule) (bindings : Bindings) : Prop where
  /-- The variables of the positive atoms are bound, once each, in the order in which the atoms
  mention them. -/
  names_eq : bindings.names = (rule.positive.flatMap Atom.variables).eraseDups
  /-- These are the variables that the check takes to be bound. -/
  mem_names_iff : ∀ name, name ∈ bindings.names ↔ rule.boundVariables.contains name = true
  /-- The head denotes a fact. -/
  head : ∃ fact, rule.head.ground? bindings = some fact
  /-- The left operand of a constraint has a value. -/
  left : ∀ constraint ∈ rule.constraints, ∃ value, bindings.get? constraint.left = some value
  /-- So has the right one, unless it is a wildcard. -/
  right : ∀ constraint ∈ rule.constraints,
    constraint.right.resolve? bindings = none ↔ ∃ name, constraint.right = .wildcard name
  /-- A negated atom denotes a fact unless it has a wildcard. -/
  negative : ∀ atom ∈ rule.negative,
    atom.ground? bindings = none ↔ ∃ name, .wildcard name ∈ atom.terms

/-- Matches of the positive atoms bind their variables, once each. -/
theorem names_eq_of_unifyAt {combination : List Nat}
    (unified : unifyAt store rule.positive combination ∅ = some bindings) :
    bindings.names = (rule.positive.flatMap Atom.variables).eraseDups := by
  obtain ⟨facts, _, unifies⟩ := exists_unifiesAll_of_unifyAt unified
  obtain ⟨gained, gains⟩ := unifies.exists_gains
  have allNew : ∀ name ∈ (rule.positive.flatMap AtomOf.terms).filterMap Term.var?,
      ((∅ : Bindings).get? name).isNone = true := fun _ _ => rfl
  have pairs : bindings.pairs = gained := gains.pairs_eq
  rw [Bindings.names, pairs, gains.names_eq, List.filter_eq_self.2 allNew,
    List.filterMap_flatMap]
  rfl

/-- A match of the positive atoms of a safe rule settles the rest of it. -/
theorem settled_of_unifyAt (safe : rule.Safe) {combination : List Nat}
    (unified : unifyAt store rule.positive combination ∅ = some bindings) :
    rule.Settled bindings := by
  have names := names_eq_of_unifyAt unified
  obtain ⟨inHead, inNegative, inConstraints⟩ := forall_demands_iff.1 (bound_of_safe safe unified)
  constructor
  · exact names
  · intro name
    rw [names, List.mem_eraseDups, contains_boundVariables, List.mem_flatMap]
  · obtain ⟨fact, isFact, _⟩ := HeadAtom.exists_ground? bindings.agrees_valuation inHead
    exact ⟨fact, isFact⟩
  · intro constraint member
    exact inConstraints constraint member _ List.mem_cons_self
  · intro constraint member
    refine Term.resolve?_eq_none_iff fun name isVar => inConstraints constraint member name ?_
    exact List.mem_cons_of_mem _ (Option.mem_toList.2 isVar)
  · intro atom member
    exact Atom.ground?_eq_none_iff (inNegative atom member)

/-- Joins of a rule find settled matches only, so they never meet a head without values. -/
structure NeverStuck (rule : Rule) (store : FactStore) (spans : Nat → String → Span) :
    Prop where
  settled : ∀ bindings ∈ joinAtoms store spans 0 rule.positive [∅], rule.Settled bindings
  /-- Each match that is admitted derives a head; none is skipped. -/
  heads : List.Forall₂ (fun bindings head => rule.head.ground? bindings = some head)
    ((joinAtoms store spans 0 rule.positive [∅]).filter (rule.admits store))
    (rule.join store spans)

/-- A safe rule is never stuck. -/
theorem neverStuck_of_safe (safe : rule.Safe) (store : FactStore)
    (spans : Nat → String → Span) : rule.NeverStuck store spans := by
  have settled : ∀ bindings ∈ joinAtoms store spans 0 rule.positive [∅],
      rule.Settled bindings := by
    intro bindings found
    rw [joinAtoms_eq, List.flatMap_singleton, List.mem_filterMap] at found
    obtain ⟨combination, _, unified⟩ := found
    exact settled_of_unifyAt safe unified
  refine ⟨settled, ?_⟩
  have derived := forall₂_filterMap (fun bindings =>
    if rule.admits store bindings then rule.head.ground? bindings else none)
    (joinAtoms store spans 0 rule.positive [∅])
  have derives : (joinAtoms store spans 0 rule.positive [∅]).filter (fun bindings =>
      (if rule.admits store bindings then rule.head.ground? bindings else none).isSome) =
      (joinAtoms store spans 0 rule.positive [∅]).filter (rule.admits store) := by
    refine List.filter_congr fun bindings found => ?_
    obtain ⟨fact, isGround⟩ := (settled bindings found).head
    cases rule.admits store bindings <;> simp [isGround]
  rw [derives] at derived
  refine derived.imp fun bindings head => ?_
  rintro ⟨_, isHead⟩
  exact (Option.ite_none_right_eq_some.1 isHead).2

end Rule

namespace RuleSet

/-- No rule of a checked rule set is ever stuck. -/
theorem neverStuck_of_check {ruleSet : RuleSet} (checked : ruleSet.check = .ok ()) :
    ∀ rule ∈ ruleSet.rules.toList, ∀ store spans, rule.NeverStuck store spans :=
  fun rule member => rule.neverStuck_of_safe ((check_eq_ok_iff.1 checked).safe rule member)

/-- The rule `elder(X) :- parent(child: Y, parent: X), age(X, A), not hidden(X, _), A > 60.` -/
def elder : Rule where
  head := ⟨"elder", .ordered [.var "X"]⟩
  positive := [⟨"parent", .named ⟨[("child", .var "Y"), ("parent", .var "X")], by decide⟩⟩,
    ⟨"age", .ordered [.var "X", .var "A"]⟩]
  negative := [⟨"hidden", .ordered [.var "X", .wildcard "_"]⟩]
  constraints := [⟨"A", .greater, .constant (.int 60)⟩]

/-- Of a family in which `2` is a child of `1`, the rule finds the one match and settles it. -/
theorem neverStuck_elder :
    let ruleSet := ((∅ : RuleSet).addRule elder).1
    let store := (FactStore.withShapes ∅).addMany
      [⟨"parent", [.int 2, .int 1]⟩, ⟨"age", [.int 1, .int 70]⟩, ⟨"age", [.int 2, .int 40]⟩]
    let spans : Nat → String → Span := fun _ _ => ⟨0, 2⟩
    ruleSet.check = .ok () ∧ ruleSet.rules.toList = [elder] ∧
      joinAtoms store spans 0 elder.positive [∅] =
        [⟨[("Y", .int 2), ("X", .int 1), ("A", .int 70)]⟩] ∧
      elder.NeverStuck store spans := by
  intro ruleSet store spans
  have checked : ruleSet.check = .ok () := by decide +kernel
  have rules : ruleSet.rules.toList = [elder] := by decide +kernel
  have member : elder ∈ ruleSet.rules.toList := rules ▸ List.mem_singleton_self elder
  exact ⟨checked, rules, by decide +kernel,
    neverStuck_of_check checked elder member store spans⟩

end RuleSet

end Datalog
