import Std.Data.HashSet.Lemmas
import Datalog.Proofs.Evaluation.Extension
import Datalog.Proofs.Evaluation.Join

/-!
# Looking a negated atom up

A negated atom without wildcards denotes one fact, which is looked up by its hash. The other
negated atoms are compared with the facts of their relation one by one, which would serve for
all of them. `FactStore.lookupAgrees` says that this never changes an answer: an atom that
denotes a fact can be matched with a stored fact exactly if the fact is in the store, in
whatever representation it was stored. Both are the same question about the content of the
store, which `Atom.isMatchedByScan_iff` and `FactStore.contains_iff_of_ground?` answer.
-/

namespace Datalog

/-- Facts are hashed by a digest of what they feed to a hasher. -/
abbrev Fact.hashedBy (digest : Feed → UInt64) : Hashable Fact where
  hash fact := digest (feed fact)

/-- Equal facts have one hash, whatever the digest. -/
theorem Fact.lawfulHashable_hashedBy (digest : Feed → UInt64) :
    @LawfulHashable Fact _ (hashedBy digest) :=
  @LawfulHashable.mk Fact _ (hashedBy digest) fun _ _ equal =>
    congrArg digest (HashFeed.feed_congr equal)

/-- The facts of a relation in a hash table. -/
def FactStore.tableOf (digest : Feed → UInt64) (store : FactStore) (relation : String) :
    @Std.HashSet Fact _ (Fact.hashedBy digest) :=
  letI := Fact.hashedBy digest
  .ofList (store.factsOf relation).toList

/-- Whether some stored fact matches a negated atom, found out by comparing each of them. -/
def Atom.isMatchedByScan (atom : Atom) (store : FactStore) (bindings : Bindings) : Bool :=
  (store.factsOf atom.relation).toList.any fun fact => (atom.unify fact bindings).isSome

namespace Rule

/-- Whether no negated atom and no constraint refuses a match, without lookups. -/
def admitsByScan (rule : Rule) (store : FactStore) (bindings : Bindings) : Bool :=
  !(rule.negative.any fun atom => atom.isMatchedByScan store bindings) &&
    rule.constraints.all fun constraint => constraint.holds bindings

/-- The heads derived from the matches within spans, without lookups. -/
def joinByScan (rule : Rule) (store : FactStore) (spans : Nat → String → Span) : List Fact :=
  (joinAtoms store spans 0 rule.positive [∅]).filterMap fun bindings =>
    if rule.admitsByScan store bindings then rule.head.ground? bindings else none

end Rule

section Content

variable {store : FactStore} {bindings : Bindings} {atom : Atom}

/-- A hash table has what its relation lists, up to representation. -/
theorem FactStore.contains_tableOf (digest : Feed → UInt64) (fact : Fact) :
    letI := Fact.hashedBy digest
    (store.tableOf digest fact.relation).contains fact = store.contains fact := by
  let := Fact.hashedBy digest
  have := Fact.lawfulHashable_hashedBy digest
  rw [tableOf, Std.HashSet.contains_ofList, Bool.eq_iff_iff, List.contains_iff_exists_mem_beq]
  change _ ↔ fact ∈ store.facts
  simp only [mem_facts_iff, Array.mem_toList_iff, BEq.comm (a := fact)]

/-- A scan finds an atom matched if some valuation that agrees with the bindings makes it match
a fact of the store. -/
theorem Atom.isMatchedByScan_iff :
    atom.isMatchedByScan store bindings = true ↔
      ∃ valuation, bindings.Agrees valuation ∧
        ∃ fact ∈ store.facts, atom.Matches valuation fact := by
  simp only [isMatchedByScan, List.any_eq_true, Array.mem_toList_iff,
    Bindings.isSome_unify_iff_exists, ← exists_matches_iff]
  constructor
  · rintro ⟨fact, isStored, valuation, agrees, isMatch⟩
    exact ⟨valuation, agrees, fact, isStored, isMatch⟩
  · rintro ⟨valuation, agrees, fact, isStored, isMatch⟩
    exact ⟨fact, isStored, valuation, agrees, isMatch⟩

/-- The fact that an atom denotes is in a store if some valuation that agrees with the bindings
makes the atom match a fact of the store. -/
theorem FactStore.contains_iff_of_ground? {ground : Fact}
    (isGround : atom.ground? bindings = some ground) :
    store.contains ground = true ↔
      ∃ valuation, bindings.Agrees valuation ∧
        ∃ fact ∈ store.facts, atom.Matches valuation fact := by
  constructor
  · intro present
    have agrees := bindings.agrees_valuation
    exact ⟨bindings.valuation, agrees, ground, present,
      (Atom.matches_iff_of_ground? agrees isGround).2 BEq.rfl⟩
  · rintro ⟨valuation, agrees, fact, member, isMatch⟩
    have equal := (Atom.matches_iff_of_ground? agrees isGround).1 isMatch
    exact mem_facts_congr (BEq.symm equal) member

/-- Looking an atom up or scanning for it gives the same answer. -/
theorem Atom.isMatched_eq_isMatchedByScan (atom : Atom) (store : FactStore)
    (bindings : Bindings) :
    atom.isMatched store bindings = atom.isMatchedByScan store bindings := by
  rw [isMatched]
  cases isGround : atom.ground? bindings with
  | none => rfl
  | some ground =>
      exact Bool.eq_iff_iff.2
        ((FactStore.contains_iff_of_ground? isGround).trans isMatchedByScan_iff.symm)

end Content

/-- Rules admit the same matches without lookups. -/
theorem Rule.admits_eq_admitsByScan (rule : Rule) (store : FactStore) (bindings : Bindings) :
    rule.admits store bindings = rule.admitsByScan store bindings := by
  simp only [admits, admitsByScan, Atom.isMatched_eq_isMatchedByScan]

namespace FactStore

/-- Lookups in a store answer what a scan of it answers. -/
structure LookupAgrees (store : FactStore) : Prop where
  /-- A hash table of the stored facts has the facts of the store, whatever the hash. -/
  contains_tableOf : ∀ (digest : Feed → UInt64) (fact : Fact),
    letI := Fact.hashedBy digest
    (store.tableOf digest fact.relation).contains fact = store.contains fact
  /-- The fact that an atom denotes is found if the atom can be matched with a stored one. -/
  contains_iff_exists_unify : ∀ (atom : Atom) (bindings : Bindings) ground,
    atom.ground? bindings = some ground →
      (store.contains ground = true ↔
        ∃ fact ∈ store.factsOf atom.relation, ∃ extended, atom.unify fact bindings = some extended)
  /-- No representation counts: stores with the same content refute the same. -/
  isMatched_congr : ∀ other : FactStore, other.facts = store.facts →
    ∀ (atom : Atom) bindings, atom.isMatched other bindings = atom.isMatched store bindings
  /-- A scan refutes what a lookup refutes. -/
  isMatched_eq : ∀ (atom : Atom) bindings,
    atom.isMatched store bindings = atom.isMatchedByScan store bindings
  /-- A rule admits the same matches without lookups. -/
  admits_eq : ∀ (rule : Rule) bindings,
    rule.admits store bindings = rule.admitsByScan store bindings
  /-- A join derives the same heads in the same order without lookups. -/
  join_eq : ∀ (rule : Rule) spans, rule.join store spans = rule.joinByScan store spans

/-- Lookups in any store answer what a scan of it answers. -/
theorem lookupAgrees (store : FactStore) : store.LookupAgrees where
  contains_tableOf := store.contains_tableOf
  contains_iff_exists_unify atom bindings ground isGround := by
    rw [contains_iff_of_ground? isGround, ← Atom.isMatchedByScan_iff, Atom.isMatchedByScan]
    simp only [List.any_eq_true, Array.mem_toList_iff, Option.isSome_iff_exists]
  isMatched_congr other sameFacts atom bindings := by
    rw [Atom.isMatched_eq_isMatchedByScan, Atom.isMatched_eq_isMatchedByScan, Bool.eq_iff_iff,
      Atom.isMatchedByScan_iff, Atom.isMatchedByScan_iff, sameFacts]
  isMatched_eq atom bindings := atom.isMatched_eq_isMatchedByScan store bindings
  admits_eq rule bindings := rule.admits_eq_admitsByScan store bindings
  join_eq rule spans := by
    simp only [Rule.join, Rule.joinByScan, Rule.admits_eq_admitsByScan]

/-- `seen(1.0, 1)` is stored, and `seen(X, X)` is found by either way when `X` is `1`. -/
example :
    let atom : Atom := ⟨"seen", .ordered [.var "X", .var "X"]⟩
    let store := (withShapes ∅).addMany
      [⟨"seen", [.float ⟨0x3ff0000000000000⟩, .int 1]⟩, ⟨"seen", [.int 1, .int 2]⟩]
    let bindings : Bindings := ⟨[("X", .int 1)]⟩
    atom.ground? bindings = some ⟨"seen", [.int 1, .int 1]⟩ ∧
      atom.isMatched store bindings = true ∧ atom.isMatchedByScan store bindings = true := by
  decide +kernel

end FactStore

end Datalog
