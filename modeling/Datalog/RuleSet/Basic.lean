import Std.Data.TreeMap.Lemmas
import Datalog.Collection.OrderedSet
import Datalog.Rule.Basic

/-!
# Rule sets

A rule set holds explicit facts, rules and the shape of every relation. Equal facts and
equal rules are kept once, in order of insertion, under their first representation. A
relation has the shape of its first use; `RuleSet.fault?` says whether all later uses agree.
-/

namespace Datalog

/-- The explicit facts, the rules and the shapes of the relations of a program. -/
structure RuleSet where
  facts : OrderedSet Fact Fact.cmp
  rules : Array Rule
  shapes : Std.TreeMap String Shape
  distinct : rules.toList.Pairwise fun earlier later => (earlier == later) = false

namespace RuleSet

/-- The rule set without facts and rules. -/
def empty : RuleSet where
  facts := ∅
  rules := #[]
  shapes := ∅
  distinct := .nil

instance : EmptyCollection RuleSet := ⟨empty⟩

instance : Inhabited RuleSet := ⟨empty⟩

/-- The shape of a relation, once it has been used. -/
def shapeOf? (ruleSet : RuleSet) (relation : String) : Option Shape :=
  ruleSet.shapes[relation]?

/-- Give a shape to a relation that has none. -/
def declare (ruleSet : RuleSet) (relation : String) (shape : Shape) : RuleSet :=
  { ruleSet with shapes := ruleSet.shapes.insertIfNew relation shape }

/-- Add an explicit fact and say whether it was new. A relation without a shape becomes an
ordered one. -/
def addFact (ruleSet : RuleSet) (fact : Fact) : RuleSet × Bool :=
  let declared := ruleSet.declare fact.relation (.ordered fact.values.length)
  let (facts, isNew) := declared.facts.add fact
  ({ declared with facts }, isNew)

/-- Add a rule and say whether it was new. Relations without a shape take the one of their
first use in the rule. -/
def addRule (ruleSet : RuleSet) (rule : Rule) : RuleSet × Bool :=
  let declared := rule.usages.foldl (fun set usage => set.declare usage.1 usage.2) ruleSet
  if isNew : declared.rules.toList.any (· == rule) = false then
    let extended : RuleSet := { declared with
      rules := declared.rules.push rule
      distinct := by
        rw [Array.toList_push, List.pairwise_append]
        refine ⟨declared.distinct, List.pairwise_singleton .., ?_⟩
        intro earlier member last isLast
        rw [List.mem_singleton.1 isLast]
        exact Bool.eq_false_iff.2 (List.any_eq_false.1 isNew earlier member) }
    (extended, true)
  else (declared, false)

/-- The rule set with more explicit facts. -/
def withFacts (ruleSet : RuleSet) (facts : List Fact) : RuleSet :=
  facts.foldl (fun set fact => (set.addFact fact).1) ruleSet

/-- Rule sets are equal when they have the same facts and rules in any order and the same
shapes. -/
instance : BEq RuleSet where
  beq left right :=
    sameMembers left.facts.toList right.facts.toList &&
      sameMembers left.rules.toList right.rules.toList &&
      left.shapes.toList == right.shapes.toList

/-- What a rule set feeds to a hasher: its facts and its rules, each sorted by a key, and the
shapes of its relations. -/
def feedBy (key : Feed → UInt64) (ruleSet : RuleSet) : Feed :=
  feedMembers key feed ruleSet.facts.toList ++
    feedMembers key (Rule.feedBy key) ruleSet.rules.toList ++
    .size ruleSet.shapes.toList.length ::
      ruleSet.shapes.toList.flatMap fun entry => .text entry.1 :: entry.2.feed

instance : Hashable RuleSet where
  hash ruleSet := (ruleSet.feedBy Feed.digest).digest

end RuleSet

end Datalog
