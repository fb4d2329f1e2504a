import Datalog.Proofs.Evaluation.Similarity
import Datalog.Proofs.RuleSet.Check

/-!
# Evaluation respects equality

Equal rule sets differ in the order of their facts, rules and bodies and in how terms are
written. Their definitions are the same (`sameDefinitions`) and therefore similar, so they are
stratified together and have the same model. `evaluate_congr` concludes that they evaluate
alike under any limits.
-/

namespace Datalog

namespace RuleSet

variable {left right : RuleSet} {limits : Limits} {stratification : Stratification}

/-- Equal rule sets define all relations alike. -/
theorem sameDefinitions (equal : (left == right) = true) :
    SameDefinitions (fun _ => True) left right where
  stated _ _ := by rw [statedFacts_congr equal]
  forth _ member _ := exists_rule equal member
  back _ member _ := by
    obtain ⟨other, inLeft, same⟩ := exists_rule (beq_symm equal) member
    exact ⟨other, inLeft, same⟩
  closed _ _ _ _ _ := trivial

/-- Rule sets that equal a stratifiable one are stratifiable. -/
theorem exists_stratify_congr (equal : (left == right) = true)
    (accepted : stratify left = .ok stratification) :
    ∃ otherStratification, stratify right = .ok otherStratification :=
  (sameDefinitions equal).similar.exists_stratify accepted

/-- A rule set is evaluated successfully if an equal one is, with the same facts. -/
theorem exists_evaluate_congr (equal : (left == right) = true) {store : FactStore}
    (isOk : left.evaluate limits = .ok store) :
    ∃ otherStore, right.evaluate limits = .ok otherStore ∧ store.SameContent otherStore := by
  obtain ⟨checked, _⟩ := evaluate_eq_ok_iff.1 isOk
  have otherChecked := check_eq_ok_iff.2 ((check_eq_ok_iff.1 checked).congr equal)
  exact (sameDefinitions equal).similar.exists_evaluate otherChecked isOk

/-- Equal rule sets evaluate alike: under any limits either both evaluations fail or both
stores list equal facts, and equally many of each relation. -/
theorem evaluate_congr (equal : (left == right) = true) (limits : Limits) :
    Alike FactStore.SameContent (left.evaluate limits) (right.evaluate limits) := by
  apply Alike.of_forall
  · exact fun store isOk => exists_evaluate_congr equal isOk
  · intro otherStore isOk
    obtain ⟨store, isOk, _⟩ := exists_evaluate_congr (beq_symm equal) isOk
    exact ⟨store, isOk⟩

end RuleSet

/-- `parity` written differently: facts, rules and bodies in another order, and other numbers
for the same values. -/
def rearrangedParity : RuleSet :=
  let facts : List Fact := [⟨"succ", [.int 1, .float ⟨0x4000000000000000⟩]⟩,
    ⟨"even", [.float ⟨0x8000000000000000⟩]⟩, ⟨"succ", [.int 0, .int 1]⟩]
  let step : Atom := ⟨"succ", .ordered [.var "Y", .var "X"]⟩
  let rules : List Rule := [
    ⟨⟨"pure", .ordered [.var "X"]⟩, [⟨"even", .ordered [.var "X"]⟩],
      [⟨"odd", .ordered [.var "X"]⟩], []⟩,
    ⟨⟨"even", .ordered [.var "X"]⟩, [step, ⟨"odd", .ordered [.var "Y"]⟩], [], []⟩,
    ⟨⟨"odd", .ordered [.var "X"]⟩, [step, ⟨"even", .ordered [.var "Y"]⟩], [], []⟩]
  rules.foldl (fun set rule => (set.addRule rule).1) (RuleSet.empty.withFacts facts)

/-- Rearranging `parity` changes neither its facts nor their number. -/
theorem alike_rearrangedParity :
    (parity == rearrangedParity) = true ∧ (parity.evaluate .standard).isOk = true ∧
      Alike FactStore.SameContent (parity.evaluate .standard)
        (rearrangedParity.evaluate .standard) := by
  have equal : (parity == rearrangedParity) = true := by decide +kernel
  exact ⟨equal, by decide +kernel, RuleSet.evaluate_congr equal .standard⟩

end Datalog
