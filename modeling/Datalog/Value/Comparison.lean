import Datalog.Value.Order

/-!
# Comparison operators

The six operators of constraints. Each is a set of outcomes of `Value.relate?`; values that
do not compare are different, and nothing else.
-/

namespace Datalog

/-- An operator between the two operands of a constraint. -/
inductive Comparison where
  | equal
  | notEqual
  | less
  | lessOrEqual
  | greater
  | greaterOrEqual
  deriving DecidableEq, Inhabited

namespace Comparison

/-- The operator a lexeme denotes; equality has two spellings. -/
def ofLexeme? : String → Option Comparison
  | "=" => some equal
  | "==" => some equal
  | "!=" => some notEqual
  | "<" => some less
  | "<=" => some lessOrEqual
  | ">" => some greater
  | ">=" => some greaterOrEqual
  | _ => none

/-- The lexeme an operator is printed with. -/
def symbol : Comparison → String
  | equal => "="
  | notEqual => "!="
  | less => "<"
  | lessOrEqual => "<="
  | greater => ">"
  | greaterOrEqual => ">="

/-- The place of an operator among the six. -/
def place : Comparison → Nat
  | equal => 0
  | notEqual => 1
  | less => 2
  | lessOrEqual => 3
  | greater => 4
  | greaterOrEqual => 5

/-- Whether an operator accepts the outcome of comparing its operands. -/
def accepts : Comparison → Option Ordering → Bool
  | notEqual, outcome => outcome != some .eq
  | _, none => false
  | equal, some outcome => outcome == .eq
  | less, some outcome => outcome == .lt
  | lessOrEqual, some outcome => outcome != .gt
  | greater, some outcome => outcome == .gt
  | greaterOrEqual, some outcome => outcome != .lt

/-- Every operator is read back from its symbol. -/
theorem ofLexeme?_symbol (comparison : Comparison) :
    ofLexeme? comparison.symbol = some comparison := by
  cases comparison <;> rfl

end Comparison

end Datalog
