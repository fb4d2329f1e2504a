import Datalog.Number.Decimal
import Datalog.Text.Quoted
import Datalog.Value.Basic

/-!
# Text of values

A value prints as the literal that denotes it: strings quoted, keywords behind a colon,
floats always with a point so that they do not read back as integers. Infinities and NaN
have no literal; they print as names.
-/

namespace Datalog.Value

/-- The literal of a value. -/
def text : Value → String
  | null => "null"
  | bool true => "true"
  | bool false => "false"
  | int integer => toString integer.toInt
  | float number => number.text
  | string text => Text.Quoted.encode text
  | keyword name => ":" ++ name

end Datalog.Value
