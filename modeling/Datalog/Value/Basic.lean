import Datalog.Number.Comparison
import Datalog.Value.Canonical

/-!
# Values

A `Value` is a constant of the language. Numbers are one kind whether they are written as
integers or as floats, so `==` is equality by value: `1 == 1.0`, `0.0 == -0.0` and every NaN
equals every other.
-/

namespace Datalog

/-- A constant. A keyword is a name that stands for itself. -/
inductive Value where
  | null
  | bool (truth : Bool)
  | int (integer : Int64)
  | float (number : Binary64)
  | string (text : String)
  | keyword (name : String)
  deriving DecidableEq, Inhabited

/-- What a value is; integers and floats are both numbers. -/
inductive Kind where
  | null
  | bool
  | number
  | string
  | keyword
  deriving DecidableEq

/-- The place of a kind in the order of all values. -/
def Kind.rank : Kind → Nat
  | null => 0
  | bool => 1
  | number => 2
  | string => 3
  | keyword => 4

namespace Value

/-- The kind of a value. -/
def kind : Value → Kind
  | null => .null
  | bool _ => .bool
  | int _ => .number
  | float _ => .number
  | string _ => .string
  | keyword _ => .keyword

/-- The name of a value's representation. -/
def typeName : Value → String
  | null => "null"
  | bool _ => "bool"
  | int _ => "int"
  | float _ => "float"
  | string _ => "string"
  | keyword _ => "keyword"

/-- A float equal to a 64-bit integer is represented by that integer, and every NaN by the
same one. -/
instance : Canonical Value where
  canonical
    | float number =>
        match number.toInt64? with
        | some integer => int integer
        | none => if number.isNaN then float Binary64.nan else float number
    | value => value

/-- A value feeds the place of its kind and then its content; a float that is an integer feeds
what this integer does. -/
instance : HashFeed Value where
  feed value := .byte value.kind.rank.toUInt8 :: match value with
    | null => []
    | bool truth => [.byte truth.toUInt8]
    | int integer => [.integer integer]
    | float number =>
        match number.toInt64? with
        | some integer => [.integer integer]
        | none => [.word number.normalized.bits]
    | string text => [.text text]
    | keyword name => [.text name]
  feed_canonical value := by
    cases value with
    | float number =>
        simp only [canonical]
        cases isInteger : number.toInt64? with
        | some integer => simp [kind]
        | none =>
            cases isNaN : number.isNaN with
            | false => simp [kind, isInteger]
            | true =>
                have noInteger : Binary64.nan.toInt64? = none := by decide
                have same : Binary64.nan.normalized = number.normalized := by
                  rw [Binary64.normalized_of_isNaN isNaN]
                  exact Binary64.normalized_of_isNaN (by decide)
                simp [kind, noInteger, same]
    | _ => rfl

end Value

end Datalog
