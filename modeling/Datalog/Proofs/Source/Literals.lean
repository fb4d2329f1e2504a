import Datalog.Proofs.Number.Text
import Datalog.Proofs.Source.Syntax
import Datalog.Proofs.Value.Comparison
import Datalog.Value.Printer

/-!
# Literals of values

The text of a value denotes it, for every value that some literal denotes
(`Denotes.text`) and for every other representation of such a value (`Denotes.text_of_beq`).
Infinities are left out: they come from decimals beyond the largest number but are not
written as such.
-/

namespace Datalog

/-- A value is one of the two infinite numbers. -/
def Value.IsInfinite : Value → Prop
  | float number => number.isInfinite = true
  | _ => False

instance (value : Value) : Decidable value.IsInfinite :=
  match value with
  | .float number => inferInstanceAs (Decidable (number.isInfinite = true))
  | .null | .bool _ | .int _ | .string _ | .keyword _ => isFalse id

namespace Source

/-- The body that is written for a string stands for it. -/
theorem quotes_escape (text : List Char) : Quotes (Text.Quoted.escape text) text := by
  induction text with
  | nil => exact .nil
  | cons char text inductionHypothesis =>
      rw [Text.Quoted.escape_cons]
      unfold Text.Quoted.escapeChar
      split
      next => exact .escape .backslash inductionHypothesis
      next => exact .escape .quote inductionHypothesis
      next => exact .escape .lineFeed inductionHypothesis
      next => exact .escape .tab inductionHypothesis
      next noBackslash noQuote _ _ => exact .plain noQuote noBackslash inductionHypothesis

/-- The digits of a natural number. -/
theorem isDigits_toDigits (number : Nat) : IsDigits (Nat.toDigits 10 number) :=
  ⟨Nat.toDigits_ne_nil, fun _ => Nat.isDigit_of_mem_toDigits (by decide) (by decide)⟩

/-- The digits of an integer denote it. -/
theorem denotes_int (integer : Int64) :
    Denotes (Value.int integer).text.toList (.int integer) := by
  rw [Value.text, Int.toString_eq_repr, Int.repr_eq_if]
  have value := @Nat.ofDigitChars_ten_toDigits
  split
  next notNegative =>
    rw [Nat.repr_eq_ofList_toDigits, String.toList_ofList, ← List.nil_append (Nat.toDigits 10 _)]
    refine .integer .none (isDigits_toDigits _) ?_
    rw [Parser.signed, Parser.digitsValue, value]
    exact (Int.toNat_of_nonneg notNegative).symm
  next isNegative =>
    rw [Nat.repr_eq_ofList_toDigits, String.toList_append, String.toList_ofList,
      String.toList_ofList]
    refine .integer .minus (isDigits_toDigits _) ?_
    rw [Parser.signed, Parser.digitsValue, value]
    change integer.toInt = -((-integer.toInt).toNat : Int)
    omega

/-- The text of a finite number denotes it. -/
theorem denotes_float {number : Binary64} (finite : number.isFinite = true) :
    Denotes (Value.float number).text.toList (.float number) := by
  obtain ⟨whole, fraction, decimal, spells, isText, isNearest⟩ := Binary64.exists_toList_text finite
  have isSign : IsSign number.signChars ∧ (!number.signChars.isEmpty) = number.isNegative := by
    rw [Binary64.signChars]
    cases number.isNegative
    · exact ⟨.none, rfl⟩
    · exact ⟨.minus, rfl⟩
  rw [Value.text, isText, ← List.append_nil (_ ++ fraction)]
  refine .float isSign.1 ⟨spells.nonempty.1, spells.wholeDigits⟩
    ⟨spells.nonempty.2, spells.fractionDigits⟩ .none ?_
  rw [isSign.2]
  exact isNearest

/-- No literal denotes a NaN. -/
theorem Denotes.not_unordered {lexeme : List Char} {value : Value}
    (denotes : Denotes lexeme value) : ¬ value.Unordered := by
  intro isNaN
  cases denotes with
  | integer => exact Value.not_unordered_int _ isNaN
  | float _ _ _ _ isNearest =>
      have isFloatNaN := NumberLine.ofFloat_eq_nan_iff.1 (Option.some.inj isNaN)
      exact Nat.not_lt_of_le isNearest.magnitude.inRange (of_decide_eq_true isFloatNaN)
  | null => cases isNaN
  | truth => cases isNaN
  | falsehood => cases isNaN
  | string => cases isNaN
  | keyword => cases isNaN

/-- The text of a value denotes it if a literal denotes an equal value, unless it is
infinite. -/
theorem Denotes.text_of_beq {lexeme : List Char} {constant value : Value}
    (denotes : Denotes lexeme constant) (equal : (constant == value) = true)
    (finite : ¬ value.IsInfinite) : Denotes value.text.toList value := by
  have sameKind := Value.kind_congr equal
  cases value with
  | null => exact .null
  | bool truth =>
      cases truth
      · exact .falsehood
      · exact .truth
  | int integer => exact denotes_int integer
  | float number =>
      refine denotes_float (Binary64.isFinite_iff.2 ⟨?_, Bool.eq_false_iff.2 finite⟩)
      refine Bool.eq_false_iff.2 fun isNaN => denotes.not_unordered ?_
      refine (Value.unordered_congr equal).2 ?_
      exact congrArg some (NumberLine.ofFloat_eq_nan_iff.2 isNaN)
  | string text =>
      have denoted := Denotes.string (quotes_escape text.toList)
      rw [String.ofList_toList] at denoted
      rwa [Value.text, Text.Quoted.encode, String.toList_ofList]
  | keyword name =>
      -- A keyword is written in one way only, so the constant is this keyword.
      cases denotes with
      | keyword isName =>
          have sameName := Value.keyword.inj (Canonical.beq_iff.1 equal)
          rw [← sameName, Value.text, String.toList_append, String.toList_ofList,
            String.toList_ofList]
          exact .keyword isName
      | _ => cases sameKind

/-- The text of a value denotes it, unless it is infinite. -/
theorem Denotes.text {lexeme : List Char} {value : Value} (denotes : Denotes lexeme value)
    (finite : ¬ value.IsInfinite) : Denotes value.text.toList value :=
  denotes.text_of_beq BEq.rfl finite

end Source

end Datalog
