import Mathlib.Data.List.TakeWhile
import Datalog.Proofs.Number.Decimal

/-!
# Decimals that read back

The text of a finite number spells a decimal that is rounded to this number again: whatever
the search for a short one finds reads back (`nearestToDecimal_shortestDecimal`), and digits
around a point spell the decimal that they are made from (`spellsDecimal_positional`).
-/

namespace Datalog.Binary64

variable {magnitude decimal : Nat}

/-- The exact decimal of a magnitude reads back. -/
theorem nearestToDecimal_exactDecimal (inRange : magnitude ≤ infinityMagnitude) :
    nearestToDecimal (exactDecimal magnitude) = magnitude := by
  have positive : 0 < 5 ^ decimalPlaces := Nat.pow_pos (by decide)
  rw [nearestToDecimal, exactDecimal]
  generalize 5 ^ decimalPlaces = factor at positive ⊢
  have exact := (isNearest_mul_iff positive).2 (isNearest_unitsOfMagnitude inRange)
  rw [Nat.one_mul] at exact
  exact (isNearest_iff positive).1 exact

/-- A neighbour that is chosen qualifies. -/
theorem qualifies_of_nearerNeighbour? {qualifies : Nat → Bool} {number below above : Nat}
    (isFound : nearerNeighbour? qualifies number below above = some decimal) :
    qualifies decimal = true := by
  unfold nearerNeighbour? at isFound
  split at isFound
  next isBelow isAbove =>
    split at isFound <;> cases isFound
    · exact isBelow
    · exact isAbove
  next isBelow _ =>
    cases isFound
    exact isBelow
  next _ isAbove =>
    cases isFound
    exact isAbove
  next => cases isFound

/-- A decimal that is chosen on a grid reads back. -/
theorem nearestToDecimal_of_shortestOnGrid? {step : Nat}
    (isFound : shortestOnGrid? magnitude step = some decimal) :
    nearestToDecimal decimal = magnitude := by
  unfold shortestOnGrid? at isFound
  extract_lets exact below at isFound
  clear_value below exact
  have qualifies := qualifies_of_nearerNeighbour? isFound
  exact beq_iff_eq.1 qualifies

/-- The decimal that a magnitude is written as reads back. -/
theorem nearestToDecimal_shortestDecimal (inRange : magnitude ≤ infinityMagnitude) :
    nearestToDecimal (shortestDecimal magnitude) = magnitude := by
  unfold shortestDecimal
  dsimp only
  generalize (Nat.toDigits 10 (exactDecimal magnitude)).length = digitCount
  cases isFound : (List.range 17).findSome? fun index =>
      shortestOnGrid? magnitude (10 ^ (digitCount - (index + 1))) with
  | none => exact nearestToDecimal_exactDecimal inRange
  | some decimal =>
      obtain ⟨index, _, isFound⟩ := List.exists_of_findSome?_eq_some isFound
      exact nearestToDecimal_of_shortestOnGrid? isFound

/-- Digits denote a number with no more digits than they are. -/
theorem ofDigitChars_lt {digits : List Char} (areDigits : ∀ char ∈ digits, char.isDigit = true) :
    Nat.ofDigitChars 10 digits 0 < 10 ^ digits.length := by
  induction digits with
  | nil => exact Nat.one_pos
  | cons first digits inductionHypothesis =>
      obtain ⟨isDigit, areDigits⟩ := List.forall_mem_cons.1 areDigits
      have others := inductionHypothesis areDigits
      have bound : first.toNat - '0'.toNat ≤ 9 := by
        have isLast : first.val ≤ '9'.val :=
          of_decide_eq_true (Bool.and_eq_true_iff.1 isDigit).2
        have code : first.toNat ≤ 57 := UInt32.le_iff_toNat_le.1 isLast
        have zero : '0'.toNat = 48 := rfl
        omega
      rw [Nat.ofDigitChars_cons, Nat.ofDigitChars_eq_ofDigitChars_zero, Nat.mul_zero, Nat.zero_add,
        List.length_cons, Nat.pow_succ]
      have product := Nat.mul_le_mul_left (10 ^ digits.length) bound
      omega

/-- Zeros behind digits are powers of ten. -/
theorem ofDigitChars_append_zeros (digits : List Char) (count : Nat) :
    Nat.ofDigitChars 10 (digits ++ List.replicate count '0') 0 =
      Nat.ofDigitChars 10 digits 0 * 10 ^ count := by
  rw [Nat.ofDigitChars_append, Nat.ofDigitChars_replicate_zero, Nat.mul_comm]

/-- A remainder with a leading one in front, without that one, has a digit for each place. -/
theorem padded_remainder {places remainder : Nat} (less : remainder < 10 ^ places) :
    let padded := (Nat.toDigits 10 (10 ^ places + remainder)).tail
    padded.length = places ∧ (∀ char ∈ padded, char.isDigit = true) ∧
      Nat.ofDigitChars 10 padded 0 = remainder := by
  have areDigits : ∀ char ∈ Nat.toDigits 10 (10 ^ places + remainder), char.isDigit = true :=
    fun _ => Nat.isDigit_of_mem_toDigits (by decide) (by decide)
  have value := @Nat.ofDigitChars_ten_toDigits (10 ^ places + remainder)
  have length : (Nat.toDigits 10 (10 ^ places + remainder)).length = places + 1 := by
    refine Nat.le_antisymm ?_ ?_
    · refine (Nat.length_toDigits_le_iff (by decide) (Nat.succ_pos _)).2 ?_
      rw [Nat.pow_succ]
      omega
    · rcases Nat.eq_zero_or_pos places with rfl | positive
      · exact Nat.length_toDigits_pos
      · by_contra isShort
        have bound := (Nat.length_toDigits_le_iff (by decide) positive).1
          (Nat.le_of_lt_succ (Nat.lt_of_not_le isShort))
        omega
  generalize Nat.toDigits 10 (10 ^ places + remainder) = written at areDigits value length ⊢
  obtain ⟨first, padded, rfl⟩ := List.exists_cons_of_length_eq_add_one length
  have isLength : padded.length = places := Nat.succ.inj length
  have areDigits := (List.forall_mem_cons.1 areDigits).2
  refine ⟨isLength, areDigits, ?_⟩
  have lessPadded := ofDigitChars_lt areDigits
  rw [Nat.ofDigitChars_cons, Nat.ofDigitChars_eq_ofDigitChars_zero, isLength] at value
  rw [isLength] at lessPadded
  have remainders := congrArg (· % 10 ^ places) value
  rwa [Nat.mul_add_mod, Nat.mod_eq_of_lt lessPadded, Nat.add_mod_left, Nat.mod_eq_of_lt less]
    at remainders

/-- Digits end with the zeros that are trimmed from them. -/
theorem eq_trimmed_append_zeros (digits : List Char) :
    digits = (digits.reverse.dropWhile (· == '0')).reverse ++
      List.replicate (digits.reverse.takeWhile (· == '0')).length '0' := by
  have zeros : digits.reverse.takeWhile (· == '0') =
      List.replicate (digits.reverse.takeWhile (· == '0')).length '0' :=
    List.eq_replicate_of_mem fun char member =>
      beq_iff_eq.1 (@List.mem_takeWhile_imp _ (· == '0') _ _ member)
  conv_lhs => rw [← digits.reverse_reverse,
    ← @List.takeWhile_append_dropWhile _ (· == '0') digits.reverse, List.reverse_append, zeros,
    List.reverse_replicate]

/-- Digits in front of a point and behind it spell a decimal. -/
structure SpellsDecimal (whole fraction : List Char) (decimal : Nat) : Prop where
  nonempty : whole ≠ [] ∧ fraction ≠ []
  wholeDigits : ∀ char ∈ whole, char.isDigit = true
  fractionDigits : ∀ char ∈ fraction, char.isDigit = true
  short : fraction.length ≤ decimalPlaces
  value : Nat.ofDigitChars 10 (whole ++ fraction) 0 * 10 ^ (decimalPlaces - fraction.length) =
    decimal

/-- The digits behind the point are some, no more than there are places, and spell the
remainder. -/
theorem fractionDigits_spec (decimal : Nat) :
    fractionDigits decimal ≠ [] ∧ (∀ char ∈ fractionDigits decimal, char.isDigit = true) ∧
      (fractionDigits decimal).length ≤ decimalPlaces ∧
      Nat.ofDigitChars 10 (fractionDigits decimal) 0 *
        10 ^ (decimalPlaces - (fractionDigits decimal).length) = decimal % 10 ^ decimalPlaces := by
  obtain ⟨length, areDigits, value⟩ := padded_remainder
    (Nat.mod_lt decimal (Nat.pow_pos (by decide) : 0 < 10 ^ decimalPlaces))
  have positive : 0 < decimalPlaces := by
    rw [decimalPlaces]
    decide
  unfold fractionDigits
  dsimp only
  generalize (Nat.toDigits 10 (10 ^ decimalPlaces + decimal % 10 ^ decimalPlaces)).tail = padded
    at length areDigits value ⊢
  generalize decimalPlaces = places at length value positive ⊢
  have isTrimmed := eq_trimmed_append_zeros padded
  generalize (padded.reverse.dropWhile (· == '0')).reverse = trimmed,
    (padded.reverse.takeWhile (· == '0')).length = count at isTrimmed ⊢
  subst isTrimmed
  rw [List.length_append, List.length_replicate] at length
  rw [ofDigitChars_append_zeros] at value
  split
  next =>
    refine ⟨List.cons_ne_nil _ _, List.forall_mem_singleton.2 rfl, positive, ?_⟩
    rw [← value]
    exact (Nat.zero_mul _).trans (Nat.zero_mul _).symm
  next nonempty =>
    have isCount : places - trimmed.length = count := by omega
    refine ⟨nonempty, fun char member => areDigits char (List.mem_append_left _ member), by omega,
      ?_⟩
    rw [isCount, value]

/-- The positional notation of a decimal spells it. -/
theorem spellsDecimal_positional (decimal : Nat) :
    SpellsDecimal (Nat.toDigits 10 (decimal / 10 ^ decimalPlaces)) (fractionDigits decimal)
      decimal := by
  obtain ⟨nonempty, areDigits, short, value⟩ := fractionDigits_spec decimal
  refine ⟨⟨Nat.toDigits_ne_nil, nonempty⟩,
    fun _ => Nat.isDigit_of_mem_toDigits (by decide) (by decide), areDigits, short, ?_⟩
  have powers : 10 ^ (fractionDigits decimal).length *
      10 ^ (decimalPlaces - (fractionDigits decimal).length) = 10 ^ decimalPlaces := by
    rw [← Nat.pow_add, Nat.add_sub_cancel' short]
  rw [Nat.ofDigitChars_append, Nat.ofDigitChars_ten_toDigits,
    Nat.ofDigitChars_eq_ofDigitChars_zero, Nat.add_mul, value, Nat.mul_right_comm, powers]
  exact Nat.div_add_mod decimal (10 ^ decimalPlaces)

/-- A decimal that is spelled with a point is rounded as the whole number of its places. -/
theorem SpellsDecimal.isNearest {whole fraction : List Char}
    (spells : SpellsDecimal whole fraction decimal) (reads : nearestToDecimal decimal = magnitude) :
    IsNearest (Nat.ofDigitChars 10 (whole ++ fraction) 0 * 2 ^ 1074) (10 ^ fraction.length)
      magnitude := by
  have isNearest := (isNearest_iff (Nat.pow_pos (by decide))).2 reads
  have positive : 0 < 2 ^ decimalPlaces := Nat.two_pow_pos _
  have tens : 5 ^ decimalPlaces * 2 ^ decimalPlaces = 10 ^ decimalPlaces :=
    (Nat.mul_pow 5 2 decimalPlaces).symm
  have powers : 10 ^ fraction.length * 10 ^ (decimalPlaces - fraction.length) =
      10 ^ decimalPlaces := by
    rw [← Nat.pow_add, Nat.add_sub_cancel' spells.short]
  have unit : 2 ^ 1074 = 2 ^ decimalPlaces := by rw [decimalPlaces]
  rw [unit]
  have isNearest := (isNearest_mul_iff positive).2 isNearest
  rw [tens, ← powers, ← spells.value, Nat.mul_right_comm] at isNearest
  exact (isNearest_mul_iff (Nat.pow_pos (by decide))).1 isNearest

/-- A number that a quotient of powers of ten is rounded to. -/
theorem isNearestDecimal_of_isNearest {number : Binary64} {digits places : Nat}
    (isNearest : IsNearest (digits * 2 ^ 1074) (10 ^ places) number.magnitude) :
    IsNearestDecimal number.isNegative digits (0 - places) number := by
  have exponent : (-((0 : Int) - places)).toNat = places := by omega
  have power : ((0 : Int) - places).toNat = 0 := by omega
  refine ⟨rfl, ?_⟩
  rw [exponent, power, Nat.pow_zero, Nat.mul_one]
  exact isNearest

/-- The sign of a number as it is written. -/
def signChars (number : Binary64) : List Char :=
  if number.isNegative then ['-'] else []

/-- The text of a finite number is a decimal with its sign. -/
theorem toList_text {number : Binary64} (finite : number.isFinite = true) :
    number.text.toList =
      number.signChars ++ positionalDigits (shortestDecimal number.magnitude) := by
  obtain ⟨notNaN, notInfinite⟩ := isFinite_iff.1 finite
  rw [text, if_neg (Bool.eq_false_iff.1 notNaN)]
  generalize positionalDigits (shortestDecimal number.magnitude) = digits
  dsimp only
  rw [if_neg (Bool.eq_false_iff.1 notInfinite), String.toList_ofList, signChars]
  cases number.isNegative
  · exact (List.nil_append digits).symm
  · exact (List.singleton_append).symm

/-- The text of a finite number has digits around a point, in a decimal that is rounded to the
number. -/
theorem exists_toList_text {number : Binary64} (finite : number.isFinite = true) :
    ∃ whole fraction decimal, SpellsDecimal whole fraction decimal ∧
      number.text.toList = number.signChars ++ whole ++ ['.'] ++ fraction ∧
      IsNearestDecimal number.isNegative (Nat.ofDigitChars 10 (whole ++ fraction) 0)
        (0 - fraction.length) number := by
  have inRange : number.magnitude ≤ infinityMagnitude := (of_decide_eq_true finite).le
  have reads := nearestToDecimal_shortestDecimal inRange
  have isText := toList_text finite
  generalize shortestDecimal number.magnitude = decimal at reads isText
  have spells := spellsDecimal_positional decimal
  refine ⟨_, _, decimal, spells, ?_, isNearestDecimal_of_isNearest (spells.isNearest reads)⟩
  rw [isText, positionalDigits, List.append_assoc, List.append_assoc, List.singleton_append]

end Datalog.Binary64
