import Datalog.Proofs.Source.Gaps
import Datalog.Proofs.Source.Syntax

/-!
# Lexemes are read

Each parser of a lexeme reads just the lexemes that the syntax describes, with the value that
they denote, up to a character that would go on with the lexeme.
-/

namespace Datalog.Source

/-- A text in which no name goes on. -/
def EndsName (rest : List Char) : Prop :=
  ∀ next ∈ rest.head?, Text.isNameChar next = false

/-- A text in which no digits go on. -/
def EndsDigits (rest : List Char) : Prop :=
  ∀ next ∈ rest.head?, next.isDigit = false

/-- A text in which no term goes on, neither with a name character nor as a float. -/
structure EndsTerm (rest : List Char) : Prop where
  name : EndsName rest
  point : ∀ next others, rest = '.' :: next :: others → next.isDigit = false

/-- A digit is a name character, but begins no name. -/
theorem isNameChar_of_isDigit {char : Char} (isDigit : char.isDigit = true) :
    Text.isNameChar char = true ∧ Text.isAlphabetic char = false := by
  have bounds : 48 ≤ char.toNat ∧ char.toNat ≤ 57 := by
    simpa [Char.isDigit, UInt32.le_iff_toNat_le] using isDigit
  have ascii : char.toNat < 128 := by omega
  constructor
  · simp [Text.isNameChar, Text.isNumeric, ascii, isDigit]
  · rw [Text.isAlphabetic, if_pos ascii, Bool.eq_false_iff]
    intro isAlpha
    have either : (char.isUpper || char.isLower) = true := isAlpha
    rcases Bool.or_eq_true_iff.1 either with capital | small
    · have range : char.val ≥ 'A'.val ∧ char.val ≤ 'Z'.val := of_decide_eq_true capital
      have first : 65 ≤ char.toNat := UInt32.le_iff_toNat_le.1 range.1
      omega
    · have range : (decide (char.val ≥ 'a'.val) && decide (char.val ≤ 'z'.val)) = true := small
      have atLeast : char.val ≥ 'a'.val := of_decide_eq_true (Bool.and_eq_true_iff.1 range).1
      have first : 97 ≤ char.toNat := UInt32.le_iff_toNat_le.1 atLeast
      omega

/-- Digits begin with a digit. -/
theorem IsDigits.isDigit_head {digits after : List Char} (areDigits : IsDigits digits)
    {next : Char} (isNext : next ∈ (digits ++ after).head?) : next.isDigit = true := by
  obtain ⟨digit, others, rfl⟩ := List.exists_cons_of_ne_nil areDigits.nonempty
  cases isNext
  exact areDigits.areDigits _ List.mem_cons_self

/-- A name consists of name characters. -/
theorem IsName.isNameChar {name : List Char} (isName : IsName name) :
    ∀ char ∈ name, Text.isNameChar char = true := by
  obtain ⟨isAlphabetic, areNameChars⟩ := isName
  refine List.forall_mem_cons.2 ⟨?_, areNameChars⟩
  rw [Text.isNameChar, isAlphabetic]
  rfl

/-- A literal is spelled as a name, or begins with no alphabetic character. -/
theorem Denotes.isName_or {lexeme : List Char} {value : Value} (denotes : Denotes lexeme value) :
    IsName lexeme ∨ ∀ next ∈ lexeme.head?, Text.isAlphabetic next = false := by
  have ofDigits {sign digits others : List Char} (isSign : IsSign sign)
      (areDigits : IsDigits digits) :
      ∀ next ∈ (sign ++ (digits ++ others)).head?, Text.isAlphabetic next = false := by
    cases isSign with
    | none => exact fun next isNext => (isNameChar_of_isDigit (areDigits.isDigit_head isNext)).2
    | minus => exact fun next isNext => Option.some.inj isNext ▸ by decide
  cases denotes with
  | null => exact .inl (.name (by decide) (by decide))
  | truth => exact .inl (.name (by decide) (by decide))
  | falsehood => exact .inl (.name (by decide) (by decide))
  | @integer sign digits _ isSign areDigits _ =>
      rw [← List.append_nil digits]
      exact .inr (ofDigits isSign areDigits)
  | float isSign isWhole _ _ _ =>
      simp only [List.append_assoc]
      exact .inr (ofDigits isSign isWhole)
  | string => exact .inr fun next isNext => Option.some.inj isNext ▸ by decide
  | keyword => exact .inr fun next isNext => Option.some.inj isNext ▸ by decide

/-- A term is spelled as a name, or begins with no alphabetic character. -/
theorem Term.WellFormed.isName_or {term : Term} (wellFormed : term.WellFormed) :
    IsName term.token.lexeme.toList ∨
      ∀ next ∈ term.token.lexeme.toList.head?, Text.isAlphabetic next = false := by
  cases wellFormed with
  | literal denotes => exact denotes.isName_or
  | identifier isName _ => exact .inl isName
  | @wildcard token isWildcard =>
      obtain ⟨first, others, isLexeme, isUnderscore⟩ := isWildcard.startsWith
      right
      rw [show (Term.wildcard token).token = token from rfl, isLexeme]
      exact fun next isNext =>
        Option.some.inj isNext ▸ (beq_iff_eq.1 isUnderscore).symm ▸ by decide

/-- Where no name goes on, no digits do. -/
theorem EndsName.digits {rest : List Char} (ends : EndsName rest) : EndsDigits rest := by
  intro next isNext
  by_contra isDigit
  have isNameChar := (isNameChar_of_isDigit (Bool.eq_true_of_not_eq_false isDigit)).1
  rw [ends next isNext] at isNameChar
  cases isNameChar

/-- An exponent does not go on with the digits before it. -/
theorem IsExponent.endsDigits {lexeme after : List Char} {power : Int}
    (isExponent : IsExponent lexeme power) (ends : EndsName after) :
    EndsDigits (lexeme ++ after) := by
  have noDigit {mark : Char} (isMark : mark = 'e' ∨ mark = 'E') : mark.isDigit = false := by
    rcases isMark with rfl | rfl <;> rfl
  cases isExponent with
  | none => exact ends.digits
  | unsigned isMark _ => exact fun _ isNext => Option.some.inj isNext ▸ noDigit isMark
  | plus isMark _ => exact fun _ isNext => Option.some.inj isNext ▸ noDigit isMark
  | minus isMark _ => exact fun _ isNext => Option.some.inj isNext ▸ noDigit isMark

namespace Parser

variable {cursor later : Cursor} {chars : List Char}

/-- Names are read. -/
theorem run_identifier_eq_ok_iff :
    identifier.run cursor = .ok (chars, later) ↔
      IsName chars ∧ cursor.Reads chars later ∧ EndsName later.rest := by
  constructor
  · intro isRead
    obtain ⟨first, middle, isFirst, isRead⟩ := run_bind_eq_ok_iff.1 isRead
    obtain ⟨others, last, areOthers, isRead⟩ := run_bind_eq_ok_iff.1 isRead
    obtain ⟨rfl, rfl⟩ := run_pure_eq_ok_iff.1 isRead
    obtain ⟨char, isAlphabetic, rfl, readsFirst⟩ := run_satisfy_eq_ok_iff.1 isFirst
    obtain ⟨readsOthers, areNameChars, ends⟩ := run_charsWhile_eq_ok_iff.1 areOthers
    exact ⟨.name isAlphabetic areNameChars, readsFirst.append readsOthers, ends⟩
  · rintro ⟨isName, reads, ends⟩
    obtain ⟨isAlphabetic, areNameChars⟩ := isName
    obtain ⟨middle, readsFirst, readsOthers⟩ := reads.exists_of_cons
    refine run_bind_eq_ok_iff.2 ⟨_, middle,
      run_satisfy_eq_ok_iff.2 ⟨_, isAlphabetic, rfl, readsFirst⟩, ?_⟩
    exact run_bind_eq_ok_iff.2 ⟨_, later,
      run_charsWhile_eq_ok_iff.2 ⟨readsOthers, areNameChars, ends⟩, rfl⟩

/-- A name is refused where no alphabetic character stands. -/
theorem refuses_identifier
    (noName : ∀ next ∈ cursor.rest.head?, Text.isAlphabetic next = false) :
    Refuses identifier cursor :=
  refuses_bind_iff.2 (.inl (refuses_satisfy_iff.2 noName))

/-- Wildcards are read. -/
theorem run_wildcard_eq_ok_iff :
    wildcard.run cursor = .ok (chars, later) ↔
      IsWildcard chars ∧ cursor.Reads chars later ∧ EndsName later.rest := by
  constructor
  · intro isRead
    obtain ⟨first, middle, isFirst, isRead⟩ := run_bind_eq_ok_iff.1 isRead
    obtain ⟨others, last, areOthers, isRead⟩ := run_bind_eq_ok_iff.1 isRead
    obtain ⟨rfl, rfl⟩ := run_pure_eq_ok_iff.1 isRead
    obtain ⟨rfl, readsFirst⟩ := run_char_eq_ok_iff.1 isFirst
    obtain ⟨readsOthers, areNameChars, ends⟩ := run_charsWhile_eq_ok_iff.1 areOthers
    exact ⟨.wildcard areNameChars, readsFirst.append readsOthers, ends⟩
  · rintro ⟨isWildcard, reads, ends⟩
    obtain ⟨areNameChars⟩ := isWildcard
    obtain ⟨middle, readsFirst, readsOthers⟩ := reads.exists_of_cons
    refine run_bind_eq_ok_iff.2 ⟨_, middle, run_char_eq_ok_iff.2 ⟨rfl, readsFirst⟩, ?_⟩
    exact run_bind_eq_ok_iff.2 ⟨_, later,
      run_charsWhile_eq_ok_iff.2 ⟨readsOthers, areNameChars, ends⟩, rfl⟩

/-- Digits are read. -/
theorem run_digits_eq_ok_iff :
    digits.run cursor = .ok (chars, later) ↔
      IsDigits chars ∧ cursor.Reads chars later ∧ EndsDigits later.rest := by
  rw [digits, run_someChars_eq_ok_iff, run_charsWhile_eq_ok_iff]
  constructor
  · rintro ⟨nonempty, reads, areDigits, ends⟩
    exact ⟨⟨nonempty, areDigits⟩, reads, ends⟩
  · rintro ⟨⟨nonempty, areDigits⟩, reads, ends⟩
    exact ⟨nonempty, reads, areDigits, ends⟩

/-- A sign is read, if there is one. -/
theorem run_sign_eq_ok_iff :
    sign.run cursor = .ok (chars, later) ↔
      IsSign chars ∧ cursor.Reads chars later ∧
        (chars = [] → cursor.rest.head? ≠ some '-') := by
  constructor
  · intro isRead
    obtain ⟨found, middle, isFound, isRead⟩ := run_bind_eq_ok_iff.1 isRead
    obtain ⟨rfl, rfl⟩ := run_pure_eq_ok_iff.1 isRead
    rcases run_optional_eq_ok_iff.1 isFound with ⟨lexeme, isMinus, rfl⟩ | ⟨refused, rfl, rfl⟩
    · obtain ⟨rfl, reads⟩ := run_char_eq_ok_iff.1 isMinus
      exact ⟨.minus, reads, fun isNone => by cases isNone⟩
    · exact ⟨.none, .nil _, fun _ => refuses_char_iff.1 refused⟩
  · rintro ⟨isSign, reads, noMinus⟩
    cases isSign with
    | none =>
        obtain rfl := reads.eq_skip
        refine run_bind_eq_ok_iff.2 ⟨none, _, run_optional_eq_ok_iff.2 (.inr ⟨?_, rfl, rfl⟩), rfl⟩
        exact refuses_char_iff.2 (noMinus rfl)
    | minus =>
        refine run_bind_eq_ok_iff.2 ⟨some ['-'], _, run_optional_eq_ok_iff.2 (.inl ?_), rfl⟩
        exact ⟨_, run_char_eq_ok_iff.2 ⟨rfl, reads⟩, rfl⟩

/-- A sign in front of a digit is read, if there is one. -/
theorem run_sign {sign digits after : List Char} (isSign : IsSign sign)
    (areDigits : IsDigits digits) (reads : cursor.Reads sign later)
    (isRest : later.rest = digits ++ after) :
    Parser.sign.run cursor = .ok (sign, later) := by
  refine run_sign_eq_ok_iff.2 ⟨isSign, reads, ?_⟩
  rintro rfl isMinus
  rw [reads.rest, isRest] at isMinus
  exact absurd (areDigits.isDigit_head isMinus) (by decide)

/-- Integers are read exactly. -/
theorem run_integer_eq_ok_iff {integer : Int64} :
    Parser.integer.run cursor = .ok ((chars, integer), later) ↔
      ∃ sign digits, chars = sign ++ digits ∧ IsSign sign ∧ IsDigits digits ∧
        integer.toInt = signed sign (digitsValue digits) ∧ cursor.Reads chars later ∧
        EndsDigits later.rest := by
  constructor
  · intro isRead
    rw [Parser.integer, run_here_bind] at isRead
    obtain ⟨sign, middle, isSign, isRead⟩ := run_bind_eq_ok_iff.1 isRead
    obtain ⟨digits, last, areDigits, isRead⟩ := run_bind_eq_ok_iff.1 isRead
    dsimp only at isRead
    split at isRead
    next inRange =>
      cases isRead
      obtain ⟨isSign, readsSign, _⟩ := run_sign_eq_ok_iff.1 isSign
      obtain ⟨areDigits, readsDigits, ends⟩ := run_digits_eq_ok_iff.1 areDigits
      exact ⟨sign, digits, rfl, isSign, areDigits, Int64.toInt_ofInt_of_le inRange.1 inRange.2,
        readsSign.append readsDigits, ends⟩
    next => cases isRead
  · rintro ⟨sign, digits, rfl, isSign, areDigits, exact, reads, ends⟩
    obtain ⟨middle, readsSign, readsDigits⟩ := reads.exists_of_append
    rw [Parser.integer, run_here_bind]
    refine run_bind_eq_ok_iff.2 ⟨sign, middle,
      run_sign isSign areDigits readsSign readsDigits.rest, ?_⟩
    refine run_bind_eq_ok_iff.2 ⟨digits, later,
      run_digits_eq_ok_iff.2 ⟨areDigits, readsDigits, ends⟩, ?_⟩
    dsimp only
    rw [← exact, if_pos ⟨integer.le_toInt, integer.toInt_lt⟩, Int64.ofInt_toInt]
    rfl

/-- Digits are refused where none stands. -/
theorem refuses_digits (noDigit : EndsDigits cursor.rest) : Refuses digits cursor :=
  refuses_someChars_iff.2 noDigit

/-- Exponents are read. -/
theorem run_exponent_eq_ok_iff {power : Int} :
    exponent.run cursor = .ok ((chars, power), later) ↔
      IsExponent chars power ∧ chars ≠ [] ∧ cursor.Reads chars later ∧ EndsDigits later.rest := by
  constructor
  · intro isRead
    obtain ⟨mark, first, isMark, isRead⟩ := run_bind_eq_ok_iff.1 isRead
    obtain ⟨found, second, maybeSign, isRead⟩ := run_bind_eq_ok_iff.1 isRead
    obtain ⟨digits, last, areRead, isRead⟩ := run_bind_eq_ok_iff.1 isRead
    obtain ⟨isResult, rfl⟩ := run_pure_eq_ok_iff.1 isRead
    obtain ⟨mark, markClass, rfl, readsMark⟩ := run_satisfy_eq_ok_iff.1 isMark
    obtain ⟨areDigits, readsDigits, ends⟩ := run_digits_eq_ok_iff.1 areRead
    simp only [Bool.or_eq_true, beq_iff_eq] at markClass
    rcases run_optional_eq_ok_iff.1 maybeSign with ⟨sign, isSign, rfl⟩ | ⟨_, rfl, rfl⟩
    · obtain ⟨sign, signClass, rfl, readsSign⟩ := run_satisfy_eq_ok_iff.1 isSign
      simp only [Bool.or_eq_true, beq_iff_eq] at signClass
      have reads := (readsMark.append readsSign).append readsDigits
      cases isResult
      rcases signClass with rfl | rfl
      · exact ⟨.plus markClass areDigits, by simp, reads, ends⟩
      · exact ⟨.minus markClass areDigits, by simp, reads, ends⟩
    · cases isResult
      exact ⟨.unsigned markClass areDigits, by simp, readsMark.append readsDigits, ends⟩
  · rintro ⟨isExponent, nonempty, reads, ends⟩
    cases isExponent with
    | none => exact absurd rfl nonempty
    | @unsigned mark digits isMark areDigits =>
        obtain ⟨first, readsMark, readsDigits⟩ := reads.exists_of_cons
        refine run_bind_eq_ok_iff.2 ⟨[mark], first,
          run_satisfy_eq_ok_iff.2 ⟨mark, by simpa using isMark, rfl, readsMark⟩, ?_⟩
        refine run_bind_eq_ok_iff.2 ⟨none, first,
          run_optional_eq_ok_iff.2 (.inr ⟨refuses_satisfy_iff.2 ?_, rfl, rfl⟩), ?_⟩
        · intro next isNext
          rw [readsDigits.rest] at isNext
          have isDigit := areDigits.isDigit_head isNext
          rw [Bool.or_eq_false_iff, beq_eq_false_iff_ne, beq_eq_false_iff_ne]
          constructor <;> (rintro rfl; exact absurd isDigit (by decide))
        · exact run_bind_eq_ok_iff.2 ⟨digits, later,
            run_digits_eq_ok_iff.2 ⟨areDigits, readsDigits, ends⟩, rfl⟩
    | @plus mark digits isMark areDigits =>
        obtain ⟨first, readsMark, reads⟩ := reads.exists_of_cons
        obtain ⟨second, readsSign, readsDigits⟩ := reads.exists_of_cons
        refine run_bind_eq_ok_iff.2 ⟨[mark], first,
          run_satisfy_eq_ok_iff.2 ⟨mark, by simpa using isMark, rfl, readsMark⟩, ?_⟩
        refine run_bind_eq_ok_iff.2 ⟨some ['+'], second, run_optional_eq_ok_iff.2 (.inl
          ⟨_, run_satisfy_eq_ok_iff.2 ⟨'+', by decide, rfl, readsSign⟩, rfl⟩), ?_⟩
        exact run_bind_eq_ok_iff.2 ⟨digits, later,
          run_digits_eq_ok_iff.2 ⟨areDigits, readsDigits, ends⟩, rfl⟩
    | @minus mark digits isMark areDigits =>
        obtain ⟨first, readsMark, reads⟩ := reads.exists_of_cons
        obtain ⟨second, readsSign, readsDigits⟩ := reads.exists_of_cons
        refine run_bind_eq_ok_iff.2 ⟨[mark], first,
          run_satisfy_eq_ok_iff.2 ⟨mark, by simpa using isMark, rfl, readsMark⟩, ?_⟩
        refine run_bind_eq_ok_iff.2 ⟨some ['-'], second, run_optional_eq_ok_iff.2 (.inl
          ⟨_, run_satisfy_eq_ok_iff.2 ⟨'-', by decide, rfl, readsSign⟩, rfl⟩), ?_⟩
        exact run_bind_eq_ok_iff.2 ⟨digits, later,
          run_digits_eq_ok_iff.2 ⟨areDigits, readsDigits, ends⟩, rfl⟩

/-- An exponent is refused where no name goes on. -/
theorem refuses_exponent (ends : EndsName cursor.rest) : Refuses exponent cursor := by
  refine refuses_bind_iff.2 (.inl (refuses_satisfy_iff.2 fun next isNext => ?_))
  have noNameChar := ends next isNext
  rw [Bool.or_eq_false_iff, beq_eq_false_iff_ne, beq_eq_false_iff_ne]
  constructor <;> (rintro rfl; exact absurd noNameChar (by decide))

/-- Floats are read as the numbers that they denote. -/
theorem denotes_of_run_float {number : Binary64}
    (isRead : float.run cursor = .ok ((chars, number), later)) :
    Denotes chars (.float number) ∧ cursor.Reads chars later := by
  obtain ⟨sign, first, isSign, isRead⟩ := run_bind_eq_ok_iff.1 isRead
  obtain ⟨whole, second, isWhole, isRead⟩ := run_bind_eq_ok_iff.1 isRead
  obtain ⟨point, third, isPoint, isRead⟩ := run_bind_eq_ok_iff.1 isRead
  obtain ⟨fraction, fourth, isFraction, isRead⟩ := run_bind_eq_ok_iff.1 isRead
  obtain ⟨found, last, maybeExponent, isRead⟩ := run_bind_eq_ok_iff.1 isRead
  obtain ⟨isSign, readsSign, _⟩ := run_sign_eq_ok_iff.1 isSign
  obtain ⟨isWhole, readsWhole, _⟩ := run_digits_eq_ok_iff.1 isWhole
  obtain ⟨rfl, readsPoint⟩ := run_char_eq_ok_iff.1 isPoint
  obtain ⟨isFraction, readsFraction, _⟩ := run_digits_eq_ok_iff.1 isFraction
  have reads := ((readsSign.append readsWhole).append readsPoint).append readsFraction
  rcases run_optional_eq_ok_iff.1 maybeExponent with
    ⟨⟨lexeme, power⟩, isExponent, rfl⟩ | ⟨_, rfl, rfl⟩
  · obtain ⟨isExponent, _, readsExponent, _⟩ := run_exponent_eq_ok_iff.1 isExponent
    obtain ⟨isResult, rfl⟩ := run_pure_eq_ok_iff.1 isRead
    cases isResult
    exact ⟨.float isSign isWhole isFraction isExponent
      (Binary64.isNearestDecimal_ofDecimal _ _ _), reads.append readsExponent⟩
  · obtain ⟨isResult, rfl⟩ := run_pure_eq_ok_iff.1 isRead
    cases isResult
    exact ⟨.float isSign isWhole isFraction .none
      (Binary64.isNearestDecimal_ofDecimal _ _ _), reads.append (.nil _)⟩

/-- A float is read up to where no term goes on. -/
theorem run_float {sign whole fraction lexeme : List Char} {power : Int} {number : Binary64}
    (isSign : IsSign sign) (isWhole : IsDigits whole) (isFraction : IsDigits fraction)
    (isExponent : IsExponent lexeme power)
    (isNearest : Binary64.IsNearestDecimal (!sign.isEmpty) (digitsValue (whole ++ fraction))
      (power - fraction.length) number)
    (reads : cursor.Reads (sign ++ whole ++ ['.'] ++ fraction ++ lexeme) later)
    (ends : EndsName later.rest) :
    float.run cursor = .ok ((sign ++ whole ++ ['.'] ++ fraction ++ lexeme, number), later) := by
  obtain ⟨fourth, reads, readsExponent⟩ := reads.exists_of_append
  obtain ⟨third, reads, readsFraction⟩ := reads.exists_of_append
  obtain ⟨second, reads, readsPoint⟩ := reads.exists_of_append
  obtain ⟨first, readsSign, readsWhole⟩ := reads.exists_of_append
  have endsWhole : EndsDigits second.rest := by
    rw [readsPoint.rest]
    rintro next isNext
    cases isNext
    rfl
  have endsFraction : EndsDigits fourth.rest := by
    rw [readsExponent.rest]
    exact isExponent.endsDigits ends
  have number_eq := isNearest.eq_ofDecimal
  refine run_bind_eq_ok_iff.2 ⟨sign, first, run_sign isSign isWhole readsSign readsWhole.rest, ?_⟩
  refine run_bind_eq_ok_iff.2 ⟨whole, second,
    run_digits_eq_ok_iff.2 ⟨isWhole, readsWhole, endsWhole⟩, ?_⟩
  refine run_bind_eq_ok_iff.2 ⟨['.'], third, run_char_eq_ok_iff.2 ⟨rfl, readsPoint⟩, ?_⟩
  refine run_bind_eq_ok_iff.2 ⟨fraction, fourth,
    run_digits_eq_ok_iff.2 ⟨isFraction, readsFraction, endsFraction⟩, ?_⟩
  by_cases isNone : lexeme = []
  · subst isNone
    obtain rfl := readsExponent.eq_skip
    refine run_bind_eq_ok_iff.2 ⟨none, _,
      run_optional_eq_ok_iff.2 (.inr ⟨refuses_exponent ends, rfl, rfl⟩), ?_⟩
    cases isExponent
    exact run_pure_eq_ok_iff.2 ⟨by rw [number_eq], rfl⟩
  · refine run_bind_eq_ok_iff.2 ⟨some (lexeme, power), later,
      run_optional_eq_ok_iff.2 (.inl ⟨_, run_exponent_eq_ok_iff.2
        ⟨isExponent, isNone, readsExponent, ends.digits⟩, rfl⟩), ?_⟩
    exact run_pure_eq_ok_iff.2 ⟨by rw [number_eq], rfl⟩

/-- What a backslash and a character stand for is looked up. -/
theorem isEscape_iff {char meaning : Char} :
    IsEscape char meaning ↔ Text.Quoted.escaped? char = some meaning := by
  constructor
  · rintro ⟨⟩ <;> rfl
  · unfold Text.Quoted.escaped?
    split <;> intro isEscape <;> cases isEscape <;> constructor

/-- The body that is split off is quoted, unless it has an unknown escape. -/
theorem quotes_splitBody {rest text : List Char}
    (isText : Text.Quoted.unescape (Text.Quoted.splitBody rest).1 = some text) :
    Quotes (Text.Quoted.splitBody rest).1 text := by
  fun_induction Text.Quoted.splitBody rest generalizing text with
  | case1 =>
      cases isText
      exact .nil
  | case2 char rest body after isSplit inductionHypothesis =>
      rw [Text.Quoted.unescape_backslash] at isText
      obtain ⟨meaning, isEscape, isText⟩ := Option.bind_eq_some_iff.1 isText
      obtain ⟨others, areOthers, rfl⟩ := Option.map_eq_some_iff.1 isText
      rw [isSplit] at inductionHypothesis
      exact .escape (isEscape_iff.2 isEscape) (inductionHypothesis areOthers)
  | case3 =>
      cases isText
      exact .nil
  | case4 char rest notEscape noQuote body after isSplit inductionHypothesis =>
      rw [isSplit] at inductionHypothesis
      by_cases isBackslash : char = '\\'
      · -- A backslash at the end of the text begins no escape.
        cases rest with
        | nil =>
            cases isSplit
            subst isBackslash
            cases isText
        | cons next rest => exact absurd rfl (notEscape next rest isBackslash)
      · rw [Text.Quoted.unescape_of_ne isBackslash] at isText
        obtain ⟨others, areOthers, rfl⟩ := Option.map_eq_some_iff.1 isText
        exact .plain noQuote isBackslash (inductionHypothesis areOthers)

/-- A quoted text is split off and stands for its meaning. -/
theorem splitBody_of_quotes {body text : List Char} (quotes : Quotes body text)
    (after : List Char) :
    Text.Quoted.splitBody (body ++ '"' :: after) = (body, '"' :: after) ∧
      Text.Quoted.unescape body = some text := by
  induction quotes with
  | nil => exact ⟨rfl, rfl⟩
  | plain noQuote noBackslash _ inductionHypothesis =>
      obtain ⟨isSplit, isText⟩ := inductionHypothesis
      rw [List.cons_append, Text.Quoted.splitBody, isSplit,
        Text.Quoted.unescape_of_ne noBackslash, isText]
      · exact ⟨rfl, rfl⟩
      · exact fun _ _ isBackslash => absurd isBackslash noBackslash
      · exact noQuote
  | escape isEscape _ inductionHypothesis =>
      obtain ⟨isSplit, isText⟩ := inductionHypothesis
      rw [List.cons_append, List.cons_append, Text.Quoted.splitBody, isSplit,
        Text.Quoted.unescape_backslash, isEscape_iff.1 isEscape, isText]
      exact ⟨rfl, rfl⟩

/-- The body of a string is read up to a quote as the text that it stands for. -/
theorem quotes_of_run_stringBody {body text : List Char}
    (isRead : stringBody.run cursor = .ok ((body, text), later)) :
    Quotes body text ∧ cursor.Reads body later := by
  rw [stringBody, run_here_bind] at isRead
  dsimp only at isRead
  split at isRead
  next found isText =>
    obtain ⟨chars, last, isConsumed, isRead⟩ := run_bind_eq_ok_iff.1 isRead
    obtain ⟨isResult, rfl⟩ := run_pure_eq_ok_iff.1 isRead
    cases isResult
    obtain ⟨rfl, reads⟩ :=
      (run_consume_eq_ok_iff ⟨_, Text.Quoted.splitBody_append cursor.rest⟩).1 isConsumed
    exact ⟨quotes_splitBody isText, reads⟩
  next =>
    obtain ⟨isResult, rfl⟩ := run_pure_eq_ok_iff.1 isRead
    cases isResult
    exact ⟨.nil, .nil cursor⟩

/-- The body of a string in front of a quote is read as the text that it stands for. -/
theorem run_stringBody {body text after : List Char} (quotes : Quotes body text)
    (reads : cursor.Reads body later) (closes : later.rest = '"' :: after) :
    stringBody.run cursor = .ok ((body, text), later) := by
  obtain ⟨isSplit, isText⟩ := splitBody_of_quotes quotes after
  rw [stringBody, run_here_bind, reads.rest, closes, isSplit]
  dsimp only
  rw [isText]
  refine run_bind_eq_ok_iff.2 ⟨body, later, (run_consume_eq_ok_iff ?_).2 ⟨rfl, reads⟩, rfl⟩
  exact ⟨later.rest, reads.rest.symm⟩

/-- Strings are read as the texts that they stand for. -/
theorem run_string_eq_ok_iff {text : List Char} :
    string.run cursor = .ok ((chars, text), later) ↔
      ∃ body, chars = ['"'] ++ body ++ ['"'] ∧ Quotes body text ∧ cursor.Reads chars later := by
  constructor
  · intro isRead
    obtain ⟨opening, first, isOpening, isRead⟩ := run_bind_eq_ok_iff.1 isRead
    obtain ⟨⟨body, found⟩, second, isBody, isRead⟩ := run_bind_eq_ok_iff.1 isRead
    obtain ⟨closing, last, isClosing, isRead⟩ := run_bind_eq_ok_iff.1 isRead
    obtain ⟨isResult, rfl⟩ := run_pure_eq_ok_iff.1 isRead
    cases isResult
    obtain ⟨rfl, readsOpening⟩ := run_char_eq_ok_iff.1 isOpening
    obtain ⟨quotes, readsBody⟩ := quotes_of_run_stringBody isBody
    obtain ⟨rfl, readsClosing⟩ :=
      run_char_eq_ok_iff.1 (run_within_eq_ok_iff.1 (run_commit_eq_ok_iff.1 isClosing))
    exact ⟨body, rfl, quotes, (readsOpening.append readsBody).append readsClosing⟩
  · rintro ⟨body, rfl, quotes, reads⟩
    obtain ⟨second, reads, readsClosing⟩ := reads.exists_of_append
    obtain ⟨first, readsOpening, readsBody⟩ := reads.exists_of_append
    refine run_bind_eq_ok_iff.2 ⟨_, first, run_char_eq_ok_iff.2 ⟨rfl, readsOpening⟩, ?_⟩
    refine run_bind_eq_ok_iff.2 ⟨(body, text), second,
      run_stringBody quotes readsBody readsClosing.rest, ?_⟩
    exact run_bind_eq_ok_iff.2 ⟨['"'], later, run_commit_eq_ok_iff.2
      (run_within_eq_ok_iff.2 (run_char_eq_ok_iff.2 ⟨rfl, readsClosing⟩)), rfl⟩

/-- Keywords are read as their names. -/
theorem run_keyword_eq_ok_iff {name : List Char} :
    keyword.run cursor = .ok ((chars, name), later) ↔
      chars = ':' :: name ∧ IsName name ∧ cursor.Reads chars later ∧ EndsName later.rest := by
  constructor
  · intro isRead
    obtain ⟨colon, middle, isColon, isRead⟩ := run_bind_eq_ok_iff.1 isRead
    obtain ⟨found, last, isFound, isRead⟩ := run_bind_eq_ok_iff.1 isRead
    obtain ⟨isResult, rfl⟩ := run_pure_eq_ok_iff.1 isRead
    cases isResult
    obtain ⟨rfl, readsColon⟩ := run_char_eq_ok_iff.1 isColon
    obtain ⟨isName, readsName, ends⟩ := run_identifier_eq_ok_iff.1 isFound
    exact ⟨rfl, isName, readsColon.append readsName, ends⟩
  · rintro ⟨rfl, isName, reads, ends⟩
    obtain ⟨middle, readsColon, readsName⟩ := reads.exists_of_cons
    refine run_bind_eq_ok_iff.2 ⟨_, middle, run_char_eq_ok_iff.2 ⟨rfl, readsColon⟩, ?_⟩
    exact run_bind_eq_ok_iff.2
      ⟨name, later, run_identifier_eq_ok_iff.2 ⟨isName, readsName, ends⟩, rfl⟩

/-- What is read as a literal denotes the value that is found. -/
theorem denotes_of_run_literal {value : Value}
    (isRead : literal.run cursor = .ok ((chars, value), later)) :
    Denotes chars value ∧ cursor.Reads chars later := by
  rcases run_orElse_eq_ok_iff.1 isRead with isRead | ⟨_, isRead⟩
  · obtain ⟨⟨lexeme, number⟩, last, isFloat, isRead⟩ := run_bind_eq_ok_iff.1 isRead
    obtain ⟨isResult, rfl⟩ := run_pure_eq_ok_iff.1 isRead
    cases isResult
    exact denotes_of_run_float isFloat
  rcases run_orElse_eq_ok_iff.1 isRead with isRead | ⟨_, isRead⟩
  · obtain ⟨⟨lexeme, number⟩, last, isInteger, isRead⟩ := run_bind_eq_ok_iff.1 isRead
    obtain ⟨isResult, rfl⟩ := run_pure_eq_ok_iff.1 isRead
    cases isResult
    obtain ⟨sign, digits, rfl, isSign, areDigits, exact, reads, _⟩ :=
      run_integer_eq_ok_iff.1 isInteger
    exact ⟨.integer isSign areDigits exact, reads⟩
  rcases run_orElse_eq_ok_iff.1 isRead with isRead | ⟨_, isRead⟩
  · obtain ⟨⟨lexeme, text⟩, last, isString, isRead⟩ := run_bind_eq_ok_iff.1 isRead
    obtain ⟨isResult, rfl⟩ := run_pure_eq_ok_iff.1 isRead
    cases isResult
    obtain ⟨body, rfl, quotes, reads⟩ := run_string_eq_ok_iff.1 isString
    exact ⟨.string quotes, reads⟩
  · obtain ⟨⟨lexeme, name⟩, last, isKeyword, isRead⟩ := run_bind_eq_ok_iff.1 isRead
    obtain ⟨isResult, rfl⟩ := run_pure_eq_ok_iff.1 isRead
    cases isResult
    obtain ⟨rfl, isName, reads, _⟩ := run_keyword_eq_ok_iff.1 isKeyword
    exact ⟨.keyword isName, reads⟩

/-- A sign is left out where no minus sign stands. -/
theorem run_sign_none (noMinus : cursor.rest.head? ≠ some '-') :
    sign.run cursor = .ok ([], cursor) :=
  run_sign_eq_ok_iff.2 ⟨.none, .nil cursor, fun _ => noMinus⟩

/-- Numbers are refused where neither a minus sign nor a digit stands. -/
theorem refuses_numbers (noMinus : cursor.rest.head? ≠ some '-')
    (noDigit : EndsDigits cursor.rest) : Refuses float cursor ∧ Refuses integer cursor := by
  have refused := refuses_digits noDigit
  refine ⟨refuses_bind_iff.2 (.inr ⟨[], cursor, run_sign_none noMinus, ?_⟩), ?_⟩
  · exact refuses_bind_iff.2 (.inl refused)
  · rw [integer, Refuses, run_here_bind]
    refine refuses_bind_iff.2 (.inr ⟨[], cursor, run_sign_none noMinus, ?_⟩)
    exact refuses_bind_iff.2 (.inl refused)

/-- Numbers are refused where another character stands. -/
theorem refuses_numbers_of_head {first : Char} (isFirst : cursor.rest.head? = some first)
    (noMinus : first ≠ '-') (noDigit : first.isDigit = false) :
    Refuses float cursor ∧ Refuses integer cursor := by
  refine refuses_numbers (fun isMinus => ?_) (fun next isNext => ?_)
  · exact noMinus (Option.some.inj (isFirst.symm.trans isMinus))
  · exact Option.some.inj (isFirst.symm.trans isNext) ▸ noDigit

/-- A float is refused where an integer stands. -/
theorem refuses_float {sign digits : List Char} (isSign : IsSign sign) (areDigits : IsDigits digits)
    (reads : cursor.Reads (sign ++ digits) later) (ends : EndsTerm later.rest) :
    Refuses float cursor := by
  obtain ⟨middle, readsSign, readsDigits⟩ := reads.exists_of_append
  refine refuses_bind_iff.2 (.inr ⟨sign, middle,
    run_sign isSign areDigits readsSign readsDigits.rest, ?_⟩)
  refine refuses_bind_iff.2 (.inr ⟨digits, later,
    run_digits_eq_ok_iff.2 ⟨areDigits, readsDigits, ends.name.digits⟩, ?_⟩)
  by_cases isPoint : later.rest.head? = some '.'
  · obtain ⟨others, isRest⟩ := List.head?_eq_some_iff.1 isPoint
    have readsPoint : later.Reads ['.'] (later.skip ['.']) := .skip ⟨others, isRest.symm⟩
    refine refuses_bind_iff.2 (.inr ⟨['.'], _, run_char_eq_ok_iff.2 ⟨rfl, readsPoint⟩, ?_⟩)
    refine refuses_bind_iff.2 (.inl (refuses_digits fun next isNext => ?_))
    obtain ⟨after, isAfter⟩ := List.head?_eq_some_iff.1 isNext
    exact ends.point next after (by rw [readsPoint.rest, isAfter]; rfl)
  · exact refuses_bind_iff.2 (.inl (refuses_char_iff.2 isPoint))

/-- A text in which a literal other than a name does not begin. -/
def NoLiteral (rest : List Char) : Prop :=
  ∀ next ∈ rest.head?, next ≠ '-' ∧ next.isDigit = false ∧ next ≠ '"' ∧ next ≠ ':'

/-- Literals are refused where none begins. -/
theorem refuses_literal (noLiteral : NoLiteral cursor.rest) : Refuses literal cursor := by
  obtain ⟨noFloat, noInteger⟩ := refuses_numbers
    (fun isMinus => (noLiteral '-' isMinus).1 rfl) (fun next isNext => (noLiteral next isNext).2.1)
  refine refuses_orElse_iff.2 ⟨refuses_bind_iff.2 (.inl noFloat), refuses_orElse_iff.2
    ⟨refuses_bind_iff.2 (.inl noInteger), refuses_orElse_iff.2 ⟨refuses_bind_iff.2 (.inl ?_),
      refuses_bind_iff.2 (.inl ?_)⟩⟩⟩
  · exact refuses_bind_iff.2 (.inl (refuses_char_iff.2 fun isQuote =>
      (noLiteral '"' isQuote).2.2.1 rfl))
  · exact refuses_bind_iff.2 (.inl (refuses_char_iff.2 fun isColon =>
      (noLiteral ':' isColon).2.2.2 rfl))

/-- A literal that is not spelled as a name is read as the value that it denotes, where no term
goes on behind it. -/
theorem run_literal {value : Value} (denotes : Denotes chars value)
    (noName : ∀ truth, value ≠ .null ∧ value ≠ .bool truth) (reads : cursor.Reads chars later)
    (ends : EndsTerm later.rest) : literal.run cursor = .ok ((chars, value), later) := by
  cases denotes with
  | null => exact absurd rfl (noName true).1
  | truth => exact absurd rfl (noName true).2
  | falsehood => exact absurd rfl (noName false).2
  | float isSign isWhole isFraction isExponent isNearest =>
      refine run_orElse_eq_ok_iff.2 (.inl (run_bind_eq_ok_iff.2 ⟨(_, _), later, ?_, rfl⟩))
      exact run_float isSign isWhole isFraction isExponent isNearest reads ends.name
  | integer isSign areDigits exact =>
      refine run_orElse_eq_ok_iff.2 (.inr ⟨refuses_bind_iff.2 (.inl
        (refuses_float isSign areDigits reads ends)), ?_⟩)
      refine run_orElse_eq_ok_iff.2 (.inl (run_bind_eq_ok_iff.2 ⟨(_, _), later, ?_, rfl⟩))
      exact run_integer_eq_ok_iff.2
        ⟨_, _, rfl, isSign, areDigits, exact, reads, ends.name.digits⟩
  | string quotes =>
      have opens : cursor.rest.head? = some '"' := by rw [reads.rest]; rfl
      obtain ⟨noFloat, noInteger⟩ := refuses_numbers_of_head opens (by decide) rfl
      refine run_orElse_eq_ok_iff.2 (.inr ⟨refuses_bind_iff.2 (.inl noFloat), ?_⟩)
      refine run_orElse_eq_ok_iff.2 (.inr ⟨refuses_bind_iff.2 (.inl noInteger), ?_⟩)
      refine run_orElse_eq_ok_iff.2 (.inl (run_bind_eq_ok_iff.2 ⟨(_, _), later, ?_, rfl⟩))
      exact run_string_eq_ok_iff.2 ⟨_, rfl, quotes, reads⟩
  | keyword isName =>
      have opens : cursor.rest.head? = some ':' := by rw [reads.rest]; rfl
      obtain ⟨noFloat, noInteger⟩ := refuses_numbers_of_head opens (by decide) rfl
      refine run_orElse_eq_ok_iff.2 (.inr ⟨refuses_bind_iff.2 (.inl noFloat), ?_⟩)
      refine run_orElse_eq_ok_iff.2 (.inr ⟨refuses_bind_iff.2 (.inl noInteger), ?_⟩)
      refine run_orElse_eq_ok_iff.2 (.inr ⟨refuses_bind_iff.2 (.inl (refuses_bind_iff.2 (.inl
        (refuses_char_iff.2 ?_)))), ?_⟩)
      · rw [opens]
        decide
      · refine run_bind_eq_ok_iff.2 ⟨(_, _), later, ?_, rfl⟩
        exact run_keyword_eq_ok_iff.2 ⟨rfl, isName, reads, ends.name⟩

end Parser

end Datalog.Source
