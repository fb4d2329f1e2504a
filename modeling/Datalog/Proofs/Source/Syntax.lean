import Datalog.Proofs.Number.Decimal
import Datalog.Proofs.Source.Layout
import Datalog.Source.Tree

/-!
# Syntax

The language of clauses, without a word about parsers. `Denotes` says which value a literal
stands for, `WellFormed` which lexemes a clause may be made of, and `pieces` in which order
its tokens and the punctuation between them are written. No piece of a well-formed clause can
be mistaken for a part of a gap (`Clause.WellFormed.isSolid`).
-/

namespace Datalog.Source

/-- An alphabetic character and any name characters. -/
inductive IsName : List Char → Prop where
  | name {first : Char} {others : List Char} (isAlphabetic : Text.isAlphabetic first = true)
      (areNameChars : ∀ char ∈ others, Text.isNameChar char = true) : IsName (first :: others)

/-- An underscore and any name characters. -/
inductive IsWildcard : List Char → Prop where
  | wildcard {others : List Char}
      (areNameChars : ∀ char ∈ others, Text.isNameChar char = true) : IsWildcard ('_' :: others)

/-- Whether a character is one that operators are made of. -/
def isOperatorChar (char : Char) : Bool :=
  ['<', '>', '=', '!'].contains char

/-- Some operator characters. -/
structure IsOperator (chars : List Char) : Prop where
  nonempty : chars ≠ []
  areOperatorChars : ∀ char ∈ chars, isOperatorChar char = true

/-- Some decimal digits. -/
structure IsDigits (chars : List Char) : Prop where
  nonempty : chars ≠ []
  areDigits : ∀ char ∈ chars, char.isDigit = true

/-- No sign, or a minus sign. -/
inductive IsSign : List Char → Prop where
  | none : IsSign []
  | minus : IsSign ['-']

/-- The exponent of a float and the power of ten that it stands for, which is none at all if
there is no exponent. -/
inductive IsExponent : List Char → Int → Prop where
  | none : IsExponent [] 0
  | unsigned {mark : Char} {digits : List Char} (isMark : mark = 'e' ∨ mark = 'E')
      (areDigits : IsDigits digits) : IsExponent (mark :: digits) (Parser.digitsValue digits)
  | plus {mark : Char} {digits : List Char} (isMark : mark = 'e' ∨ mark = 'E')
      (areDigits : IsDigits digits) : IsExponent (mark :: '+' :: digits) (Parser.digitsValue digits)
  | minus {mark : Char} {digits : List Char} (isMark : mark = 'e' ∨ mark = 'E')
      (areDigits : IsDigits digits) :
      IsExponent (mark :: '-' :: digits) (-Parser.digitsValue digits)

/-- What a backslash and a character stand for. -/
inductive IsEscape : Char → Char → Prop where
  | backslash : IsEscape '\\' '\\'
  | quote : IsEscape '"' '"'
  | lineFeed : IsEscape 'n' '\n'
  | tab : IsEscape 't' '\t'

/-- What stands between the quotes of a string, and the string: a backslash begins an escape,
every other character but a quote stands for itself. -/
inductive Quotes : (body text : List Char) → Prop where
  | nil : Quotes [] []
  | plain {char : Char} {body text : List Char} (noQuote : char ≠ '"') (noBackslash : char ≠ '\\')
      (others : Quotes body text) : Quotes (char :: body) (char :: text)
  | escape {char meaning : Char} {body text : List Char} (isEscape : IsEscape char meaning)
      (others : Quotes body text) : Quotes ('\\' :: char :: body) (meaning :: text)

/-- The value that a literal stands for. An integer is exact, so there is none for one out of
range; a float is rounded to the nearest number. -/
inductive Denotes : List Char → Value → Prop where
  | null : Denotes ['n', 'u', 'l', 'l'] .null
  | truth : Denotes ['t', 'r', 'u', 'e'] (.bool true)
  | falsehood : Denotes ['f', 'a', 'l', 's', 'e'] (.bool false)
  | integer {sign digits : List Char} {integer : Int64} (isSign : IsSign sign)
      (areDigits : IsDigits digits)
      (exact : integer.toInt = Parser.signed sign (Parser.digitsValue digits)) :
      Denotes (sign ++ digits) (.int integer)
  | float {sign whole fraction exponent : List Char} {power : Int} {number : Binary64}
      (isSign : IsSign sign) (isWhole : IsDigits whole) (isFraction : IsDigits fraction)
      (isExponent : IsExponent exponent power)
      (isNearest : Binary64.IsNearestDecimal (!sign.isEmpty)
        (Parser.digitsValue (whole ++ fraction)) (power - fraction.length) number) :
      Denotes (sign ++ whole ++ ['.'] ++ fraction ++ exponent) (.float number)
  | string {body text : List Char} (quotes : Quotes body text) :
      Denotes (['"'] ++ body ++ ['"']) (.string (String.ofList text))
  | keyword {name : List Char} (isName : IsName name) :
      Denotes (':' :: name) (.keyword (String.ofList name))

/-- The literals that are spelled as names. -/
def reservedNames : List String :=
  ["null", "true", "false"]

namespace Term

/-- A term is made of a lexeme of its kind, a literal of one that stands for its value. -/
inductive WellFormed : Term → Prop where
  | literal {token : Token} {value : Value} (denotes : Denotes token.lexeme.toList value) :
      WellFormed (.literal token value)
  | identifier {token : Token} (isName : IsName token.lexeme.toList)
      (isFree : token.lexeme ∉ reservedNames) : WellFormed (.identifier token)
  | wildcard {token : Token} (isWildcard : IsWildcard token.lexeme.toList) :
      WellFormed (.wildcard token)

/-- A term is one token. -/
def pieces (term : Term) : List Piece :=
  [.token term.token]

end Term

/-- Items with commas between them. -/
def listed {α : Type} (pieces : α → List Piece) : List α → List Piece
  | [] => []
  | first :: others => pieces first ++ others.flatMap fun other => .mark [','] :: pieces other

/-- A field name with its colon, and the term of the field. -/
def fieldPieces (field : Token × Term) : List Piece :=
  .token field.1 :: .mark [':'] :: field.2.pieces

/-- A field has a name and a term. -/
structure FieldWellFormed (field : Token × Term) : Prop where
  isName : IsName field.1.lexeme.toList
  term : field.2.WellFormed

namespace Args

/-- Arguments may be missing altogether, but not if they have field names. -/
inductive WellFormed : Args → Prop where
  | ordered {terms : List Term} (wellFormed : ∀ term ∈ terms, term.WellFormed) :
      WellFormed (.ordered terms)
  | named {fields : List (Token × Term)} (nonempty : fields ≠ [])
      (wellFormed : ∀ field ∈ fields, FieldWellFormed field) : WellFormed (.named fields)

/-- Arguments have commas between them. -/
def pieces : Args → List Piece
  | ordered terms => listed Term.pieces terms
  | named fields => listed fieldPieces fields

end Args

namespace Atom

/-- A relation has a name. -/
structure WellFormed (atom : Atom) : Prop where
  isName : IsName atom.relation.lexeme.toList
  args : atom.args.WellFormed

/-- The arguments of an atom in parentheses. -/
def argsPieces (atom : Atom) : List Piece :=
  .mark ['('] :: atom.args.pieces ++ [.mark [')']]

/-- A relation with its arguments. -/
def pieces (atom : Atom) : List Piece :=
  .token atom.relation :: atom.argsPieces

end Atom

namespace Literal

/-- A part of a body is made of well-formed parts. -/
inductive WellFormed : Literal → Prop where
  | positive {atom : Atom} (wellFormed : atom.WellFormed) : WellFormed (.positive atom)
  | negated {atom : Atom} (wellFormed : atom.WellFormed) : WellFormed (.negated atom)
  | comparison {left right : Term} {operator : Token} (isLeft : left.WellFormed)
      (isOperator : IsOperator operator.lexeme.toList) (isRight : right.WellFormed) :
      WellFormed (.comparison left operator right)

/-- A part of a body. What leads it must not be mistaken for a negation if it is none. -/
def pieces : Literal → List Piece
  | positive atom => .leading atom.relation :: atom.argsPieces
  | negated atom => .negation :: atom.pieces
  | comparison left operator right =>
      .leading left.token :: .token operator :: right.pieces

end Literal

namespace Clause

/-- A clause is made of well-formed parts, and a body of at least one. -/
inductive WellFormed : Clause → Prop where
  | fact {head : Atom} (isHead : head.WellFormed) : WellFormed (.fact head)
  | rule {head : Atom} {body : List Literal} (isHead : head.WellFormed) (nonempty : body ≠ [])
      (isBody : ∀ literal ∈ body, literal.WellFormed) : WellFormed (.rule head body)

/-- A clause with its full stop. -/
def pieces : Clause → List Piece
  | fact head => head.pieces ++ [.mark ['.']]
  | rule head body =>
      head.pieces ++ .mark [':', '-'] :: listed Literal.pieces body ++ [.mark ['.']]

end Clause

/-- A class of characters without those that gaps begin with. -/
def IsSolidClass (class? : Char → Bool) : Prop :=
  ∀ char ∈ [' ', '\t', '\r', '\n', '%', '/'], class? char = false

instance (class? : Char → Bool) : Decidable (IsSolidClass class?) :=
  inferInstanceAs (Decidable (∀ char ∈ _, _))

/-- Characters begin with one of a class. -/
def StartsWith (class? : Char → Bool) (chars : List Char) : Prop :=
  ∃ first others, chars = first :: others ∧ class? first = true

/-- What begins with a character that begins no gap is none. -/
theorem StartsWith.solid {class? : Char → Bool} {chars : List Char}
    (starts : StartsWith class? chars) (isSolid : IsSolidClass class?) :
    chars ≠ [] ∧ Solid chars := by
  obtain ⟨first, others, rfl, inClass⟩ := starts
  refine ⟨List.cons_ne_nil first others, ?_⟩
  rintro next isNext
  cases isNext
  have notIn : first ∉ [' ', '\t', '\r', '\n', '%', '/'] := by
    intro member
    rw [isSolid first member] at inClass
    cases inClass
  simp only [List.mem_cons, List.not_mem_nil, or_false, not_or] at notIn
  simpa [Text.isBlank, and_assoc] using notIn

/-- Characters of a class begin with one. -/
theorem startsWith_of_forall {class? : Char → Bool} {chars : List Char} (nonempty : chars ≠ [])
    (inClass : ∀ char ∈ chars, class? char = true) : StartsWith class? chars := by
  obtain ⟨first, others, rfl⟩ := List.exists_cons_of_ne_nil nonempty
  exact ⟨first, others, rfl, inClass first List.mem_cons_self⟩

/-- A class may be extended. -/
theorem StartsWith.mono {class? larger? : Char → Bool} {chars : List Char}
    (starts : StartsWith class? chars) (within : ∀ char, class? char = true → larger? char = true) :
    StartsWith larger? chars := by
  obtain ⟨first, others, rfl, inClass⟩ := starts
  exact ⟨first, others, rfl, within first inClass⟩

/-- What begins with a character begins so, whatever goes on. -/
theorem StartsWith.append {class? : Char → Bool} {chars : List Char}
    (starts : StartsWith class? chars) (others : List Char) :
    StartsWith class? (chars ++ others) := by
  obtain ⟨first, rest, rfl, inClass⟩ := starts
  exact ⟨first, rest ++ others, rfl, inClass⟩

/-- The characters that terms begin with. -/
def isTermStart (char : Char) : Bool :=
  Text.isAlphabetic char || char.isDigit || ['_', '-', '"', ':'].contains char

/-- Names begin with an alphabetic character. -/
theorem IsName.startsWith {name : List Char} (isName : IsName name) :
    StartsWith Text.isAlphabetic name := by
  obtain ⟨isAlphabetic, _⟩ := isName
  exact ⟨_, _, rfl, isAlphabetic⟩

/-- Names begin as terms do. -/
theorem IsName.startsTerm {name : List Char} (isName : IsName name) :
    StartsWith isTermStart name :=
  isName.startsWith.mono fun char isAlphabetic => by rw [isTermStart, isAlphabetic]; rfl

/-- Names are no gaps. -/
theorem IsName.solid {name : List Char} (isName : IsName name) : name ≠ [] ∧ Solid name :=
  isName.startsWith.solid (by decide)

/-- Wildcards begin with an underscore. -/
theorem IsWildcard.startsWith {wildcard : List Char} (isWildcard : IsWildcard wildcard) :
    StartsWith (· == '_') wildcard := by
  obtain ⟨_⟩ := isWildcard
  exact ⟨_, _, rfl, rfl⟩

/-- Numbers begin with a sign or a digit. -/
theorem IsDigits.startsTerm {sign digits : List Char} (areDigits : IsDigits digits)
    (isSign : IsSign sign) : StartsWith isTermStart (sign ++ digits) := by
  cases isSign with
  | none =>
      have startsDigit := startsWith_of_forall areDigits.nonempty areDigits.areDigits
      refine startsDigit.mono fun char isDigit => ?_
      rw [isTermStart, isDigit, Bool.or_true, Bool.true_or]
  | minus => exact ⟨'-', digits, rfl, by decide⟩

/-- Literals begin as terms do. -/
theorem Denotes.startsTerm {lexeme : List Char} {value : Value} (denotes : Denotes lexeme value) :
    StartsWith isTermStart lexeme := by
  cases denotes with
  | null => exact ⟨_, _, rfl, by decide⟩
  | truth => exact ⟨_, _, rfl, by decide⟩
  | falsehood => exact ⟨_, _, rfl, by decide⟩
  | integer isSign areDigits _ => exact areDigits.startsTerm isSign
  | float isSign isWhole _ _ _ => exact (((isWhole.startsTerm isSign).append _).append _).append _
  | string _ => exact ⟨_, _, rfl, by decide⟩
  | keyword _ => exact ⟨_, _, rfl, by decide⟩

/-- Terms begin with a character for it. -/
theorem Term.WellFormed.startsTerm {term : Term} (wellFormed : term.WellFormed) :
    StartsWith isTermStart term.token.lexeme.toList := by
  cases wellFormed with
  | literal denotes => exact denotes.startsTerm
  | identifier isName _ => exact isName.startsTerm
  | wildcard isWildcard =>
      refine isWildcard.startsWith.mono fun char isUnderscore => ?_
      rw [beq_iff_eq.1 isUnderscore]
      decide

/-- Terms are no gaps. -/
theorem Term.WellFormed.solid {term : Term} (wellFormed : term.WellFormed) :
    term.token.lexeme.toList ≠ [] ∧ Solid term.token.lexeme.toList :=
  wellFormed.startsTerm.solid (by decide)

/-- Operators begin with an operator character. -/
theorem IsOperator.startsWith {operator : List Char} (isOperator : IsOperator operator) :
    StartsWith isOperatorChar operator :=
  startsWith_of_forall isOperator.nonempty isOperator.areOperatorChars

/-- Operators are no gaps. -/
theorem IsOperator.solid {operator : List Char} (isOperator : IsOperator operator) :
    operator ≠ [] ∧ Solid operator :=
  isOperator.startsWith.solid (by decide)

/-- Punctuation is no gap. -/
theorem isSolid_mark {first : Char} (isSolid : IsSolidClass (· == first)) (others : List Char) :
    (Piece.mark (first :: others)).IsSolid :=
  have starts : StartsWith (· == first) (first :: others) :=
    ⟨first, others, rfl, beq_self_eq_true first⟩
  ⟨(starts.solid isSolid).1, (starts.solid isSolid).2⟩

/-- The word that negates is no gap. -/
theorem isSolid_negation : Piece.negation.IsSolid :=
  have starts : StartsWith (· == 'n') ['n', 'o', 't'] := ⟨_, _, rfl, rfl⟩
  ⟨(starts.solid (by decide)).1, (starts.solid (by decide)).2⟩

/-- What holds of commas and of the pieces of each item holds of the pieces of a list. -/
theorem forall_mem_listed {α : Type} {pieces : α → List Piece} {holds : Piece → Prop}
    {items : List α} (comma : holds (.mark [',']))
    (each : ∀ item ∈ items, ∀ piece ∈ pieces item, holds piece) :
    ∀ piece ∈ listed pieces items, holds piece := by
  cases items with
  | nil => exact fun piece member => by cases member
  | cons first others =>
      obtain ⟨ofFirst, ofOthers⟩ := List.forall_mem_cons.1 each
      intro piece member
      rcases List.mem_append.1 member with inFirst | inOthers
      · exact ofFirst piece inFirst
      · obtain ⟨other, isOther, inOther⟩ := List.mem_flatMap.1 inOthers
        rcases List.mem_cons.1 inOther with rfl | inOther
        · exact comma
        · exact ofOthers other isOther piece inOther

/-- Terms are no gaps. -/
theorem Term.WellFormed.isSolid {term : Term} (wellFormed : term.WellFormed) :
    ∀ piece ∈ term.pieces, piece.IsSolid := by
  rintro piece member
  obtain rfl := List.mem_singleton.1 member
  exact ⟨wellFormed.solid.1, wellFormed.solid.2⟩

/-- Fields are no gaps. -/
theorem FieldWellFormed.isSolid {field : Token × Term} (wellFormed : FieldWellFormed field) :
    ∀ piece ∈ fieldPieces field, piece.IsSolid := by
  refine List.forall_mem_cons.2 ⟨⟨wellFormed.isName.solid.1, wellFormed.isName.solid.2⟩, ?_⟩
  exact List.forall_mem_cons.2 ⟨isSolid_mark (by decide) _, wellFormed.term.isSolid⟩

/-- Arguments are no gaps. -/
theorem Args.WellFormed.isSolid {args : Args} (wellFormed : args.WellFormed) :
    ∀ piece ∈ args.pieces, piece.IsSolid := by
  cases wellFormed with
  | ordered wellFormed =>
      exact forall_mem_listed (isSolid_mark (by decide) _) fun term member =>
        (wellFormed term member).isSolid
  | named _ wellFormed =>
      exact forall_mem_listed (isSolid_mark (by decide) _) fun field member =>
        (wellFormed field member).isSolid

namespace Atom.WellFormed

variable {atom : Atom} (wellFormed : atom.WellFormed)

include wellFormed

/-- The arguments of an atom are no gaps. -/
theorem argsSolid : ∀ piece ∈ atom.argsPieces, piece.IsSolid := by
  refine List.forall_mem_append.2 ⟨List.forall_mem_cons.2 ⟨isSolid_mark (by decide) _,
    wellFormed.args.isSolid⟩, ?_⟩
  exact List.forall_mem_singleton.2 (isSolid_mark (by decide) _)

/-- Atoms are no gaps. -/
theorem isSolid : ∀ piece ∈ atom.pieces, piece.IsSolid :=
  List.forall_mem_cons.2
    ⟨⟨wellFormed.isName.solid.1, wellFormed.isName.solid.2⟩, wellFormed.argsSolid⟩

end Atom.WellFormed

/-- Parts of bodies are no gaps. -/
theorem Literal.WellFormed.isSolid {literal : Literal} (wellFormed : literal.WellFormed) :
    ∀ piece ∈ literal.pieces, piece.IsSolid := by
  cases wellFormed with
  | positive wellFormed =>
      exact List.forall_mem_cons.2
        ⟨⟨wellFormed.isName.solid.1, wellFormed.isName.solid.2⟩, wellFormed.argsSolid⟩
  | negated wellFormed =>
      exact List.forall_mem_cons.2 ⟨isSolid_negation, wellFormed.isSolid⟩
  | comparison isLeft isOperator isRight =>
      exact List.forall_mem_cons.2 ⟨⟨isLeft.solid.1, isLeft.solid.2⟩,
        List.forall_mem_cons.2 ⟨⟨isOperator.solid.1, isOperator.solid.2⟩, isRight.isSolid⟩⟩

/-- Clauses are no gaps. -/
theorem Clause.WellFormed.isSolid {clause : Clause} (wellFormed : clause.WellFormed) :
    ∀ piece ∈ clause.pieces, piece.IsSolid := by
  have stop : ∀ piece ∈ [Piece.mark ['.']], piece.IsSolid :=
    List.forall_mem_singleton.2 (isSolid_mark (by decide) [])
  cases wellFormed with
  | fact isHead => exact List.forall_mem_append.2 ⟨isHead.isSolid, stop⟩
  | rule isHead _ isBody =>
      refine List.forall_mem_append.2 ⟨List.forall_mem_append.2 ⟨isHead.isSolid, ?_⟩, stop⟩
      exact List.forall_mem_cons.2 ⟨isSolid_mark (by decide) _,
        forall_mem_listed (isSolid_mark (by decide) _) fun literal member =>
          (isBody literal member).isSolid⟩

/-- Sequences of clauses are no gaps. -/
theorem isSolid_clauses {clauses : List Clause}
    (wellFormed : ∀ clause ∈ clauses, clause.WellFormed) :
    ∀ piece ∈ clauses.flatMap Clause.pieces, piece.IsSolid := by
  intro piece member
  obtain ⟨clause, isClause, member⟩ := List.mem_flatMap.1 member
  exact (wellFormed clause isClause).isSolid piece member

/-- Tokens of well-formed clauses have a lexeme. -/
theorem lexeme_ne_of_mem_tokensOf {pieces : List Piece} (isSolid : ∀ piece ∈ pieces, piece.IsSolid)
    {token : Token} (member : token ∈ tokensOf pieces) : token.lexeme ≠ "" := by
  obtain ⟨piece, member, isToken⟩ := List.mem_filterMap.1 member
  have nonempty := (isSolid piece member).nonempty
  rw [Piece.chars_of_token? isToken] at nonempty
  exact mt String.toList_eq_nil_iff.2 nonempty

end Datalog.Source
