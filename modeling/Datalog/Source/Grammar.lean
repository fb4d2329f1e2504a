import Datalog.Source.Lexeme

/-!
# The grammar of clauses

Every construct may begin with a gap. Once the beginning of an atom, a negation, a
comparison, a rule body or a clause rules out any other reading, the parser commits, so that
failures behind it are reported where they are.
-/

namespace Datalog.Source.Parser

/-- The value of a name that is a literal. -/
def namedLiteral? : List Char → Option Value
  | ['t', 'r', 'u', 'e'] => some (.bool true)
  | ['f', 'a', 'l', 's', 'e'] => some (.bool false)
  | ['n', 'u', 'l', 'l'] => some .null
  | _ => none

/-- Read a term: a literal, a wildcard or a name. -/
def term : Parser Term := spaced do
  let offset := (← here).offset
  let token (lexeme : List Char) : Token := ⟨String.ofList lexeme, offset⟩
  orElse (do let (lexeme, value) ← literal; return .literal (token lexeme) value) <|
  orElse (do return .wildcard (token (← wildcard))) <|
  do
    let name ← identifier
    match namedLiteral? name with
    | some value => return .literal (token name) value
    | none => return .identifier (token name)

/-- Read a character behind a gap. -/
def mark (expected : Char) : Parser Unit := do
  let _ ← spaced (char expected)

/-- Read a field name with its colon, and the term of the field. -/
def namedArg : Parser (Token × Term) := do
  let field ← spaced (token identifier)
  mark ':'
  return (field, ← term)

/-- Read arguments: all with field names, or else all without. -/
def args : Parser Args :=
  orElse (.named <$> separated (mark ',') namedArg) <|
    do return .ordered ((← optional (separated (mark ',') term)).getD [])

/-- Read an atom. -/
def atom : Parser Atom := do
  let relation ← spaced (token identifier)
  mark '('
  let args ← args
  commit (within "atom" (mark ')'))
  return ⟨relation, args⟩

/-- Read the word that negates an atom and the blanks that must follow it. -/
def negation : Parser (List Char) := spaced do
  let word ← text ['n', 'o', 't']
  let _ ← blanks
  return word

/-- Read a negated atom. -/
def negatedAtom : Parser Atom := do
  let _ ← negation
  commit (within "negated atom" atom)

/-- Read a run of the characters that operators are made of. -/
def comparisonOperator : Parser Token :=
  spaced (token (someChars fun char => ['<', '>', '=', '!'].contains char))

/-- Read a comparison. -/
def comparison : Parser Literal := do
  let left ← term
  let operator ← comparisonOperator
  let right ← commit (within "comparison" term)
  return .comparison left operator right

/-- Read a part of a rule body. -/
def bodyLiteral : Parser Literal :=
  orElse (.negated <$> negatedAtom) (orElse (.positive <$> atom) comparison)

/-- Read the sign between the head and the body of a rule. -/
def turnstile : Parser (List Char) :=
  spaced (text [':', '-'])

/-- Read a rule body. -/
def body : Parser (List Literal) := do
  let _ ← turnstile
  commit (within "rule body" (separated (mark ',') bodyLiteral))

/-- Read a clause with its full stop. -/
def clause : Parser Clause := do
  let head ← within "clause head" atom
  let body? ← optional body
  commit (within "end of clause" (mark '.'))
  return match body? with
    | some body => .rule head body
    | none => .fact head

end Datalog.Source.Parser
