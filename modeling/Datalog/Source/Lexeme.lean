import Datalog.Number.Decimal
import Datalog.Source.Parser
import Datalog.Text.CharClass
import Datalog.Text.Quoted

/-!
# Lexemes

The smallest parts of a source text: gaps of blanks and comments, names, and the literals of
values. Each parser of a literal gives the characters it read together with the value they
denote.
-/

namespace Datalog.Source.Parser

/-- Read one or more blanks. -/
def blanks : Parser (List Char) :=
  someChars Text.isBlank

/-- Whether a character ends a line, alone or together with the next one. -/
def isLineBreak (char : Char) : Bool :=
  char == '\r' || char == '\n'

/-- Read the rest of a line up to its end, which is a line feed, a carriage return with a
line feed or the end of the text. A carriage return alone does not end a line, and nothing
is read before one. -/
def lineRest : Parser (List Char) := do
  let cursor ← here
  let line := cursor.rest.takeWhile (!isLineBreak ·)
  match cursor.rest.drop line.length with
  | '\r' :: '\n' :: _ => consume line
  | '\r' :: _ => fail none
  | _ => consume line

/-- Read a comment up to the end of its line. -/
def comment : Parser (List Char) :=
  orElse (do return (← char '%') ++ (← lineRest)) <|
    do return (← text ['/', '/']) ++ (← lineRest)

/-- Pass over blanks and comments. -/
def gap : Parser Unit := do
  let _ ← many (orElse blanks comment)

/-- Read something behind a gap. -/
def spaced {α : Type} (parser : Parser α) : Parser α := do
  gap
  parser

/-- Read a name that begins with an alphabetic character. -/
def identifier : Parser (List Char) := do
  return (← satisfy Text.isAlphabetic) ++ (← charsWhile Text.isNameChar)

/-- Read a name that begins with an underscore. -/
def wildcard : Parser (List Char) := do
  return (← char '_') ++ (← charsWhile Text.isNameChar)

/-- Read a minus sign if there is one. -/
def sign : Parser (List Char) := do
  return (← optional (char '-')).getD []

/-- Read one or more digits. -/
def digits : Parser (List Char) :=
  someChars Char.isDigit

/-- The number that digits denote. -/
def digitsValue (digits : List Char) : Nat :=
  Nat.ofDigitChars 10 digits 0

/-- A magnitude with a sign, as it is read from digits. -/
def signed (sign : List Char) (magnitude : Nat) : Int :=
  if sign.isEmpty then magnitude else -magnitude

/-- Read a 64-bit integer; one out of range is refused as a whole. -/
def integer : Parser (List Char × Int64) := do
  let start ← here
  let sign ← sign
  let digits ← digits
  let number := signed sign (digitsValue digits)
  if -(2 ^ 63) ≤ number ∧ number < 2 ^ 63 then return (sign ++ digits, Int64.ofInt number)
  else failAt start none

/-- Read the exponent of a float: its lexeme and its value. -/
def exponent : Parser (List Char × Int) := do
  let mark ← satisfy fun char => char == 'e' || char == 'E'
  let sign := (← optional (satisfy fun char => char == '+' || char == '-')).getD []
  let digits ← digits
  let power := digitsValue digits
  return (mark ++ sign ++ digits, if sign = ['-'] then -power else power)

/-- Read a float: digits around a point, and perhaps an exponent. It denotes the nearest
number. -/
def float : Parser (List Char × Binary64) := do
  let sign ← sign
  let whole ← digits
  let point ← char '.'
  let fraction ← digits
  let (exponentLexeme, power) := (← optional exponent).getD ([], 0)
  return (sign ++ whole ++ point ++ fraction ++ exponentLexeme,
    .ofDecimal (!sign.isEmpty) (digitsValue (whole ++ fraction)) (power - fraction.length))

/-- Read the body of a string up to the quote that ends it: its lexeme and the text it
stands for. A body with an unknown escape is not read at all. -/
def stringBody : Parser (List Char × List Char) := do
  let cursor ← here
  let (body, _) := Text.Quoted.splitBody cursor.rest
  match Text.Quoted.unescape body with
  | some text => return (← consume body, text)
  | none => return ([], [])

/-- Read a string in quotes; only its beginning can be something else. -/
def string : Parser (List Char × List Char) := do
  let opening ← char '"'
  let (body, text) ← stringBody
  let closing ← commit (within "string literal" (char '"'))
  return (opening ++ body ++ closing, text)

/-- Read a keyword: a colon and, right behind it, a name. -/
def keyword : Parser (List Char × List Char) := do
  let colon ← char ':'
  let name ← identifier
  return (colon ++ name, name)

/-- Read a literal that is not spelled as a name. -/
def literal : Parser (List Char × Value) :=
  orElse (do let (lexeme, number) ← float; return (lexeme, .float number)) <|
  orElse (do let (lexeme, number) ← integer; return (lexeme, .int number)) <|
  orElse (do let (lexeme, text) ← string; return (lexeme, .string (String.ofList text))) <|
  do let (lexeme, name) ← keyword; return (lexeme, .keyword (String.ofList name))

end Datalog.Source.Parser
