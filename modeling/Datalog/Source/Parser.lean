import Datalog.Source.Tree

/-!
# Parsers

A parser reads from a cursor and answers with a result and a later cursor, or with a failure
that tells where it happened. A failure is recoverable until the parser commits: `orElse`,
`optional` and `many` try something else after a recoverable one, while a committed one ends
the clause. The innermost construct that was being read names the failure. What a composed
parser reads follows from its parts by the lemmas on `run`.
-/

namespace Datalog.Source

-- Sums start from the numeral zero, also where another zero is in scope.
attribute [local instance (1100)] Zero.ofOfNat0

/-- How many bytes characters take. -/
def textSize (chars : List Char) : Nat :=
  (chars.map Char.utf8Size).sum

/-- A place in the source: what is left to read, and how many bytes come before it. -/
structure Cursor where
  rest : List Char
  offset : Nat
  deriving DecidableEq, Inhabited

/-- The cursor at the beginning of a source. -/
def Cursor.start (source : String) : Cursor :=
  ⟨source.toList, 0⟩

/-- The cursor behind a lexeme that begins here. -/
def Cursor.skip (cursor : Cursor) (lexeme : List Char) : Cursor :=
  ⟨cursor.rest.drop lexeme.length, cursor.offset + textSize lexeme⟩

/-- Where reading failed, which character had to follow there if only one could, inside
which construct, and whether another way of reading may still be tried. -/
structure Failure where
  place : Cursor
  expected : Option Char
  construct : Option String
  committed : Bool
  deriving DecidableEq

/-- A way of reading an `α` from the front of a text. -/
def Parser (α : Type) : Type :=
  StateT Cursor (Except Failure) α

namespace Parser

variable {α β : Type}

instance : Monad Parser :=
  inferInstanceAs (Monad (StateT Cursor (Except Failure)))

instance : LawfulMonad Parser :=
  inferInstanceAs (LawfulMonad (StateT Cursor (Except Failure)))

/-- Read from a cursor. -/
def run (parser : Parser α) (cursor : Cursor) : Except Failure (α × Cursor) :=
  StateT.run parser cursor

/-- The parser with a given answer for each cursor. -/
def ofFunction (answer : Cursor → Except Failure (α × Cursor)) : Parser α :=
  answer

/-- A constant answer reads nothing. -/
@[simp] theorem run_pure (result : α) (cursor : Cursor) :
    (pure result : Parser α).run cursor = .ok (result, cursor) :=
  rfl

/-- A sequence goes on where its first part stopped, unless that failed. -/
theorem run_bind (parser : Parser α) (next : α → Parser β) (cursor : Cursor) :
    (parser >>= next).run cursor =
      match parser.run cursor with
      | .ok (result, later) => (next result).run later
      | .error failure => .error failure := by
  change (parser.run cursor).bind (fun answer => (next answer.1).run answer.2) = _
  cases parser.run cursor <;> rfl

/-- The sequence is read where both parts are. -/
theorem run_bind_eq_ok_iff {parser : Parser α} {next : α → Parser β} {cursor later : Cursor}
    {result : β} :
    (parser >>= next).run cursor = .ok (result, later) ↔
      ∃ first middle, parser.run cursor = .ok (first, middle) ∧
        (next first).run middle = .ok (result, later) := by
  rw [run_bind]
  split
  next first middle read =>
    simp only [read, Except.ok.injEq, Prod.mk.injEq]
    exact ⟨fun followed => ⟨first, middle, ⟨rfl, rfl⟩, followed⟩,
      fun ⟨_, _, ⟨sameFirst, sameMiddle⟩, followed⟩ => sameFirst ▸ sameMiddle ▸ followed⟩
  next failure failed => simp [failed]

/-- An answer given by a function is that function's answer. -/
@[simp] theorem run_ofFunction (answer : Cursor → Except Failure (α × Cursor)) (cursor : Cursor) :
    (ofFunction answer).run cursor = answer cursor :=
  rfl

/-- Fail recoverably at a cursor. -/
def failAt (cursor : Cursor) (expected : Option Char) : Parser α :=
  ofFunction fun _ => .error ⟨cursor, expected, none, false⟩

/-- Fail recoverably where the parser stands. -/
def fail (expected : Option Char) : Parser α :=
  ofFunction fun cursor => (failAt cursor expected).run cursor

/-- The cursor where the parser stands. -/
def here : Parser Cursor :=
  ofFunction fun cursor => .ok (cursor, cursor)

/-- Read a lexeme that is known to come next. -/
def consume (lexeme : List Char) : Parser (List Char) :=
  ofFunction fun cursor => .ok (lexeme, cursor.skip lexeme)

/-- Read one given character. -/
def char (expected : Char) : Parser (List Char) := do
  let cursor ← here
  if cursor.rest.head? = some expected then consume [expected] else fail (some expected)

/-- Read one character of a class. -/
def satisfy (class? : Char → Bool) : Parser (List Char) := do
  let cursor ← here
  match cursor.rest.head? with
  | some next => if class? next then consume [next] else fail none
  | none => fail none

/-- Read given characters. -/
def text (expected : List Char) : Parser (List Char) := do
  let cursor ← here
  if expected.isPrefixOf cursor.rest then consume expected else fail none

/-- Read as many characters of a class as there are. -/
def charsWhile (class? : Char → Bool) : Parser (List Char) := do
  let cursor ← here
  consume (cursor.rest.takeWhile class?)

/-- Read as many characters of a class as there are, but at least one. -/
def someChars (class? : Char → Bool) : Parser (List Char) := do
  let cursor ← here
  match cursor.rest.takeWhile class? with
  | [] => fail none
  | chars => consume chars

/-- Read in a second way after a recoverable failure of the first. -/
def orElse (first second : Parser α) : Parser α :=
  ofFunction fun cursor =>
    match first.run cursor with
    | .error failure => if failure.committed then .error failure else second.run cursor
    | success => success

/-- Read something unless it fails recoverably. -/
def optional (parser : Parser α) : Parser (Option α) :=
  orElse (some <$> parser) (pure none)

/-- Read something until it fails recoverably, at most once for each element of the bound. -/
def manyWithin (parser : Parser α) : List Char → Parser (List α)
  | [] => pure []
  | _ :: bound => do
      match ← optional parser with
      | some item => return item :: (← manyWithin parser bound)
      | none => return []

/-- Read something until it fails recoverably. What is read each time must not be empty, so
the characters that are left bound the number of times. -/
def many (parser : Parser α) : Parser (List α) := do
  manyWithin parser (← here).rest

/-- Read items with separators between them, at least one. A separator without an item after
it is not read. -/
def separated (separator : Parser β) (item : Parser α) : Parser (List α) := do
  let first ← item
  let others ← many (do let _ ← separator; item)
  return first :: others

/-- Let no failure of a parser be recovered from. -/
def commit (parser : Parser α) : Parser α :=
  ofFunction fun cursor =>
    (parser.run cursor).mapError fun failure => { failure with committed := true }

/-- Say what a parser reads, for failures that do not say it yet. -/
def within (construct : String) (parser : Parser α) : Parser α :=
  ofFunction fun cursor =>
    (parser.run cursor).mapError fun failure =>
      { failure with construct := failure.construct <|> some construct }

/-- Read a lexeme as a token. -/
def token (lexeme : Parser (List Char)) : Parser Token := do
  let cursor ← here
  return ⟨String.ofList (← lexeme), cursor.offset⟩

/-- The first way of reading counts unless it fails recoverably. -/
theorem run_orElse (first second : Parser α) (cursor : Cursor) :
    (orElse first second).run cursor =
      match first.run cursor with
      | .error failure => if failure.committed then .error failure else second.run cursor
      | success => success :=
  rfl

/-- Committing changes no success. -/
theorem run_commit_eq_ok_iff {parser : Parser α} {cursor later : Cursor} {result : α} :
    (commit parser).run cursor = .ok (result, later) ↔ parser.run cursor = .ok (result, later) := by
  rw [commit, run_ofFunction]
  cases parser.run cursor with
  | error failure => exact iff_of_false (fun isOk => by cases isOk) (fun isOk => by cases isOk)
  | ok read => exact Iff.rfl

/-- Naming a construct changes no success. -/
theorem run_within_eq_ok_iff {construct : String} {parser : Parser α} {cursor later : Cursor}
    {result : α} :
    (within construct parser).run cursor = .ok (result, later) ↔
      parser.run cursor = .ok (result, later) := by
  rw [within, run_ofFunction]
  cases parser.run cursor with
  | error failure => exact iff_of_false (fun isOk => by cases isOk) (fun isOk => by cases isOk)
  | ok read => exact Iff.rfl

end Parser

end Datalog.Source
