import Datalog.Error
import Datalog.Source.Grammar

/-!
# Programs

A program is a sequence of clauses with gaps around them. A clause that is malformed is
reported and passed over up to the full stop that ends it. That full stop is looked for outside
strings, but comments are not recognized on the way: every malformed clause gets a report of
its own as long as no comment inside of one has a full stop or a quotation mark in it.
-/

namespace Datalog.Source

/-- The cursor behind the next full stop that is neither inside a string nor in front of a
digit, or at the end of the text. -/
def skipClause (inString escaped : Bool) : List Char → Nat → Cursor
  | [], offset => ⟨[], offset⟩
  | char :: rest, offset =>
      let next := offset + char.utf8Size
      if escaped then skipClause inString false rest next
      else if char = '\\' ∧ inString then skipClause inString true rest next
      else if char = '"' then skipClause (!inString) false rest next
      else if char = '.' ∧ !inString ∧ !(rest.head?.any Char.isDigit) then ⟨rest, next⟩
      else skipClause inString false rest next

/-- The cursor from which to go on after a clause that began here and is malformed. -/
def Cursor.skipClause (cursor : Cursor) : Cursor :=
  Source.skipClause false false cursor.rest cursor.offset

/-- What becomes of each clause of a text, read one after the other. Each takes at least one
character, so the characters of the text bound their number. -/
def readClauses : (bound : List Char) → Cursor → List (Except Failure Clause)
  | [], _ => []
  | _ :: bound, cursor =>
      match Parser.gap.run cursor with
      | .error _ => []
      | .ok (_, start) =>
          if start.rest.isEmpty then []
          else match Parser.clause.run start with
            | .ok (clause, next) => .ok clause :: readClauses bound next
            | .error failure => .error failure :: readClauses bound start.skipClause

/-- The report of a failure, which points past any white space at the place of the failure. -/
def Failure.report (source : String) (failure : Failure) : Malformation :=
  let space := failure.place.rest.takeWhile Text.isWhiteSpace
  let place := failure.place.skip space
  { position := .locate source place.offset
    construct := failure.construct
    expected := failure.expected
    found := place.rest.head? }

/-- The clauses of a source, or else a report of every malformed one. -/
def parse (source : String) : Except Error (List Clause) :=
  let start := Cursor.start source
  let outcomes := readClauses start.rest start
  let reports := outcomes.filterMap fun
    | .error failure => some (failure.report source)
    | .ok _ => none
  if reports.isEmpty then .ok (outcomes.filterMap Except.toOption)
  else .error (.malformed reports)

end Datalog.Source
