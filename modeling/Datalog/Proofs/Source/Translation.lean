import Datalog.Proofs.Source.Reading
import Datalog.Source.Program

/-!
# Reading at another offset

Parsers look at the text that is left to read and never at the offset where they stand; they
only write it into tokens and failures. So the same text read further on gives the same
clauses and failures with all offsets moved (`readClauses_movedBy`). The lemmas on combinators
relate two parsers (`Parser.Moves`), because what follows a token in a sequence depends on its
offset.
-/

namespace Datalog.Source

/-- The same text left to read, further on by some bytes. -/
def Cursor.movedBy (size : Nat) (cursor : Cursor) : Cursor :=
  { cursor with offset := size + cursor.offset }

/-- The token further on. -/
def Token.movedBy (size : Nat) (token : Token) : Token :=
  { token with offset := size + token.offset }

/-- The term with its token further on. -/
def Term.movedBy (size : Nat) : Term → Term
  | literal token value => .literal (token.movedBy size) value
  | identifier token => .identifier (token.movedBy size)
  | wildcard token => .wildcard (token.movedBy size)

/-- The field with its tokens further on. -/
def fieldMovedBy (size : Nat) (field : Token × Term) : Token × Term :=
  (field.1.movedBy size, field.2.movedBy size)

/-- The arguments with their tokens further on. -/
def Args.movedBy (size : Nat) : Args → Args
  | ordered terms => .ordered (terms.map (Term.movedBy size))
  | named fields => .named (fields.map (fieldMovedBy size))

/-- The atom with its tokens further on. -/
def Atom.movedBy (size : Nat) (atom : Atom) : Atom :=
  ⟨atom.relation.movedBy size, atom.args.movedBy size⟩

/-- The part of a body with its tokens further on. -/
def Literal.movedBy (size : Nat) : Literal → Literal
  | positive atom => .positive (atom.movedBy size)
  | negated atom => .negated (atom.movedBy size)
  | comparison left operator right =>
      .comparison (left.movedBy size) (operator.movedBy size) (right.movedBy size)

/-- The clause with its tokens further on. -/
def Clause.movedBy (size : Nat) : Clause → Clause
  | fact head => .fact (head.movedBy size)
  | rule head body => .rule (head.movedBy size) (body.map (Literal.movedBy size))

/-- The failure at a place further on. -/
def Failure.movedBy (size : Nat) (failure : Failure) : Failure :=
  { failure with place := failure.place.movedBy size }

/-- What becomes of a clause further on. -/
def movedOutcome (size : Nat) : Except Failure Clause → Except Failure Clause
  | .ok clause => .ok (clause.movedBy size)
  | .error failure => .error (failure.movedBy size)

/-- The text that is left is the same. -/
@[simp] theorem Cursor.rest_movedBy (size : Nat) (cursor : Cursor) :
    (cursor.movedBy size).rest = cursor.rest :=
  rfl

/-- Skipping characters is the same further on. -/
theorem Cursor.skip_movedBy (size : Nat) (cursor : Cursor) (chars : List Char) :
    (cursor.movedBy size).skip chars = (cursor.skip chars).movedBy size :=
  congrArg (Cursor.mk _) (Nat.add_assoc size cursor.offset (textSize chars))

namespace Parser

variable {α β : Type} {size : Nat}

/-- An answer of a parser further on. -/
def movedAnswer (size : Nat) (move : α → α) :
    Except Failure (α × Cursor) → Except Failure (α × Cursor)
  | .ok (result, later) => .ok (move result, later.movedBy size)
  | .error failure => .error (failure.movedBy size)

/-- The second parser reads further on what the first one reads. -/
def Moves (size : Nat) (move : α → α) (parser moved : Parser α) : Prop :=
  ∀ cursor, moved.run (cursor.movedBy size) = movedAnswer size move (parser.run cursor)

section Combinators

variable {move : α → α} {moveNext : β → β} {parser moved : Parser α}

/-- A constant is moved as its value is. -/
theorem moves_pure (result : α) : Moves size move (pure result) (pure (move result)) :=
  fun _ => rfl

/-- A failure is moved with the parser. -/
theorem moves_fail (expected : Option Char) :
    Moves size move (fail expected : Parser α) (fail expected) :=
  fun _ => rfl

/-- A failure elsewhere is moved with its place. -/
theorem moves_failAt (place : Cursor) (expected : Option Char) :
    Moves size move (failAt place expected : Parser α) (failAt (place.movedBy size) expected) :=
  fun _ => rfl

/-- A parser that looks where it stands is moved if it is wherever it stands. -/
theorem moves_here_bind {next movedNext : Cursor → Parser α}
    (moves : ∀ cursor, Moves size move (next cursor) (movedNext (cursor.movedBy size))) :
    Moves size move (here >>= next) (here >>= movedNext) :=
  fun cursor => moves cursor cursor

namespace Moves

/-- A sequence is moved if its parts are. -/
theorem bind {next movedNext : α → Parser β} (moves : Moves size move parser moved)
    (movesNext : ∀ first, Moves size moveNext (next first) (movedNext (move first))) :
    Moves size moveNext (parser >>= next) (moved >>= movedNext) := by
  intro cursor
  rw [run_bind, run_bind, moves cursor]
  cases parser.run cursor with
  | error failure => rfl
  | ok read => exact movesNext read.1 read.2

/-- A mapped parser is moved if it maps moved results to moved ones. -/
theorem map {map : α → β} (moves : Moves size move parser moved)
    (commutes : ∀ result, map (move result) = moveNext (map result)) :
    Moves size moveNext (map <$> parser) (map <$> moved) := by
  rw [map_eq_pure_bind, map_eq_pure_bind]
  refine moves.bind fun result => ?_
  rw [commutes]
  exact moves_pure (map result)

/-- A choice is moved if both ways of reading are. -/
theorem orElse {second movedSecond : Parser α} (moves : Moves size move parser moved)
    (movesSecond : Moves size move second movedSecond) :
    Moves size move (orElse parser second) (orElse moved movedSecond) := by
  intro cursor
  rw [run_orElse, run_orElse, moves cursor]
  cases parser.run cursor with
  | error failure =>
      change (if failure.committed then _ else _) = movedAnswer size move (if _ then _ else _)
      split
      next => rfl
      next => exact movesSecond cursor
  | ok read => rfl

/-- An optional part is moved if it is where it is not missing. -/
theorem optional (moves : Moves size move parser moved) :
    Moves size (Option.map move) (optional parser) (optional moved) := by
  have movesSome : Moves size (Option.map move) (some <$> parser) (some <$> moved) :=
    moves.map fun _ => rfl
  exact movesSome.orElse (moves_pure none)

/-- A repetition is moved if what it repeats is. -/
theorem manyWithin (moves : Moves size move parser moved) (bound : List Char) :
    Moves size (List.map move) (manyWithin parser bound) (manyWithin moved bound) := by
  induction bound with
  | nil => exact moves_pure []
  | cons _ bound inductionHypothesis =>
      refine moves.optional.bind fun found => ?_
      cases found with
      | none => exact moves_pure []
      | some item => exact inductionHypothesis.bind fun others => moves_pure (item :: others)

/-- A repetition is moved if what it repeats is. -/
theorem many (moves : Moves size move parser moved) :
    Moves size (List.map move) (many parser) (many moved) :=
  moves_here_bind fun cursor => moves.manyWithin cursor.rest

/-- Items with separators are moved if both are. -/
theorem separated {separator movedSeparator : Parser β}
    (movesSeparator : Moves size moveNext separator movedSeparator)
    (moves : Moves size move parser moved) :
    Moves size (List.map move) (separated separator parser) (separated movedSeparator moved) :=
  moves.bind fun first => (movesSeparator.bind fun _ => moves).many.bind fun others =>
    moves_pure (first :: others)

/-- Committing moves no less. -/
theorem commit (moves : Moves size move parser moved) :
    Moves size move (commit parser) (commit moved) := by
  intro cursor
  rw [Parser.commit, Parser.commit, run_ofFunction, run_ofFunction, moves cursor]
  cases parser.run cursor <;> rfl

/-- Naming a construct moves no less. -/
theorem within (moves : Moves size move parser moved) (construct : String) :
    Moves size move (within construct parser) (within construct moved) := by
  intro cursor
  rw [Parser.within, Parser.within, run_ofFunction, run_ofFunction, moves cursor]
  cases parser.run cursor <;> rfl

end Moves

end Combinators

section Lexemes

/-- A known lexeme is the same further on. -/
theorem moves_consume (lexeme : List Char) : Moves size id (consume lexeme) (consume lexeme) := by
  intro cursor
  rw [consume, run_ofFunction, run_ofFunction, Cursor.skip_movedBy]
  rfl

/-- A given character is the same further on. -/
theorem moves_char (expected : Char) : Moves size id (char expected) (char expected) := by
  refine moves_here_bind fun cursor => ?_
  rw [Cursor.rest_movedBy]
  split
  next => exact moves_consume _
  next => exact moves_fail _

/-- A character of a class is the same further on. -/
theorem moves_satisfy (class? : Char → Bool) :
    Moves size id (satisfy class?) (satisfy class?) := by
  refine moves_here_bind fun cursor => ?_
  rw [Cursor.rest_movedBy]
  split
  next =>
    split
    next => exact moves_consume _
    next => exact moves_fail _
  next => exact moves_fail _

/-- Given characters are the same further on. -/
theorem moves_text (expected : List Char) : Moves size id (text expected) (text expected) := by
  refine moves_here_bind fun cursor => ?_
  rw [Cursor.rest_movedBy]
  split
  next => exact moves_consume _
  next => exact moves_fail _

/-- Characters of a class are the same further on. -/
theorem moves_charsWhile (class? : Char → Bool) :
    Moves size id (charsWhile class?) (charsWhile class?) :=
  moves_here_bind fun cursor => moves_consume (cursor.rest.takeWhile class?)

/-- Some characters of a class are the same further on. -/
theorem moves_someChars (class? : Char → Bool) :
    Moves size id (someChars class?) (someChars class?) := by
  refine moves_here_bind fun cursor => ?_
  rw [Cursor.rest_movedBy]
  split
  next => exact moves_fail _
  next => exact moves_consume _

/-- The rest of a line is the same further on. -/
theorem moves_lineRest : Moves size id lineRest lineRest := by
  refine moves_here_bind fun cursor => ?_
  dsimp only
  rw [Cursor.rest_movedBy]
  split
  next => exact moves_consume _
  next => exact moves_fail _
  next => exact moves_consume _

/-- Comments are the same further on. -/
theorem moves_comment : Moves size id comment comment :=
  .orElse (.bind (moves_char '%') fun _ => .bind moves_lineRest fun _ => moves_pure _)
    (.bind (moves_text _) fun _ => .bind moves_lineRest fun _ => moves_pure _)

/-- Gaps are the same further on. -/
theorem moves_gap : Moves size id gap gap :=
  .bind (.many (.orElse (moves_someChars _) moves_comment)) fun _ => moves_pure ()

/-- What stands behind a gap is moved with it. -/
theorem Moves.spaced {move : α → α} {parser moved : Parser α}
    (moves : Moves size move parser moved) : Moves size move (spaced parser) (spaced moved) :=
  .bind moves_gap fun _ => moves

/-- Names are the same further on. -/
theorem moves_identifier : Moves size id identifier identifier :=
  .bind (moves_satisfy _) fun _ => .bind (moves_charsWhile _) fun _ => moves_pure _

/-- Wildcards are the same further on. -/
theorem moves_wildcard : Moves size id wildcard wildcard :=
  .bind (moves_char _) fun _ => .bind (moves_charsWhile _) fun _ => moves_pure _

/-- A sign is the same further on. -/
theorem moves_sign : Moves size id sign sign :=
  .bind (.optional (moves_char '-')) fun _ => by rw [Option.map_id]; exact moves_pure _

/-- An integer is the same further on. -/
theorem moves_integer : Moves size id integer integer := by
  refine moves_here_bind fun start => .bind moves_sign fun sign =>
    .bind (moves_someChars _) fun digits => ?_
  dsimp only [id]
  split
  next => exact moves_pure _
  next => exact moves_failAt start none

/-- An exponent is the same further on. -/
theorem moves_exponent : Moves size id exponent exponent := by
  refine .bind (moves_satisfy _) fun mark => .bind (.optional (moves_satisfy _)) fun sign => ?_
  rw [Option.map_id]
  exact .bind (moves_someChars _) fun _ => moves_pure _

/-- A float is the same further on. -/
theorem moves_float : Moves size id float float := by
  refine .bind moves_sign fun sign => .bind (moves_someChars _) fun whole =>
    .bind (moves_char '.') fun point => .bind (moves_someChars _) fun fraction =>
      .bind (.optional moves_exponent) fun exponent => ?_
  rw [Option.map_id]
  exact moves_pure _

/-- The body of a string is the same further on. -/
theorem moves_stringBody : Moves size id stringBody stringBody := by
  refine moves_here_bind fun cursor => ?_
  rw [Cursor.rest_movedBy]
  dsimp only
  split
  next => exact .bind (moves_consume _) fun _ => moves_pure _
  next => exact moves_pure _

/-- A string is the same further on. -/
theorem moves_string : Moves size id string string :=
  .bind (moves_char '"') fun _ => .bind moves_stringBody fun _ =>
    .bind (.commit (.within (moves_char '"') _)) fun _ => moves_pure _

/-- A keyword is the same further on. -/
theorem moves_keyword : Moves size id keyword keyword :=
  .bind (moves_char ':') fun _ => .bind moves_identifier fun _ => moves_pure _

/-- A literal is the same further on. -/
theorem moves_literal : Moves size id literal literal :=
  .orElse (.bind moves_float fun _ => moves_pure _) <|
  .orElse (.bind moves_integer fun _ => moves_pure _) <|
  .orElse (.bind moves_string fun _ => moves_pure _) <|
  .bind moves_keyword fun _ => moves_pure _

end Lexemes

section Grammar

/-- Tokens are further on. -/
theorem Moves.token {lexeme : Parser (List Char)} (moves : Moves size id lexeme lexeme) :
    Moves size (Token.movedBy size) (token lexeme) (token lexeme) :=
  moves_here_bind fun cursor => moves.bind fun chars =>
    moves_pure (⟨String.ofList chars, cursor.offset⟩ : Token)

/-- Terms are further on. -/
theorem moves_term : Moves size (Term.movedBy size) term term := by
  refine .spaced (moves_here_bind fun cursor => ?_)
  refine .orElse (.bind moves_literal fun read => moves_pure (Term.literal _ _)) ?_
  refine .orElse (.bind moves_wildcard fun lexeme => moves_pure (Term.wildcard _)) ?_
  refine .bind moves_identifier fun name => ?_
  dsimp only [id]
  split
  next => exact moves_pure (Term.literal _ _)
  next => exact moves_pure (Term.identifier _)

/-- Punctuation is the same further on. -/
theorem moves_mark (expected : Char) : Moves size id (mark expected) (mark expected) :=
  .bind (.spaced (moves_char expected)) fun _ => moves_pure ()

/-- Fields are further on. -/
theorem moves_namedArg : Moves size (fieldMovedBy size) namedArg namedArg :=
  .bind (.spaced (.token moves_identifier)) fun field => .bind (moves_mark ':') fun _ =>
    .bind moves_term fun term => moves_pure (field, term)

/-- Arguments are further on. -/
theorem moves_args : Moves size (Args.movedBy size) args args := by
  refine .orElse (.map (.separated (moves_mark ',') moves_namedArg) fun _ => rfl) ?_
  refine .bind (.optional (.separated (moves_mark ',') moves_term)) fun terms => ?_
  cases terms with
  | none => exact moves_pure (Args.ordered [])
  | some terms => exact moves_pure (Args.ordered terms)

/-- Atoms are further on. -/
theorem moves_atom : Moves size (Atom.movedBy size) atom atom :=
  .bind (.spaced (.token moves_identifier)) fun relation => .bind (moves_mark '(') fun _ =>
    .bind moves_args fun args => .bind (.commit (.within (moves_mark ')') _)) fun _ =>
      moves_pure (⟨relation, args⟩ : Atom)

/-- Negated atoms are further on. -/
theorem moves_negatedAtom : Moves size (Atom.movedBy size) negatedAtom negatedAtom := by
  have movesNegation : Moves size id negation negation :=
    .spaced (.bind (moves_text _) fun _ => .bind (moves_someChars _) fun _ => moves_pure _)
  exact .bind movesNegation fun _ => .commit (.within moves_atom _)

/-- Comparisons are further on. -/
theorem moves_comparison : Moves size (Literal.movedBy size) comparison comparison :=
  .bind moves_term fun left => .bind (.spaced (.token (moves_someChars _))) fun operator =>
    .bind (.commit (.within moves_term _)) fun right =>
      moves_pure (Literal.comparison left operator right)

/-- Parts of bodies are further on. -/
theorem moves_bodyLiteral : Moves size (Literal.movedBy size) bodyLiteral bodyLiteral :=
  .orElse (.map moves_negatedAtom fun _ => rfl)
    (.orElse (.map moves_atom fun _ => rfl) moves_comparison)

/-- Bodies are further on. -/
theorem moves_body : Moves size (List.map (Literal.movedBy size)) body body := by
  have movesTurnstile : Moves size id turnstile turnstile := .spaced (moves_text _)
  exact .bind movesTurnstile fun _ =>
    .commit (.within (.separated (moves_mark ',') moves_bodyLiteral) _)

/-- Clauses are further on. -/
theorem moves_clause : Moves size (Clause.movedBy size) clause clause := by
  refine .bind (.within moves_atom _) fun head => .bind (.optional moves_body) fun body? =>
    .bind (.commit (.within (moves_mark '.') _)) fun _ => ?_
  cases body? with
  | none => exact moves_pure (Clause.fact head)
  | some body => exact moves_pure (Clause.rule head body)

end Grammar

end Parser

section Clauses

/-- Passing over a malformed clause ends in the same way further on. -/
theorem skipClause_movedBy (size : Nat) (inString escaped : Bool) (rest : List Char)
    (offset : Nat) :
    skipClause inString escaped rest (size + offset) =
      (skipClause inString escaped rest offset).movedBy size := by
  induction rest generalizing inString escaped offset with
  | nil => rfl
  | cons char rest inductionHypothesis =>
      rw [skipClause, skipClause, Nat.add_assoc]
      split
      next => exact inductionHypothesis ..
      split
      next => exact inductionHypothesis ..
      split
      next => exact inductionHypothesis ..
      split
      next => rfl
      next => exact inductionHypothesis ..

/-- A text is read as the same clauses further on. -/
theorem readClauses_movedBy (size : Nat) (bound : List Char) (cursor : Cursor) :
    readClauses bound (cursor.movedBy size) =
      (readClauses bound cursor).map (movedOutcome size) := by
  induction bound generalizing cursor with
  | nil => rfl
  | cons char bound inductionHypothesis =>
      rw [readClauses, readClauses, Parser.moves_gap cursor]
      cases Parser.gap.run cursor with
      | error failure => rfl
      | ok read =>
          obtain ⟨_, start⟩ := read
          dsimp only [Parser.movedAnswer]
          change (if start.rest.isEmpty then _ else _) = List.map _ (if _ then _ else _)
          split
          next => rfl
          next =>
            rw [Parser.moves_clause start]
            cases Parser.clause.run start with
            | error failure =>
                have sameStop : (start.movedBy size).skipClause = start.skipClause.movedBy size :=
                  skipClause_movedBy size false false start.rest start.offset
                dsimp only [Parser.movedAnswer]
                rw [sameStop, inductionHypothesis]
                rfl
            | ok read =>
                dsimp only [Parser.movedAnswer]
                rw [inductionHypothesis]
                rfl

end Clauses

end Datalog.Source
