import Datalog.Proofs.Source.Lexemes
import Datalog.Source.Program

/-!
# Nothing outside the syntax is read

Whatever a parser of the grammar reads is well formed and laid out between the cursor where it
began and the one where it stopped (`LaysOut`). So the source of clauses that have been parsed
consists of the pieces of these clauses and of gaps (`composed_of_parse`).
-/

namespace Datalog.Source

namespace Parser

variable {α β : Type}

/-- What a parser reads is well formed and laid out in the text. -/
def LaysOut (parser : Parser α) (wellFormed : α → Prop) (pieces : α → List Piece) : Prop :=
  ∀ ⦃cursor result later⦄, parser.run cursor = .ok (result, later) →
    wellFormed result ∧ Laid cursor (pieces result) later

section Tokens

variable {cursor start later : Cursor}

/-- Something behind a gap is read where the gap ends. -/
theorem run_spaced_eq_ok_iff {parser : Parser α} {result : α} :
    (spaced parser).run cursor = .ok (result, later) ↔
      ∃ start, gap.run cursor = .ok ((), start) ∧ parser.run start = .ok (result, later) := by
  rw [spaced, run_bind_eq_ok_iff]
  exact ⟨fun ⟨_, start, isGap, isRead⟩ => ⟨start, isGap, isRead⟩,
    fun ⟨start, isGap, isRead⟩ => ⟨(), start, isGap, isRead⟩⟩

/-- A token is a lexeme with the offset where it was read. -/
theorem run_token_eq_ok_iff {lexeme : Parser (List Char)} {found : Token} :
    (token lexeme).run cursor = .ok (found, later) ↔
      ∃ chars, lexeme.run cursor = .ok (chars, later) ∧
        ⟨String.ofList chars, cursor.offset⟩ = found := by
  rw [token, run_here_bind, run_bind_eq_ok_iff]
  simp only [run_pure_eq_ok_iff]
  constructor
  · rintro ⟨chars, _, isRead, isFound, rfl⟩
    exact ⟨chars, isRead, isFound⟩
  · rintro ⟨chars, isRead, isFound⟩
    exact ⟨chars, later, isRead, isFound, rfl⟩

/-- A piece behind a gap is laid out. -/
theorem laid_of_gap {piece : Piece} (isGap : gap.run cursor = .ok ((), start))
    (reads : start.Reads piece.chars later) (fits : piece.Fits start later) :
    Laid cursor [piece] later := by
  obtain ⟨chars, isGap, readsGap⟩ := exists_gap_of_run isGap
  exact .cons isGap readsGap reads fits (.nil later)

/-- A lexeme behind a gap is laid out as a token. -/
theorem laid_token {chars : List Char} (isGap : gap.run cursor = .ok ((), start))
    (reads : start.Reads chars later) :
    Laid cursor [.token ⟨String.ofList chars, start.offset⟩] later :=
  laid_of_gap isGap (by rwa [Piece.chars, String.toList_ofList]) rfl

/-- Punctuation is laid out. -/
theorem laid_of_run_mark {expected : Char} {result : Unit}
    (isRead : (mark expected).run cursor = .ok (result, later)) :
    Laid cursor [.mark [expected]] later := by
  obtain ⟨chars, middle, isSpaced, isPure⟩ := run_bind_eq_ok_iff.1 isRead
  obtain ⟨_, rfl⟩ := run_pure_eq_ok_iff.1 isPure
  obtain ⟨start, isGap, isChar⟩ := run_spaced_eq_ok_iff.1 isSpaced
  exact laid_of_gap isGap (run_char_eq_ok_iff.1 isChar).2 trivial

end Tokens

/-- A name that is a literal denotes its value. -/
theorem denotes_of_namedLiteral? {name : List Char} {value : Value}
    (isLiteral : namedLiteral? name = some value) : Denotes name value := by
  unfold namedLiteral? at isLiteral
  split at isLiteral <;> cases isLiteral <;> constructor

/-- A name that is no literal is not reserved for one. -/
theorem namedLiteral?_eq_none_iff {name : List Char} :
    namedLiteral? name = none ↔ String.ofList name ∉ reservedNames := by
  have sameChars (reserved : String) : String.ofList name = reserved ↔ name = reserved.toList :=
    ⟨fun same => by rw [← same, String.toList_ofList], fun same => by
      rw [same, String.ofList_toList]⟩
  simp only [reservedNames, List.mem_cons, List.not_mem_nil, or_false, sameChars, not_or]
  constructor
  · intro isNone
    refine ⟨?_, ?_, ?_⟩ <;> (rintro rfl; cases isNone)
  · rintro ⟨notNull, notTrue, notFalse⟩
    unfold namedLiteral?
    split
    · exact absurd rfl notTrue
    · exact absurd rfl notFalse
    · exact absurd rfl notNull
    · rfl

/-- Terms are laid out. -/
theorem laysOut_term : LaysOut term Term.WellFormed Term.pieces := by
  intro cursor result later isRead
  obtain ⟨start, isGap, isRead⟩ := run_spaced_eq_ok_iff.1 isRead
  rw [run_here_bind] at isRead
  rcases run_orElse_eq_ok_iff.1 isRead with isFirst | ⟨_, isRead⟩
  · obtain ⟨⟨chars, value⟩, last, isLiteral, isPure⟩ := run_bind_eq_ok_iff.1 isFirst
    obtain ⟨rfl, rfl⟩ := run_pure_eq_ok_iff.1 isPure
    obtain ⟨denotes, reads⟩ := denotes_of_run_literal isLiteral
    exact ⟨.literal (by rwa [String.toList_ofList]), laid_token isGap reads⟩
  rcases run_orElse_eq_ok_iff.1 isRead with isSecond | ⟨_, isThird⟩
  · obtain ⟨chars, last, isLexeme, isPure⟩ := run_bind_eq_ok_iff.1 isSecond
    obtain ⟨rfl, rfl⟩ := run_pure_eq_ok_iff.1 isPure
    obtain ⟨isWildcard, reads, _⟩ := run_wildcard_eq_ok_iff.1 isLexeme
    exact ⟨.wildcard (by rwa [String.toList_ofList]), laid_token isGap reads⟩
  · obtain ⟨chars, last, isLexeme, isResult⟩ := run_bind_eq_ok_iff.1 isThird
    obtain ⟨isName, reads, _⟩ := run_identifier_eq_ok_iff.1 isLexeme
    split at isResult
    next value isLiteral =>
      obtain ⟨rfl, rfl⟩ := run_pure_eq_ok_iff.1 isResult
      have denotes := denotes_of_namedLiteral? isLiteral
      exact ⟨.literal (by rwa [String.toList_ofList]), laid_token isGap reads⟩
    next isNone =>
      obtain ⟨rfl, rfl⟩ := run_pure_eq_ok_iff.1 isResult
      exact ⟨.identifier (by rwa [String.toList_ofList]) (namedLiteral?_eq_none_iff.1 isNone),
        laid_token isGap reads⟩

/-- Items behind commas are laid out if the items are. -/
theorem LaysOut.repeats {item : Parser α} {wellFormed : α → Prop} {pieces : α → List Piece}
    {cursor later : Cursor} {items : List α} (laysOut : LaysOut item wellFormed pieces)
    (repeats : Repeats (do let _ ← mark ','; item) cursor items later) :
    (∀ item ∈ items, wellFormed item) ∧
      Laid cursor (items.flatMap fun item => .mark [','] :: pieces item) later := by
  induction repeats with
  | nil cursor => exact ⟨by simp, .nil cursor⟩
  | cons isRead _ inductionHypothesis =>
      obtain ⟨areWellFormed, laidOthers⟩ := inductionHypothesis
      obtain ⟨_, next, isComma, isItem⟩ := run_bind_eq_ok_iff.1 isRead
      obtain ⟨isWellFormed, laid⟩ := laysOut isItem
      refine ⟨List.forall_mem_cons.2 ⟨isWellFormed, areWellFormed⟩, ?_⟩
      rw [List.flatMap_cons]
      exact ((laid_of_run_mark isComma).append laid).append laidOthers

/-- Items with commas between them are laid out if the items are. -/
theorem LaysOut.separated {item : Parser α} {wellFormed : α → Prop} {pieces : α → List Piece}
    (laysOut : LaysOut item wellFormed pieces) :
    LaysOut (separated (mark ',') item) (fun items => items ≠ [] ∧ ∀ item ∈ items, wellFormed item)
      (listed pieces) := by
  intro cursor items later isRead
  obtain ⟨first, middle, isFirst, isRead⟩ := run_bind_eq_ok_iff.1 isRead
  obtain ⟨others, last, areOthers, isPure⟩ := run_bind_eq_ok_iff.1 isRead
  obtain ⟨rfl, rfl⟩ := run_pure_eq_ok_iff.1 isPure
  obtain ⟨isWellFormed, laid⟩ := laysOut isFirst
  obtain ⟨areWellFormed, laidOthers⟩ := laysOut.repeats (repeats_of_many areOthers)
  exact ⟨⟨by simp, List.forall_mem_cons.2 ⟨isWellFormed, areWellFormed⟩⟩, laid.append laidOthers⟩

/-- A name is laid out as a token. -/
theorem laid_of_run_name {cursor later : Cursor} {name : Token}
    (isRead : (spaced (token identifier)).run cursor = .ok (name, later)) :
    IsName name.lexeme.toList ∧ Laid cursor [.token name] later := by
  obtain ⟨start, isGap, isToken⟩ := run_spaced_eq_ok_iff.1 isRead
  obtain ⟨chars, isIdentifier, rfl⟩ := run_token_eq_ok_iff.1 isToken
  obtain ⟨isName, reads, _⟩ := run_identifier_eq_ok_iff.1 isIdentifier
  exact ⟨by rwa [String.toList_ofList], laid_token isGap reads⟩

/-- Fields are laid out. -/
theorem laysOut_namedArg : LaysOut namedArg FieldWellFormed fieldPieces := by
  intro cursor result later isRead
  obtain ⟨field, first, isField, isRead⟩ := run_bind_eq_ok_iff.1 isRead
  obtain ⟨_, second, isColon, isRead⟩ := run_bind_eq_ok_iff.1 isRead
  obtain ⟨value, last, isTerm, isPure⟩ := run_bind_eq_ok_iff.1 isRead
  obtain ⟨rfl, rfl⟩ := run_pure_eq_ok_iff.1 isPure
  obtain ⟨isName, laidField⟩ := laid_of_run_name isField
  obtain ⟨wellFormed, laid⟩ := laysOut_term isTerm
  exact ⟨⟨isName, wellFormed⟩, (laidField.append (laid_of_run_mark isColon)).append laid⟩

/-- Arguments are laid out. -/
theorem laysOut_args : LaysOut args Args.WellFormed Args.pieces := by
  intro cursor result later isRead
  rcases run_orElse_eq_ok_iff.1 isRead with areNamed | ⟨_, areOrdered⟩
  · obtain ⟨fields, areFields, rfl⟩ := run_map_eq_ok_iff.1 areNamed
    obtain ⟨⟨nonempty, wellFormed⟩, laid⟩ := laysOut_namedArg.separated areFields
    exact ⟨.named nonempty wellFormed, laid⟩
  · obtain ⟨found, last, maybeTerms, isPure⟩ := run_bind_eq_ok_iff.1 areOrdered
    obtain ⟨rfl, rfl⟩ := run_pure_eq_ok_iff.1 isPure
    rcases run_optional_eq_ok_iff.1 maybeTerms with ⟨terms, areTerms, rfl⟩ | ⟨_, rfl, rfl⟩
    · obtain ⟨⟨_, wellFormed⟩, laid⟩ := laysOut_term.separated areTerms
      exact ⟨.ordered wellFormed, laid⟩
    · exact ⟨.ordered (by simp), .nil cursor⟩

/-- Atoms are laid out. -/
theorem laysOut_atom : LaysOut atom Atom.WellFormed Atom.pieces := by
  intro cursor result later isRead
  obtain ⟨relation, first, isRelation, isRead⟩ := run_bind_eq_ok_iff.1 isRead
  obtain ⟨_, second, isOpening, isRead⟩ := run_bind_eq_ok_iff.1 isRead
  obtain ⟨args, third, areArgs, isRead⟩ := run_bind_eq_ok_iff.1 isRead
  obtain ⟨_, last, isClosing, isPure⟩ := run_bind_eq_ok_iff.1 isRead
  obtain ⟨rfl, rfl⟩ := run_pure_eq_ok_iff.1 isPure
  obtain ⟨isName, laidRelation⟩ := laid_of_run_name isRelation
  obtain ⟨wellFormed, laid⟩ := laysOut_args areArgs
  have laidClosing :=
    laid_of_run_mark (run_within_eq_ok_iff.1 (run_commit_eq_ok_iff.1 isClosing))
  exact ⟨⟨isName, wellFormed⟩,
    laidRelation.append ((laid_of_run_mark isOpening).append (laid.append laidClosing))⟩

/-- Where something is read, it is not refused. -/
theorem not_refuses_of_run {parser : Parser α} {cursor : Cursor} {result : α × Cursor}
    (isRead : parser.run cursor = .ok result) : ¬ Refuses parser cursor := by
  rintro ⟨failure, failed, _⟩
  rw [isRead] at failed
  cases failed

/-- A token that has not been read as a negation may lead a literal. -/
theorem laid_leading {cursor later : Cursor} {leading : Token} {pieces : List Piece}
    (noNegation : Refuses negation cursor) (laid : Laid cursor (.token leading :: pieces) later) :
    Laid cursor (.leading leading :: pieces) later := by
  obtain _ | @⟨_, start, next, _, chars, _, _, isGap, readsGap, reads, fits, others⟩ := laid
  refine .cons isGap readsGap reads ⟨fits, fun isNot beginsBlank => ?_⟩ others
  rw [Piece.chars, isNot] at reads
  change start.Reads ['n', 'o', 't'] next at reads
  have isSolid : Solid start.rest := by
    rw [reads.rest]
    rintro char isFirst
    cases isFirst
    decide
  have isGapRead := run_gap isGap readsGap isSolid
  rcases refuses_bind_iff.1 noNegation with noGap | ⟨_, middle, isMiddle, noWord⟩
  · exact not_refuses_of_run isGapRead noGap
  rw [isGapRead] at isMiddle
  cases isMiddle
  rcases refuses_bind_iff.1 noWord with noText | ⟨_, middle, isMiddle, noBlanks⟩
  · exact refuses_text_iff.1 noText ⟨next.rest, reads.rest.symm⟩
  obtain ⟨_, readsWord⟩ := run_text_eq_ok_iff.1 isMiddle
  rw [readsWord.eq_skip, ← Cursor.Reads.eq_skip reads] at noBlanks
  rcases refuses_bind_iff.1 noBlanks with noBlanks | ⟨_, _, _, noPure⟩
  · obtain ⟨char, isFirst, isBlank⟩ := (Option.any_eq_true _ _).1 beginsBlank
    rw [refuses_someChars_iff.1 noBlanks char isFirst] at isBlank
    cases isBlank
  · exact not_refuses_pure noPure

/-- A negating word is laid out in front of a blank. -/
theorem laid_of_run_negation {cursor later : Cursor} {word : List Char}
    (isRead : negation.run cursor = .ok (word, later)) :
    ∃ middle blanks, Laid cursor [.negation] middle ∧ middle.Reads blanks later ∧
      Gap blanks later.rest := by
  obtain ⟨start, isGap, isRead⟩ := run_spaced_eq_ok_iff.1 isRead
  obtain ⟨word, middle, isWord, isRead⟩ := run_bind_eq_ok_iff.1 isRead
  obtain ⟨blanks, last, areBlanks, isPure⟩ := run_bind_eq_ok_iff.1 isRead
  obtain ⟨rfl, rfl⟩ := run_pure_eq_ok_iff.1 isPure
  obtain ⟨rfl, reads⟩ := run_text_eq_ok_iff.1 isWord
  obtain ⟨nonempty, areBlanks⟩ := run_someChars_eq_ok_iff.1 areBlanks
  obtain ⟨readsBlanks, areBlank, _⟩ := run_charsWhile_eq_ok_iff.1 areBlanks
  refine ⟨middle, blanks, laid_of_gap isGap reads ?_, readsBlanks, .blanks areBlank _⟩
  obtain ⟨blank, others, rfl⟩ := List.exists_cons_of_ne_nil nonempty
  rw [Piece.Fits, BeginsBlank, readsBlanks.rest]
  exact areBlank blank List.mem_cons_self

/-- A gap may be longer in front of a layout that has a first piece. -/
theorem laid_of_reads {cursor start later : Cursor} {chars : List Char} {piece : Piece}
    {pieces : List Piece} (reads : cursor.Reads chars start) (isGap : Gap chars start.rest)
    (laid : Laid start (piece :: pieces) later) : Laid cursor (piece :: pieces) later := by
  obtain _ | @⟨_, first, _, _, others, _, _, areOthers, readsOthers, readsPiece, fits, laid⟩ := laid
  rw [readsOthers.rest] at isGap
  exact .cons (isGap.append areOthers) (reads.append readsOthers) readsPiece fits laid

/-- Negated atoms are laid out. -/
theorem laysOut_negatedAtom : LaysOut negatedAtom Atom.WellFormed
    (fun atom => .negation :: atom.pieces) := by
  intro cursor result later isRead
  obtain ⟨word, middle, isNegation, isAtom⟩ := run_bind_eq_ok_iff.1 isRead
  obtain ⟨behind, blanks, laidNegation, readsBlanks, isGap⟩ := laid_of_run_negation isNegation
  obtain ⟨wellFormed, laid⟩ :=
    laysOut_atom (run_within_eq_ok_iff.1 (run_commit_eq_ok_iff.1 isAtom))
  exact ⟨wellFormed, laidNegation.append (laid_of_reads readsBlanks isGap laid)⟩

/-- Operators are laid out. -/
theorem laid_of_run_comparisonOperator {cursor later : Cursor} {operator : Token}
    (isRead : comparisonOperator.run cursor = .ok (operator, later)) :
    IsOperator operator.lexeme.toList ∧ Laid cursor [.token operator] later := by
  obtain ⟨start, isGap, isToken⟩ := run_spaced_eq_ok_iff.1 isRead
  obtain ⟨chars, isOperator, rfl⟩ := run_token_eq_ok_iff.1 isToken
  obtain ⟨nonempty, isOperator⟩ := run_someChars_eq_ok_iff.1 isOperator
  obtain ⟨reads, areOperatorChars, _⟩ := run_charsWhile_eq_ok_iff.1 isOperator
  exact ⟨by rw [String.toList_ofList]; exact ⟨nonempty, areOperatorChars⟩, laid_token isGap reads⟩

/-- Parts of bodies are laid out. -/
theorem laysOut_bodyLiteral : LaysOut bodyLiteral Literal.WellFormed Literal.pieces := by
  intro cursor result later isRead
  rcases run_orElse_eq_ok_iff.1 isRead with isNegated | ⟨noNegatedAtom, isRead⟩
  · obtain ⟨atom, isAtom, rfl⟩ := run_map_eq_ok_iff.1 isNegated
    obtain ⟨wellFormed, laid⟩ := laysOut_negatedAtom isAtom
    exact ⟨.negated wellFormed, laid⟩
  have noNegation : Refuses negation cursor := by
    rcases refuses_bind_iff.1 (refuses_map_iff.1 noNegatedAtom) with noNegation | ⟨_, _, _, noAtom⟩
    · exact noNegation
    · exact absurd noAtom not_refuses_commit
  rcases run_orElse_eq_ok_iff.1 isRead with isPositive | ⟨_, isComparison⟩
  · obtain ⟨atom, isAtom, rfl⟩ := run_map_eq_ok_iff.1 isPositive
    obtain ⟨wellFormed, laid⟩ := laysOut_atom isAtom
    exact ⟨.positive wellFormed, laid_leading noNegation laid⟩
  · obtain ⟨left, first, isLeft, isRead⟩ := run_bind_eq_ok_iff.1 isComparison
    obtain ⟨operator, second, isOperator, isRead⟩ := run_bind_eq_ok_iff.1 isRead
    obtain ⟨right, last, isRight, isPure⟩ := run_bind_eq_ok_iff.1 isRead
    obtain ⟨rfl, rfl⟩ := run_pure_eq_ok_iff.1 isPure
    obtain ⟨leftWellFormed, laidLeft⟩ := laysOut_term isLeft
    obtain ⟨isOperator, laidOperator⟩ := laid_of_run_comparisonOperator isOperator
    obtain ⟨rightWellFormed, laidRight⟩ :=
      laysOut_term (run_within_eq_ok_iff.1 (run_commit_eq_ok_iff.1 isRight))
    exact ⟨.comparison leftWellFormed isOperator rightWellFormed,
      laid_leading noNegation (laidLeft.append (laidOperator.append laidRight))⟩

/-- Bodies are laid out behind their turnstile. -/
theorem laysOut_body : LaysOut body
    (fun literals => literals ≠ [] ∧ ∀ literal ∈ literals, literal.WellFormed)
    (fun literals => .mark [':', '-'] :: listed Literal.pieces literals) := by
  intro cursor result later isRead
  obtain ⟨_, middle, isTurnstile, isBody⟩ := run_bind_eq_ok_iff.1 isRead
  obtain ⟨start, isGap, isText⟩ := run_spaced_eq_ok_iff.1 isTurnstile
  obtain ⟨wellFormed, laid⟩ := laysOut_bodyLiteral.separated
    (run_within_eq_ok_iff.1 (run_commit_eq_ok_iff.1 isBody))
  have laidTurnstile : Laid cursor [.mark [':', '-']] middle :=
    laid_of_gap isGap (run_text_eq_ok_iff.1 isText).2 trivial
  exact ⟨wellFormed, laidTurnstile.append laid⟩

/-- Clauses are laid out. -/
theorem laysOut_clause : LaysOut clause Clause.WellFormed Clause.pieces := by
  intro cursor result later isRead
  obtain ⟨head, first, isHead, isRead⟩ := run_bind_eq_ok_iff.1 isRead
  obtain ⟨body?, second, maybeBody, isRead⟩ := run_bind_eq_ok_iff.1 isRead
  obtain ⟨_, last, isStop, isPure⟩ := run_bind_eq_ok_iff.1 isRead
  obtain ⟨rfl, rfl⟩ := run_pure_eq_ok_iff.1 isPure
  obtain ⟨headWellFormed, laidHead⟩ := laysOut_atom (run_within_eq_ok_iff.1 isHead)
  have laidStop := laid_of_run_mark (run_within_eq_ok_iff.1 (run_commit_eq_ok_iff.1 isStop))
  rcases run_optional_eq_ok_iff.1 maybeBody with ⟨body, isBody, rfl⟩ | ⟨_, rfl, rfl⟩
  · obtain ⟨⟨nonempty, wellFormed⟩, laidBody⟩ := laysOut_body isBody
    refine ⟨.rule headWellFormed nonempty wellFormed, ?_⟩
    exact (laidHead.append laidBody).append laidStop
  · exact ⟨.fact headWellFormed, laidHead.append laidStop⟩

end Parser

/-- A clause ends with a full stop. -/
theorem Clause.exists_pieces_eq (clause : Clause) :
    ∃ pieces, clause.pieces = pieces ++ [.mark ['.']] := by
  cases clause <;> exact ⟨_, rfl⟩

/-- A clause takes some of the text. -/
theorem length_lt_of_run_clause {cursor later : Cursor} {result : Clause}
    (isRead : Parser.clause.run cursor = .ok (result, later)) :
    later.rest.length < cursor.rest.length := by
  obtain ⟨_, laid⟩ := Parser.laysOut_clause isRead
  obtain ⟨pieces, isLast⟩ := result.exists_pieces_eq
  rw [isLast] at laid
  obtain ⟨middle, laidPieces, laidStop⟩ := laid.exists_of_append
  exact Nat.lt_of_lt_of_le (laidStop.length_lt (by simp [Piece.chars])) laidPieces.length_le

/-- Clauses that are read one after the other are laid out up to a last gap. -/
theorem laid_of_readClauses {bound : List Char} {cursor : Cursor} {clauses : List Clause}
    (enough : cursor.rest.length ≤ bound.length)
    (areRead : readClauses bound cursor = clauses.map .ok) :
    (∀ clause ∈ clauses, clause.WellFormed) ∧
      ∃ last, Laid cursor (clauses.flatMap Clause.pieces) last ∧ Gap last.rest [] := by
  induction bound generalizing cursor clauses with
  | nil =>
      obtain rfl : clauses = [] := List.map_eq_nil_iff.1 areRead.symm
      have atEnd : cursor.rest = [] := List.eq_nil_of_length_eq_zero (Nat.le_zero.1 enough)
      exact ⟨by simp, cursor, .nil cursor, atEnd ▸ .nil []⟩
  | cons char bound inductionHypothesis =>
      obtain ⟨start, isGapRead⟩ := Parser.exists_run_gap cursor
      obtain ⟨chars, isGap, readsGap⟩ := Parser.exists_gap_of_run isGapRead
      rw [readClauses, isGapRead] at areRead
      dsimp only at areRead
      split at areRead
      next atEnd =>
        obtain rfl : clauses = [] := List.map_eq_nil_iff.1 areRead.symm
        rw [List.isEmpty_iff.1 atEnd] at isGap
        refine ⟨by simp, cursor, .nil cursor, ?_⟩
        rw [readsGap.rest, List.isEmpty_iff.1 atEnd, List.append_nil]
        exact isGap
      next =>
        cases isClause : Parser.clause.run start with
        | error failure =>
            rw [isClause] at areRead
            obtain ⟨clause, others, _, impossible, _⟩ := List.map_eq_cons_iff.1 areRead.symm
            cases impossible
        | ok read =>
            obtain ⟨clause, next⟩ := read
            rw [isClause] at areRead
            obtain ⟨first, others, rfl, isFirst, areOthers⟩ := List.map_eq_cons_iff.1 areRead.symm
            obtain rfl := Except.ok.inj isFirst
            have fewer := length_lt_of_run_clause isClause
            rw [readsGap.rest, List.length_append, List.length_cons] at enough
            obtain ⟨areWellFormed, last, laidOthers, lastGap⟩ :=
              inductionHypothesis (by omega) areOthers.symm
            obtain ⟨wellFormed, laid⟩ := Parser.laysOut_clause isClause
            refine ⟨List.forall_mem_cons.2 ⟨wellFormed, areWellFormed⟩, last, ?_, lastGap⟩
            rw [List.flatMap_cons]
            refine Laid.append ?_ laidOthers
            cases first <;> exact Parser.laid_of_reads readsGap isGap laid

/-- Outcomes without a failure are the clauses among them. -/
theorem filterMap_toOption_eq_iff {outcomes : List (Except Failure Clause)}
    {clauses : List Clause} :
    (∀ outcome ∈ outcomes, outcome.toOption ≠ none) ∧
        outcomes.filterMap Except.toOption = clauses ↔
      outcomes = clauses.map .ok := by
  constructor
  · rintro ⟨areOk, rfl⟩
    induction outcomes with
    | nil => rfl
    | cons outcome outcomes inductionHypothesis =>
        obtain ⟨isOk, othersOk⟩ := List.forall_mem_cons.1 areOk
        cases outcome with
        | error failure => exact absurd rfl isOk
        | ok clause => exact congrArg (Except.ok clause :: ·) (inductionHypothesis othersOk)
  · rintro rfl
    constructor
    · intro outcome member
      obtain ⟨clause, _, rfl⟩ := List.mem_map.1 member
      exact Option.some_ne_none clause
    · rw [List.filterMap_map]
      exact List.filterMap_some

/-- A source that is parsed has no malformed clause. -/
theorem parse_eq_ok_iff {source : String} {clauses : List Clause} :
    parse source = .ok clauses ↔
      readClauses (Cursor.start source).rest (.start source) = clauses.map .ok := by
  rw [← filterMap_toOption_eq_iff]
  unfold parse
  dsimp only
  generalize readClauses (Cursor.start source).rest (.start source) = outcomes
  split
  next isEmpty =>
    rw [List.isEmpty_iff, List.filterMap_eq_nil_iff] at isEmpty
    have areOk : ∀ outcome ∈ outcomes, outcome.toOption ≠ none := by
      intro outcome member
      have noReport := isEmpty outcome member
      cases outcome with
      | error failure => cases noReport
      | ok clause => exact Option.some_ne_none clause
    constructor
    · intro same
      exact ⟨areOk, Except.ok.inj same⟩
    · intro both
      exact congrArg Except.ok both.2
  next notEmpty =>
    apply iff_of_false
    · intro failed
      cases failed
    · rintro ⟨areOk, _⟩
      apply notEmpty
      rw [List.isEmpty_iff, List.filterMap_eq_nil_iff]
      intro outcome member
      cases outcome with
      | error failure => exact absurd rfl (areOk _ member)
      | ok clause => rfl

/-- The clauses of a source that is parsed are well-formed, and laid out in it up to a last
gap. -/
theorem laid_of_parse {source : String} {clauses : List Clause}
    (isParsed : parse source = .ok clauses) :
    (∀ clause ∈ clauses, clause.WellFormed) ∧
      ∃ last, Laid (.start source) (clauses.flatMap Clause.pieces) last ∧ Gap last.rest [] :=
  laid_of_readClauses (Nat.le_refl _) (parse_eq_ok_iff.1 isParsed)

/-- A source spells clauses: it consists of their tokens, of the punctuation of the syntax and
of gaps, literals stand for their values, and the tokens are slices of the source in the order
in which they are read. -/
structure Spells (source : String) (clauses : List Clause) : Prop where
  composed : Composed source (clauses.flatMap Clause.pieces)
  wellFormed : ∀ clause ∈ clauses, clause.WellFormed
  slices : ∀ token ∈ tokensOf (clauses.flatMap Clause.pieces), token.IsSliceOf source
  ordered : (tokensOf (clauses.flatMap Clause.pieces)).Pairwise Token.Precedes

/-- A source that is parsed spells the clauses that are found. -/
theorem spells_of_parse {source : String} {clauses : List Clause}
    (isParsed : parse source = .ok clauses) : Spells source clauses := by
  obtain ⟨wellFormed, last, laid, isGap⟩ :=
    laid_of_readClauses (Nat.le_refl _) (parse_eq_ok_iff.1 isParsed)
  have composed : Composed source (clauses.flatMap Clause.pieces) := ⟨last, laid, isGap⟩
  have isSolid : ∀ piece ∈ clauses.flatMap Clause.pieces, piece.IsSolid := by
    intro piece member
    obtain ⟨clause, isClause, member⟩ := List.mem_flatMap.1 member
    exact (wellFormed clause isClause).isSolid piece member
  exact ⟨composed, wellFormed, fun _ => composed.isSliceOf,
    laid.pairwise_precedes fun _ => lexeme_ne_of_mem_tokensOf isSolid⟩

/-- A rule with a negation, a comparison and a comment behind it. -/
theorem spells_negation_comparison :
    let source := "p(X) :- q(a: X), not r(\"\\n\", -2.5e1), X <= 3. % end"
    let clauses : List Clause := [
      .rule ⟨⟨"p", 0⟩, .ordered [.identifier ⟨"X", 2⟩]⟩ [
        .positive ⟨⟨"q", 8⟩, .named [(⟨"a", 10⟩, .identifier ⟨"X", 13⟩)]⟩,
        .negated ⟨⟨"r", 21⟩, .ordered [.literal ⟨"\"\\n\"", 23⟩ (.string "\n"),
          .literal ⟨"-2.5e1", 29⟩ (.float ⟨0xc039000000000000⟩)]⟩,
        .comparison (.identifier ⟨"X", 38⟩) ⟨"<=", 40⟩ (.literal ⟨"3", 43⟩ (.int 3))]]
    parse source = .ok clauses ∧ Spells source clauses :=
  have isParsed : parse "p(X) :- q(a: X), not r(\"\\n\", -2.5e1), X <= 3. % end" = .ok _ := by
    decide +kernel
  ⟨isParsed, spells_of_parse isParsed⟩

end Datalog.Source
