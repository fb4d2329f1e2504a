import Mathlib.Data.List.Basic
import Datalog.Source.Lexeme

/-!
# Layout of a source

How tokens and punctuation are laid out in a text, without a word about how they are found.
Between them are gaps of blanks and line comments (`Gap`). `Laid` puts pieces behind each
other from one cursor to a later one, each token at the offset it remembers; that the lexemes
are slices of the text, in order and apart from each other, follows from it
(`Laid.exists_slice`, `Laid.pairwise_offset`).
-/

namespace Datalog.Source

/-- The characters between two cursors of a text. -/
structure Cursor.Reads (cursor : Cursor) (chars : List Char) (later : Cursor) : Prop where
  rest : cursor.rest = chars ++ later.rest
  offset : later.offset = cursor.offset + textSize chars

/-- Sizes of consecutive texts add up. -/
@[simp] theorem textSize_append (first second : List Char) :
    textSize (first ++ second) = textSize first + textSize second := by
  simp [textSize]

/-- Some characters take some bytes. -/
theorem textSize_pos {chars : List Char} (nonempty : chars ≠ []) : 0 < textSize chars := by
  obtain ⟨char, others, rfl⟩ := List.exists_cons_of_ne_nil nonempty
  rw [textSize, List.map_cons, List.sum_cons]
  exact Nat.add_pos_left char.utf8Size_pos _

/-- The size of characters is that of the string they form. -/
theorem utf8ByteSize_ofList (chars : List Char) :
    (String.ofList chars).utf8ByteSize = textSize chars := by
  induction chars with
  | nil => rfl
  | cons char chars inductionHypothesis =>
      rw [String.ofList_cons, String.utf8ByteSize_append, inductionHypothesis,
        String.utf8ByteSize_singleton, textSize, textSize, List.map_cons, List.sum_cons]

/-- The size of a string is that of its characters. -/
theorem utf8ByteSize_eq_textSize (text : String) : text.utf8ByteSize = textSize text.toList := by
  rw [← utf8ByteSize_ofList, String.ofList_toList]

namespace Cursor.Reads

variable {cursor middle later : Cursor} {first second : List Char}

/-- Nothing stands between a cursor and itself. -/
theorem nil (cursor : Cursor) : cursor.Reads [] cursor :=
  ⟨rfl, rfl⟩

/-- Consecutive characters are those of the one part and of the other. -/
theorem append (readsFirst : cursor.Reads first middle) (readsSecond : middle.Reads second later) :
    cursor.Reads (first ++ second) later where
  rest := by rw [readsFirst.rest, readsSecond.rest, List.append_assoc]
  offset := by rw [readsSecond.offset, readsFirst.offset, textSize_append, Nat.add_assoc]

/-- Characters lead to one cursor. -/
theorem eq_skip (reads : cursor.Reads first later) : later = cursor.skip first := by
  obtain ⟨rest, offset⟩ := later
  rw [Cursor.skip, reads.rest, List.drop_left, ← reads.offset]

/-- A cursor may be moved behind the characters that come next. -/
theorem skip (isNext : first <+: cursor.rest) : cursor.Reads first (cursor.skip first) := by
  obtain ⟨rest, isRest⟩ := isNext
  refine ⟨?_, rfl⟩
  rw [Cursor.skip, ← isRest, List.drop_left]

/-- Characters in two parts are read one part after the other. -/
theorem exists_of_append (reads : cursor.Reads (first ++ second) later) :
    ∃ middle, cursor.Reads first middle ∧ middle.Reads second later := by
  refine ⟨⟨second ++ later.rest, cursor.offset + textSize first⟩, ⟨?_, rfl⟩, ⟨rfl, ?_⟩⟩
  · rw [reads.rest, List.append_assoc]
  · rw [reads.offset, textSize_append, Nat.add_assoc]

/-- A first character is read before the others. -/
theorem exists_of_cons {char : Char} (reads : cursor.Reads (char :: second) later) :
    ∃ middle, cursor.Reads [char] middle ∧ middle.Reads second later :=
  @exists_of_append cursor later [char] second reads

end Cursor.Reads

/-- What ends a line: a line feed, a carriage return with a line feed, or the end of the text. -/
inductive EndsLine : List Char → Prop where
  | endOfText : EndsLine []
  | lineFeed (rest : List Char) : EndsLine ('\n' :: rest)
  | carriageReturn (rest : List Char) : EndsLine ('\r' :: '\n' :: rest)

/-- The two ways to begin a comment. -/
inductive IsCommentMark : List Char → Prop where
  | percent : IsCommentMark ['%']
  | slashes : IsCommentMark ['/', '/']

/-- Characters that separate pieces, in front of given ones: blanks, and comments up to the
end of their line. -/
inductive Gap : (gap after : List Char) → Prop where
  | nil (after : List Char) : Gap [] after
  | blank {char : Char} {gap after : List Char} (isBlank : Text.isBlank char = true)
      (others : Gap gap after) : Gap (char :: gap) after
  | comment {mark line gap after : List Char} (isMark : IsCommentMark mark)
      (inLine : ∀ char ∈ line, Parser.isLineBreak char = false)
      (ends : EndsLine (gap ++ after)) (others : Gap gap after) : Gap (mark ++ line ++ gap) after

/-- A text that begins with no blank and with no comment. -/
def Solid (rest : List Char) : Prop :=
  ∀ next ∈ rest.head?, Text.isBlank next = false ∧ next ≠ '%' ∧ next ≠ '/'

/-- Whether a text begins with a blank. -/
def BeginsBlank (rest : List Char) : Prop :=
  rest.head?.any Text.isBlank = true

instance (rest : List Char) : Decidable (BeginsBlank rest) :=
  inferInstanceAs (Decidable (_ = true))

/-- What stands between two gaps: a token of a clause, punctuation, or the word that negates
an atom. A token that leads a literal could be mistaken for that word. -/
inductive Piece where
  | token (token : Token)
  | leading (token : Token)
  | mark (chars : List Char)
  | negation
  deriving DecidableEq

namespace Piece

/-- The characters of a piece. -/
def chars : Piece → List Char
  | token found => found.lexeme.toList
  | leading found => found.lexeme.toList
  | mark chars => chars
  | negation => ['n', 'o', 't']

/-- The token that a piece is. -/
def token? : Piece → Option Token
  | token found => some found
  | leading found => some found
  | mark _ => none
  | negation => none

/-- A piece may stand between two cursors: a token remembers its offset, and `not` negates if
a blank follows it and only then. -/
def Fits (start next : Cursor) : Piece → Prop
  | token found => found.offset = start.offset
  | leading found =>
      found.offset = start.offset ∧ (found.lexeme = "not" → ¬ BeginsBlank next.rest)
  | mark _ => True
  | negation => BeginsBlank next.rest

instance (start next : Cursor) (piece : Piece) : Decidable (piece.Fits start next) :=
  match piece with
  | token found => inferInstanceAs (Decidable (found.offset = start.offset))
  | leading _ => inferInstanceAs (Decidable (_ ∧ _))
  | mark _ => inferInstanceAs (Decidable True)
  | negation => inferInstanceAs (Decidable (BeginsBlank _))

/-- A piece that can be told from the gap in front of it. -/
structure IsSolid (piece : Piece) : Prop where
  nonempty : piece.chars ≠ []
  solid : Solid piece.chars

/-- The characters of a token's piece are its lexeme. -/
theorem chars_of_token? {piece : Piece} {token : Token} (isToken : piece.token? = some token) :
    piece.chars = token.lexeme.toList := by
  cases piece <;> cases isToken <;> rfl

/-- A token stands at the offset that it remembers. -/
theorem Fits.offset {piece : Piece} {token : Token} {start next : Cursor}
    (fits : piece.Fits start next) (isToken : piece.token? = some token) :
    token.offset = start.offset := by
  cases piece <;> cases isToken
  case token => exact fits
  case leading => exact fits.1

end Piece

/-- Pieces laid out between two cursors, each behind a gap. -/
inductive Laid : Cursor → List Piece → Cursor → Prop where
  | nil (cursor : Cursor) : Laid cursor [] cursor
  | cons {cursor start next last : Cursor} {gap : List Char} {piece : Piece} {pieces : List Piece}
      (isGap : Gap gap start.rest) (readsGap : cursor.Reads gap start)
      (reads : start.Reads piece.chars next) (fits : piece.Fits start next)
      (others : Laid next pieces last) : Laid cursor (piece :: pieces) last

/-- A source consists of pieces and of the gaps around them. -/
def Composed (source : String) (pieces : List Piece) : Prop :=
  ∃ last, Laid (.start source) pieces last ∧ Gap last.rest []

/-- The tokens among pieces. -/
def tokensOf (pieces : List Piece) : List Token :=
  pieces.filterMap Piece.token?

/-- A token of the source: its lexeme is the slice of the source at its offset. -/
def Token.IsSliceOf (token : Token) (source : String) : Prop :=
  ∃ before after, source = before ++ token.lexeme ++ after ∧
    before.utf8ByteSize = token.offset

/-- The first token ends before the second one begins. -/
def Token.Precedes (first second : Token) : Prop :=
  first.offset < second.offset ∧ first.offset + first.lexeme.utf8ByteSize ≤ second.offset

namespace Laid

variable {cursor middle last : Cursor} {pieces others : List Piece}

/-- Nothing more is laid out where the layout ends. -/
theorem stop (same : cursor = last) : Laid cursor [] last :=
  same ▸ .nil cursor

/-- A piece may be laid out behind a gap if both come next. -/
theorem behind (gap : List Char) {piece : Piece} (isGap : Gap gap (cursor.skip gap).rest)
    (gapIsNext : gap <+: cursor.rest) (pieceIsNext : piece.chars <+: (cursor.skip gap).rest)
    (fits : piece.Fits (cursor.skip gap) ((cursor.skip gap).skip piece.chars))
    (others : Laid ((cursor.skip gap).skip piece.chars) pieces last) :
    Laid cursor (piece :: pieces) last :=
  .cons isGap (.skip gapIsNext) (.skip pieceIsNext) fits others

/-- Layouts may follow each other. -/
theorem append (laid : Laid cursor pieces middle) (laidOthers : Laid middle others last) :
    Laid cursor (pieces ++ others) last := by
  induction laid with
  | nil => exact laidOthers
  | cons isGap readsGap reads fits _ inductionHypothesis =>
      exact .cons isGap readsGap reads fits (inductionHypothesis laidOthers)

/-- A layout of two lists of pieces is one of each, with a cursor between them. -/
theorem exists_of_append (laid : Laid cursor (pieces ++ others) last) :
    ∃ middle, Laid cursor pieces middle ∧ Laid middle others last := by
  induction pieces generalizing cursor with
  | nil => exact ⟨cursor, .nil cursor, laid⟩
  | cons piece pieces inductionHypothesis =>
      obtain _ | ⟨isGap, readsGap, reads, fits, laid⟩ := laid
      obtain ⟨middle, laidPieces, laidOthers⟩ := inductionHypothesis laid
      exact ⟨middle, .cons isGap readsGap reads fits laidPieces, laidOthers⟩

/-- A first piece is laid out before the others. -/
theorem exists_of_cons {piece : Piece} (laid : Laid cursor (piece :: pieces) last) :
    ∃ middle, Laid cursor [piece] middle ∧ Laid middle pieces last :=
  @exists_of_append cursor last [piece] pieces laid

/-- A layout takes none of the text back. -/
theorem length_le (laid : Laid cursor pieces last) :
    last.rest.length ≤ cursor.rest.length := by
  induction laid with
  | nil => exact Nat.le_refl _
  | cons isGap readsGap reads _ _ inductionHypothesis =>
      rw [readsGap.rest, reads.rest, List.length_append, List.length_append]
      omega

/-- A piece of some characters takes some of the text. -/
theorem length_lt {piece : Piece} (laid : Laid cursor (piece :: pieces) last)
    (nonempty : piece.chars ≠ []) : last.rest.length < cursor.rest.length := by
  obtain _ | ⟨isGap, readsGap, reads, _, laid⟩ := laid
  have positive := List.length_pos_iff.2 nonempty
  have others := laid.length_le
  rw [readsGap.rest, reads.rest, List.length_append, List.length_append]
  omega

/-- Each token is found in the text at its offset. -/
theorem exists_slice (laid : Laid cursor pieces last) {token : Token}
    (member : token ∈ tokensOf pieces) :
    ∃ before after, cursor.Reads before ⟨token.lexeme.toList ++ after, token.offset⟩ := by
  induction laid with
  | nil => cases member
  | @cons cursor start next last gap piece pieces isGap readsGap reads fits _ inductionHypothesis =>
      obtain ⟨found, member, isToken⟩ := List.mem_filterMap.1 member
      rcases List.mem_cons.1 member with rfl | member
      · refine ⟨gap, next.rest, ?_⟩
        rw [← Piece.chars_of_token? isToken, ← reads.rest, fits.offset isToken]
        exact readsGap
      · obtain ⟨before, after, readsBefore⟩ :=
          inductionHypothesis (List.mem_filterMap.2 ⟨found, member, isToken⟩)
        exact ⟨gap ++ piece.chars ++ before, after, (readsGap.append reads).append readsBefore⟩

/-- Tokens stand behind the cursor from which they are laid out. -/
theorem offset_le (laid : Laid cursor pieces last) {token : Token}
    (member : token ∈ tokensOf pieces) : cursor.offset ≤ token.offset := by
  obtain ⟨before, after, reads⟩ := laid.exists_slice member
  have offset : token.offset = cursor.offset + textSize before := reads.offset
  omega

/-- Tokens are laid out one behind the other. -/
theorem pairwise_precedes (laid : Laid cursor pieces last)
    (nonempty : ∀ token ∈ tokensOf pieces, token.lexeme ≠ "") :
    (tokensOf pieces).Pairwise Token.Precedes := by
  induction laid with
  | nil => exact .nil
  | @cons cursor start next last gap piece pieces isGap readsGap reads fits others
      inductionHypothesis =>
      unfold tokensOf at nonempty ⊢
      rw [List.filterMap_cons] at nonempty ⊢
      split
      next isNone => exact inductionHypothesis (by rwa [isNone] at nonempty)
      next token isToken =>
        rw [isToken] at nonempty
        obtain ⟨isNonempty, nonempty⟩ := List.forall_mem_cons.1 nonempty
        refine List.pairwise_cons.2 ⟨fun later member => ?_, inductionHypothesis nonempty⟩
        have size := utf8ByteSize_eq_textSize token.lexeme
        have positive : 0 < textSize token.lexeme.toList :=
          textSize_pos (mt String.toList_eq_nil_iff.1 isNonempty)
        have start := fits.offset isToken
        have next := reads.offset
        have later := others.offset_le member
        rw [Piece.chars_of_token? isToken] at next
        constructor <;> omega

end Laid

/-- The tokens of a source are slices of it. -/
theorem Composed.isSliceOf {source : String} {pieces : List Piece}
    (composed : Composed source pieces) {token : Token} (member : token ∈ tokensOf pieces) :
    token.IsSliceOf source := by
  obtain ⟨last, laid, _⟩ := composed
  obtain ⟨before, after, reads⟩ := laid.exists_slice member
  refine ⟨.ofList before, .ofList after, String.toList_injective ?_, ?_⟩
  · have rest : source.toList = before ++ (token.lexeme.toList ++ after) := reads.rest
    simpa using rest
  · have offset : token.offset = 0 + textSize before := reads.offset
    rw [utf8ByteSize_ofList, offset, Nat.zero_add]

end Datalog.Source
