import Datalog.Proofs.Source.Soundness

/-!
# Everything in the syntax is read

Well-formed parts that are laid out in a text are read from it, and nothing else is
(`ReadsBack`), if what follows them cannot be taken for their continuation. So a source that
consists of the pieces of well-formed clauses is parsed as these clauses
(`parse_of_composed`).
-/

namespace Datalog.Source

/-- The first piece of a layout stands behind a gap that is passed over. -/
theorem Laid.exists_start {cursor last : Cursor} {piece : Piece} {pieces : List Piece}
    (laid : Laid cursor (piece :: pieces) last) (isSolid : piece.IsSolid) :
    ∃ start next, Parser.gap.run cursor = .ok ((), start) ∧ start.Reads piece.chars next ∧
      piece.Fits start next ∧ Laid next pieces last := by
  obtain _ | @⟨_, start, next, _, _, _, _, isGap, readsGap, reads, fits, laid⟩ := laid
  refine ⟨start, next, Parser.run_gap isGap readsGap ?_, reads, fits, laid⟩
  obtain ⟨first, others, isFirst⟩ := List.exists_cons_of_ne_nil isSolid.nonempty
  rw [reads.rest]
  intro char isChar
  rw [isFirst] at isChar
  exact isSolid.solid char (by rw [isFirst]; exact isChar)

/-- A gap begins with a blank or a comment. -/
theorem Gap.head {gap after : List Char} (isGap : Gap gap after) :
    ∀ next ∈ gap.head?, next ∈ [' ', '\t', '\r', '\n', '%', '/'] := by
  cases isGap with
  | nil => simp
  | blank isBlank _ =>
      rintro next isNext
      cases isNext
      simp only [Text.isBlank, Bool.or_eq_true, beq_iff_eq] at isBlank
      rcases isBlank with ((rfl | rfl) | rfl) | rfl <;> simp
  | comment isMark _ _ _ => cases isMark <;> simp

/-- An operator begins neither with a name character nor as other punctuation. -/
theorem IsOperator.head {operator : List Char} (isOperator : IsOperator operator) :
    ∀ next ∈ operator.head?, Text.isNameChar next = false ∧ next ≠ '.' ∧ next ≠ '(' := by
  obtain ⟨first, others, rfl, isFirst⟩ := isOperator.startsWith
  rintro next isNext
  cases isNext
  have member : first ∈ ['<', '>', '=', '!'] := List.contains_iff_mem.1 isFirst
  simp only [List.mem_cons, List.not_mem_nil, or_false] at member
  rcases member with rfl | rfl | rfl | rfl <;> decide

/-- No term begins with an operator character. -/
theorem Term.WellFormed.head {term : Term} (wellFormed : term.WellFormed) :
    ∀ next ∈ term.token.lexeme.toList.head?, isOperatorChar next = false := by
  obtain ⟨first, others, isLexeme, isFirst⟩ := wellFormed.startsTerm
  rw [isLexeme]
  rintro next isNext
  cases isNext
  rw [← Bool.not_eq_true]
  intro isOperator
  have member : first ∈ ['<', '>', '=', '!'] := List.contains_iff_mem.1 isOperator
  simp only [List.mem_cons, List.not_mem_nil, or_false] at member
  rcases member with rfl | rfl | rfl | rfl <;> exact absurd isFirst (by decide)

section Boundary

variable {class? : Char → Bool} {cursor last : Cursor} {piece : Piece} {pieces : List Piece}

/-- A class that contains neither what begins a gap nor what begins a piece does not go on in
front of the piece. -/
theorem Laid.ends (isSolid : IsSolidClass class?) (laid : Laid cursor (piece :: pieces) last)
    (nonempty : piece.chars ≠ []) (excluded : ∀ next ∈ piece.chars.head?, class? next = false) :
    ∀ next ∈ cursor.rest.head?, class? next = false := by
  obtain _ | @⟨_, start, next, _, gap, _, _, isGap, readsGap, reads, _, _⟩ := laid
  rw [readsGap.rest]
  intro char isChar
  cases gap with
  | nil =>
      obtain ⟨first, others, isFirst⟩ := List.exists_cons_of_ne_nil nonempty
      rw [List.nil_append, reads.rest, isFirst] at isChar
      exact excluded char (by rw [isFirst]; exact isChar)
  | cons blank gap => exact isSolid char (isGap.head char isChar)

/-- No term goes on in front of a piece that begins neither with a name character nor with a
point. -/
theorem Laid.endsTerm (laid : Laid cursor (piece :: pieces) last) (nonempty : piece.chars ≠ [])
    (excluded : ∀ next ∈ piece.chars.head?, Text.isNameChar next = false ∧ next ≠ '.') :
    EndsTerm cursor.rest where
  name := laid.ends (by decide) nonempty fun next isNext => (excluded next isNext).1
  point next others isRest := by
    have noPoint : ∀ next ∈ cursor.rest.head?, (next == '.') = false :=
      laid.ends (by decide) nonempty fun next isNext => beq_false_of_ne (excluded next isNext).2
    cases noPoint '.' (by rw [isRest]; rfl)

/-- No term goes on in front of a full stop without a digit behind it. -/
theorem Laid.endsTerm_stop (laid : Laid cursor [.mark ['.']] last) (ends : EndsDigits last.rest) :
    EndsTerm cursor.rest where
  name := laid.ends (by decide) (by simp [Piece.chars]) (by simp [Piece.chars]; decide)
  point digit others isRest := by
    obtain _ | @⟨_, start, next, _, gap, _, _, isGap, readsGap, reads, _, laid⟩ := laid
    cases laid
    have isText := readsGap.rest
    rw [isRest, reads.rest] at isText
    cases gap with
    | nil =>
        have isDigit : digit :: others = last.rest := (List.cons.inj isText).2
        exact ends digit (by rw [← isDigit]; rfl)
    | cons blank gap =>
        obtain rfl : '.' = blank := (List.cons.inj isText).1
        exact absurd (isGap.head '.' rfl) (by decide)

end Boundary

namespace Parser

variable {cursor later : Cursor}

/-- Punctuation is read. -/
theorem run_mark {expected : Char} (isSolid : IsSolidClass (· == expected))
    (laid : Laid cursor [.mark [expected]] later) :
    (mark expected).run cursor = .ok ((), later) := by
  obtain ⟨start, next, isGap, reads, _, laid⟩ := laid.exists_start (isSolid_mark isSolid [])
  cases laid
  exact run_bind_eq_ok_iff.2 ⟨_, _, run_spaced_eq_ok_iff.2
    ⟨start, isGap, run_char_eq_ok_iff.2 ⟨rfl, reads⟩⟩, rfl⟩

/-- Where a name begins, no other term does. -/
theorem refuses_of_isName {name : List Char} (isName : IsName name)
    (reads : cursor.Reads name later) : Refuses literal cursor ∧ Refuses wildcard cursor := by
  obtain @⟨first, others, isAlphabetic, _⟩ := isName
  have isFirst : ∀ next ∈ cursor.rest.head?, Text.isAlphabetic next = true := by
    rw [reads.rest]
    rintro next isNext
    cases isNext
    exact isAlphabetic
  constructor
  · refine refuses_literal fun next isNext => ⟨?_, ?_, ?_, ?_⟩
    · rintro rfl
      exact absurd (isFirst '-' isNext) (by decide)
    · rw [← Bool.not_eq_true]
      intro isDigit
      have alphabetic := isFirst next isNext
      rw [(isNameChar_of_isDigit isDigit).2] at alphabetic
      cases alphabetic
    · rintro rfl
      exact absurd (isFirst '"' isNext) (by decide)
    · rintro rfl
      exact absurd (isFirst ':' isNext) (by decide)
  · refine refuses_bind_iff.2 (.inl (refuses_char_iff.2 fun isUnderscore => ?_))
    exact absurd (isFirst '_' isUnderscore) (by decide)

/-- A literal that is spelled as a name is one. -/
theorem namedLiteral?_of_denotes {lexeme : List Char} {value : Value}
    (denotes : Denotes lexeme value) (isNamed : ¬ ∀ truth, value ≠ .null ∧ value ≠ .bool truth) :
    namedLiteral? lexeme = some value ∧ IsName lexeme := by
  cases denotes with
  | null => exact ⟨rfl, .name (by decide) (by decide)⟩
  | truth => exact ⟨rfl, .name (by decide) (by decide)⟩
  | falsehood => exact ⟨rfl, .name (by decide) (by decide)⟩
  | integer | float | string | keyword => simp at isNamed

/-- Terms are read where no term goes on behind them. -/
theorem run_term {term : Term} (wellFormed : term.WellFormed)
    (laid : Laid cursor term.pieces later) (ends : EndsTerm later.rest) :
    Parser.term.run cursor = .ok (term, later) := by
  obtain ⟨start, next, isGap, reads, offset, laid⟩ :=
    laid.exists_start (wellFormed.isSolid _ List.mem_cons_self)
  cases laid
  refine run_spaced_eq_ok_iff.2 ⟨start, isGap, ?_⟩
  rw [run_here_bind]
  have sameToken :
      (⟨String.ofList term.token.lexeme.toList, start.offset⟩ : Token) = term.token := by
    rw [String.ofList_toList, ← show term.token.offset = start.offset from offset]
  change start.Reads term.token.lexeme.toList later at reads
  generalize term.token.lexeme.toList = lexeme at sameToken reads
  cases wellFormed with
  | @literal token value denotes =>
      obtain rfl : _ = token := sameToken
      rw [String.toList_ofList] at denotes
      by_cases notNamed : ∀ truth, value ≠ .null ∧ value ≠ .bool truth
      · exact run_orElse_eq_ok_iff.2 (.inl (run_bind_eq_ok_iff.2
          ⟨(lexeme, value), later, run_literal denotes notNamed reads ends, rfl⟩))
      · obtain ⟨isLiteral, isName⟩ := namedLiteral?_of_denotes denotes notNamed
        obtain ⟨noLiteral, noWildcard⟩ := refuses_of_isName isName reads
        refine run_orElse_eq_ok_iff.2 (.inr ⟨refuses_bind_iff.2 (.inl noLiteral), ?_⟩)
        refine run_orElse_eq_ok_iff.2 (.inr ⟨refuses_bind_iff.2 (.inl noWildcard), ?_⟩)
        refine run_bind_eq_ok_iff.2 ⟨lexeme, later,
          run_identifier_eq_ok_iff.2 ⟨isName, reads, ends.name⟩, ?_⟩
        rw [isLiteral]
        rfl
  | @identifier token isName isFree =>
      obtain rfl : _ = token := sameToken
      rw [String.toList_ofList] at isName
      obtain ⟨noLiteral, noWildcard⟩ := refuses_of_isName isName reads
      refine run_orElse_eq_ok_iff.2 (.inr ⟨refuses_bind_iff.2 (.inl noLiteral), ?_⟩)
      refine run_orElse_eq_ok_iff.2 (.inr ⟨refuses_bind_iff.2 (.inl noWildcard), ?_⟩)
      refine run_bind_eq_ok_iff.2 ⟨lexeme, later,
        run_identifier_eq_ok_iff.2 ⟨isName, reads, ends.name⟩, ?_⟩
      rw [namedLiteral?_eq_none_iff.2 isFree]
      rfl
  | @wildcard token isWildcard =>
      obtain rfl : _ = token := sameToken
      rw [String.toList_ofList] at isWildcard
      have noLiteral : Refuses literal start := by
        refine refuses_literal ?_
        rw [reads.rest]
        obtain ⟨_⟩ := isWildcard
        rintro next isNext
        cases isNext
        decide
      refine run_orElse_eq_ok_iff.2 (.inr ⟨refuses_bind_iff.2 (.inl noLiteral), ?_⟩)
      refine run_orElse_eq_ok_iff.2 (.inl (run_bind_eq_ok_iff.2 ⟨lexeme, later, ?_, rfl⟩))
      exact run_wildcard_eq_ok_iff.2 ⟨isWildcard, reads, ends.name⟩

/-- What is well formed and laid out is read, if what follows fits. -/
def ReadsBack {α : Type} (parser : Parser α) (wellFormed : α → Prop) (pieces : α → List Piece)
    (follows : List Char → Prop) : Prop :=
  ∀ ⦃cursor result later⦄, wellFormed result → Laid cursor (pieces result) later →
    follows later.rest → parser.run cursor = .ok (result, later)

/-- Terms are read where no term goes on behind them. -/
theorem readsBack_term : ReadsBack term Term.WellFormed Term.pieces EndsTerm :=
  fun _ _ _ => run_term

section Refusals

variable {piece : Piece} {pieces : List Piece} {last : Cursor}

/-- A mark is refused where another piece stands. -/
theorem refuses_mark {expected : Char} (laid : Laid cursor (piece :: pieces) last)
    (isSolid : piece.IsSolid) (different : piece.chars.head? ≠ some expected) :
    Refuses (mark expected) cursor := by
  obtain ⟨start, next, isGap, reads, _, _⟩ := laid.exists_start isSolid
  refine refuses_bind_iff.2 (.inl (refuses_bind_iff.2 (.inr ⟨(), start, isGap, ?_⟩)))
  refine refuses_char_iff.2 ?_
  obtain ⟨first, others, isFirst⟩ := List.exists_cons_of_ne_nil isSolid.nonempty
  rw [reads.rest, isFirst]
  rwa [isFirst] at different

/-- A name is refused where a piece stands that begins with no alphabetic character. -/
theorem refuses_name (laid : Laid cursor (piece :: pieces) last) (isSolid : piece.IsSolid)
    (noName : ∀ next ∈ piece.chars.head?, Text.isAlphabetic next = false) :
    Refuses (spaced (token identifier)) cursor := by
  obtain ⟨start, next, isGap, reads, _, _⟩ := laid.exists_start isSolid
  refine refuses_bind_iff.2 (.inr ⟨(), start, isGap, ?_⟩)
  refine refuses_bind_iff.2 (.inr ⟨start, start, rfl, ?_⟩)
  refine refuses_bind_iff.2 (.inl (refuses_identifier ?_))
  obtain ⟨first, others, isFirst⟩ := List.exists_cons_of_ne_nil isSolid.nonempty
  rw [reads.rest, isFirst]
  rwa [isFirst] at noName

end Refusals

/-- Names are read where no name goes on behind them. -/
theorem run_name {name : Token} (isName : IsName name.lexeme.toList)
    (laid : Laid cursor [.token name] later) (ends : EndsName later.rest) :
    (spaced (token identifier)).run cursor = .ok (name, later) := by
  obtain ⟨start, next, isGap, reads, offset, laid⟩ :=
    laid.exists_start ⟨isName.solid.1, isName.solid.2⟩
  cases laid
  refine run_spaced_eq_ok_iff.2 ⟨start, isGap, run_token_eq_ok_iff.2 ⟨_,
    run_identifier_eq_ok_iff.2 ⟨isName, reads, ends⟩, ?_⟩⟩
  rw [String.ofList_toList, ← show name.offset = start.offset from offset]

section Lists

variable {α : Type} {item : Parser α} {wellFormed : α → Prop} {pieces : α → List Piece}
  {follows : List Char → Prop} {items : List α}

/-- A comma and an item behind it take some of the text. -/
theorem LaysOut.advances (laysOut : LaysOut item wellFormed pieces) :
    Advances (do let _ ← mark ','; item) := by
  intro cursor result later isRead
  obtain ⟨_, middle, isComma, isItem⟩ := run_bind_eq_ok_iff.1 isRead
  have fewer := (laid_of_run_mark isComma).length_lt (by simp [Piece.chars])
  exact Nat.lt_of_le_of_lt (laysOut isItem).2.length_le fewer

/-- Items behind commas are read one after the other. -/
theorem ReadsBack.repeats (readsBack : ReadsBack item wellFormed pieces follows)
    (comma : ∀ ⦃cursor pieces last⦄, Laid cursor (.mark [','] :: pieces) last → follows cursor.rest)
    (areWellFormed : ∀ item ∈ items, wellFormed item)
    (laid : Laid cursor (items.flatMap fun item => .mark [','] :: pieces item) later)
    (isFollowed : follows later.rest) :
    Repeats (do let _ ← mark ','; item) cursor items later := by
  induction items generalizing cursor with
  | nil =>
      cases laid
      exact .nil _
  | cons first others inductionHypothesis =>
      obtain ⟨isWellFormed, areWellFormed⟩ := List.forall_mem_cons.1 areWellFormed
      rw [List.flatMap_cons] at laid
      obtain ⟨middle, laidFirst, laidOthers⟩ := laid.exists_of_append
      obtain ⟨start, laidComma, laidFirst⟩ := laidFirst.exists_of_cons
      have followed : follows middle.rest := by
        cases others with
        | nil =>
            cases laidOthers
            exact isFollowed
        | cons other others => exact comma laidOthers
      exact .cons (run_bind_eq_ok_iff.2 ⟨(), start, run_mark (by decide) laidComma,
        readsBack isWellFormed laidFirst followed⟩) (inductionHypothesis areWellFormed laidOthers)

/-- Items with commas between them are read if the items are. -/
theorem ReadsBack.separated (readsBack : ReadsBack item wellFormed pieces follows)
    (laysOut : LaysOut item wellFormed pieces)
    (comma : ∀ ⦃cursor pieces last⦄, Laid cursor (.mark [','] :: pieces) last →
      follows cursor.rest)
    (nonempty : items ≠ []) (areWellFormed : ∀ item ∈ items, wellFormed item)
    (laid : Laid cursor (listed pieces items) later) (isFollowed : follows later.rest)
    (refused : Refuses (mark ',') later) :
    (separated (mark ',') item).run cursor = .ok (items, later) := by
  obtain ⟨first, others, rfl⟩ := List.exists_cons_of_ne_nil nonempty
  obtain ⟨isWellFormed, areWellFormed⟩ := List.forall_mem_cons.1 areWellFormed
  obtain ⟨middle, laidFirst, laidOthers⟩ := Laid.exists_of_append laid
  have followed : follows middle.rest := by
    cases others with
    | nil =>
        cases laidOthers
        exact isFollowed
    | cons other others => exact comma laidOthers
  have repeats := readsBack.repeats comma areWellFormed laidOthers isFollowed
  refine run_bind_eq_ok_iff.2 ⟨first, middle, readsBack isWellFormed laidFirst followed, ?_⟩
  exact run_bind_eq_ok_iff.2 ⟨others, later,
    many_of_repeats laysOut.advances repeats (refuses_bind_iff.2 (.inl refused)), rfl⟩

end Lists

/-- No term goes on in front of a comma. -/
theorem endsTerm_comma ⦃cursor : Cursor⦄ ⦃pieces : List Piece⦄ ⦃last : Cursor⦄
    (laid : Laid cursor (.mark [','] :: pieces) last) : EndsTerm cursor.rest :=
  laid.endsTerm (by simp [Piece.chars]) (by simp [Piece.chars]; decide)

/-- Fields are read where no term goes on behind them. -/
theorem readsBack_namedArg : ReadsBack namedArg FieldWellFormed fieldPieces EndsTerm := by
  intro cursor field later wellFormed laid ends
  obtain ⟨first, laidField, laid⟩ := laid.exists_of_cons
  obtain ⟨second, laidColon, laid⟩ := laid.exists_of_cons
  have endsField : EndsTerm first.rest :=
    laidColon.endsTerm (by simp [Piece.chars]) (by simp [Piece.chars]; decide)
  refine run_bind_eq_ok_iff.2
    ⟨field.1, first, run_name wellFormed.isName laidField endsField.name, ?_⟩
  refine run_bind_eq_ok_iff.2 ⟨(), second, run_mark (by decide) laidColon, ?_⟩
  exact run_bind_eq_ok_iff.2 ⟨field.2, later, run_term wellFormed.term laid ends, rfl⟩

/-- Where a term stands, a name in front of a mark is refused, unless the term is such a name. -/
theorem refuses_name_mark {β : Type} {next : Token → Unit → Parser β} {expected : Char}
    {term : Term} {middle : Cursor} {piece : Piece} {pieces : List Piece}
    (wellFormed : term.WellFormed) (laid : Laid cursor term.pieces middle)
    (laidNext : Laid middle (piece :: pieces) later) (isSolid : piece.IsSolid)
    (ends : EndsName middle.rest) (noMark : piece.chars.head? ≠ some expected) :
    Refuses (spaced (token identifier) >>= fun name => mark expected >>= next name) cursor := by
  rcases wellFormed.isName_or with isName | noName
  · refine refuses_bind_iff.2 (.inr ⟨term.token, middle, run_name isName laid ends, ?_⟩)
    exact refuses_bind_iff.2 (.inl (refuses_mark laidNext isSolid noMark))
  · exact refuses_bind_iff.2
      (.inl (refuses_name laid ⟨wellFormed.solid.1, wellFormed.solid.2⟩ noName))

section Closing

variable {pieces : List Piece} {last : Cursor} (closed : Laid cursor (.mark [')'] :: pieces) last)

include closed

/-- No term goes on in front of a closing parenthesis. -/
theorem endsTerm_closing : EndsTerm cursor.rest :=
  closed.endsTerm (by simp [Piece.chars]) (by simp [Piece.chars]; decide)

/-- No argument stands in front of a closing parenthesis. -/
theorem refuses_arguments : Refuses namedArg cursor ∧ Refuses term cursor := by
  have isSolid : (Piece.mark [')']).IsSolid := isSolid_mark (by decide) _
  constructor
  · exact refuses_bind_iff.2 (.inl (refuses_name closed isSolid (by simp [Piece.chars]; decide)))
  · obtain ⟨start, next, isGap, reads, _, _⟩ := closed.exists_start isSolid
    have isClosing : ∀ next ∈ start.rest.head?, next = ')' := by
      rw [reads.rest]
      exact fun next isNext => (Option.some.inj isNext).symm
    refine refuses_bind_iff.2 (.inr ⟨(), start, isGap, ?_⟩)
    refine refuses_bind_iff.2 (.inr ⟨start, start, rfl, ?_⟩)
    refine refuses_orElse_iff.2 ⟨refuses_bind_iff.2 (.inl (refuses_literal ?_)),
      refuses_orElse_iff.2 ⟨refuses_bind_iff.2 (.inl (refuses_bind_iff.2 (.inl
        (refuses_char_iff.2 ?_)))), refuses_bind_iff.2 (.inl (refuses_identifier ?_))⟩⟩
    · intro next isNext
      rw [isClosing next isNext]
      decide
    · exact fun isNext => absurd (isClosing '_' isNext) (by decide)
    · intro next isNext
      rw [isClosing next isNext]
      decide

/-- Arguments are read in front of a closing parenthesis. -/
theorem run_args {args : Args} {start : Cursor} (wellFormed : args.WellFormed)
    (laid : Laid start args.pieces cursor) : Parser.args.run start = .ok (args, cursor) := by
  have ends := endsTerm_closing closed
  have noComma : Refuses (mark ',') cursor :=
    refuses_mark closed (isSolid_mark (by decide) _) (by simp [Piece.chars])
  cases wellFormed with
  | named nonempty wellFormed =>
      refine run_orElse_eq_ok_iff.2 (.inl (run_map_eq_ok_iff.2 ⟨_, ?_, rfl⟩))
      exact readsBack_namedArg.separated laysOut_namedArg endsTerm_comma nonempty wellFormed laid
        ends noComma
  | @ordered terms wellFormed =>
      have noFields : Refuses (separated (mark ',') namedArg) start := by
        refine refuses_bind_iff.2 (.inl ?_)
        cases terms with
        | nil =>
            cases laid
            exact (refuses_arguments closed).1
        | cons first others =>
            obtain ⟨middle, laidFirst, laidOthers⟩ := Laid.exists_of_append laid
            have isFirst := wellFormed first List.mem_cons_self
            cases others with
            | nil =>
                cases laidOthers
                exact refuses_name_mark isFirst laidFirst closed (isSolid_mark (by decide) _)
                  ends.name (by simp [Piece.chars])
            | cons other others =>
                exact refuses_name_mark isFirst laidFirst laidOthers (isSolid_mark (by decide) _)
                  (endsTerm_comma laidOthers).name (by simp [Piece.chars])
      refine run_orElse_eq_ok_iff.2 (.inr ⟨refuses_map_iff.2 noFields, ?_⟩)
      by_cases isEmpty : terms = []
      · subst isEmpty
        cases laid
        refine run_bind_eq_ok_iff.2 ⟨none, _, run_optional_eq_ok_iff.2 (.inr ⟨?_, rfl, rfl⟩), rfl⟩
        exact refuses_bind_iff.2 (.inl (refuses_arguments closed).2)
      · refine run_bind_eq_ok_iff.2
          ⟨some terms, cursor, run_optional_eq_ok_iff.2 (.inl ⟨terms, ?_, rfl⟩), rfl⟩
        exact readsBack_term.separated laysOut_term endsTerm_comma isEmpty wellFormed laid ends
          noComma

end Closing

/-- Atoms are read. -/
theorem run_atom {atom : Atom} (wellFormed : atom.WellFormed)
    (laid : Laid cursor atom.pieces later) :
    Parser.atom.run cursor = .ok (atom, later) := by
  obtain ⟨first, laidRelation, laid⟩ := laid.exists_of_cons
  obtain ⟨third, laid, laidClosing⟩ := laid.exists_of_append
  have ends : EndsTerm first.rest :=
    laid.endsTerm (by simp [Piece.chars]) (by simp [Piece.chars]; decide)
  obtain ⟨second, laidOpening, laidArgs⟩ := laid.exists_of_cons
  refine run_bind_eq_ok_iff.2 ⟨atom.relation, first,
    run_name wellFormed.isName laidRelation ends.name, ?_⟩
  refine run_bind_eq_ok_iff.2 ⟨(), second, run_mark (by decide) laidOpening, ?_⟩
  refine run_bind_eq_ok_iff.2 ⟨atom.args, third, run_args laidClosing wellFormed.args laidArgs, ?_⟩
  exact run_bind_eq_ok_iff.2 ⟨(), later, run_commit_eq_ok_iff.2
    (run_within_eq_ok_iff.2 (run_mark (by decide) laidClosing)), rfl⟩

/-- A token that leads a literal is laid out as any other. -/
theorem laid_token_of_leading {leading : Token} {pieces : List Piece}
    (laid : Laid cursor (.leading leading :: pieces) later) :
    Laid cursor (.token leading :: pieces) later := by
  obtain _ | ⟨isGap, readsGap, reads, fits, laid⟩ := laid
  exact .cons isGap readsGap reads fits.1 laid

/-- What leads a literal is not read as a negation: a longer name goes on behind the word, and
the word alone has no blank behind it. -/
theorem refuses_negation {leading : Token} {piece : Piece} {pieces : List Piece}
    (isName : IsName leading.lexeme.toList ∨
      ∀ next ∈ leading.lexeme.toList.head?, Text.isAlphabetic next = false)
    (isSolid : (Piece.leading leading).IsSolid)
    (laid : Laid cursor (.leading leading :: piece :: pieces) later) (nonempty : piece.chars ≠ [])
    (ends : ∀ next ∈ piece.chars.head?, Text.isNameChar next = false) :
    Refuses negation cursor := by
  obtain ⟨start, next, isGap, reads, fits, laidNext⟩ := laid.exists_start isSolid
  change start.Reads leading.lexeme.toList next at reads
  refine refuses_bind_iff.2 (.inr ⟨(), start, isGap, ?_⟩)
  by_cases isWord : ['n', 'o', 't'] <+: start.rest
  · have readsWord := Cursor.Reads.skip isWord
    refine refuses_bind_iff.2 (.inr ⟨_, _, run_text_eq_ok_iff.2 ⟨rfl, readsWord⟩, ?_⟩)
    refine refuses_bind_iff.2 (.inl (refuses_someChars_iff.2 fun blank isNext => ?_))
    rw [← Bool.not_eq_true]
    intro isBlank
    rcases isName with isName | noName
    · have noNameChar : Text.isNameChar blank = false := by
        simp only [Text.isBlank, Bool.or_eq_true, beq_iff_eq] at isBlank
        rcases isBlank with ((rfl | rfl) | rfl) | rfl <;> decide
      have isLexeme : start.rest.takeWhile Text.isNameChar = leading.lexeme.toList :=
        takeWhile_eq_iff.2 ⟨next.rest, reads.rest, isName.isNameChar,
          laidNext.ends (by decide) nonempty ends⟩
      have isNot : start.rest.takeWhile Text.isNameChar = ['n', 'o', 't'] := by
        refine takeWhile_eq_iff.2 ⟨_, readsWord.rest, by decide, fun char isChar => ?_⟩
        rw [Option.mem_unique isChar isNext]
        exact noNameChar
      have same : leading.lexeme.toList = ['n', 'o', 't'] := isLexeme.symm.trans isNot
      rw [same] at reads
      refine fits.2 (String.toList_injective same) ?_
      rw [← reads.eq_skip] at isNext
      exact (Option.any_eq_true _ _).2 ⟨blank, isNext, isBlank⟩
    · obtain ⟨rest, isRest⟩ := isWord
      obtain ⟨first, others, isFirst⟩ := List.exists_cons_of_ne_nil isSolid.nonempty
      change leading.lexeme.toList = first :: others at isFirst
      rw [reads.rest, isFirst] at isRest
      obtain rfl : 'n' = first := (List.cons.inj isRest).1
      exact absurd (noName 'n' (by rw [isFirst]; rfl)) (by decide)
  · exact refuses_bind_iff.2 (.inl (refuses_text_iff.2 isWord))

/-- Blanks in front of a piece are read, and the rest of the gap is left. -/
theorem exists_run_blanks {piece : Piece} {pieces : List Piece}
    (laid : Laid cursor (piece :: pieces) later) (isSolid : piece.IsSolid)
    (beginsBlank : BeginsBlank cursor.rest) :
    ∃ chars middle, blanks.run cursor = .ok (chars, middle) ∧
      Laid middle (piece :: pieces) later := by
  obtain ⟨blank, isNext, isBlank⟩ := (Option.any_eq_true _ _).1 beginsBlank
  obtain ⟨start, next, isGapRead, reads, fits, laid⟩ := laid.exists_start isSolid
  obtain ⟨items, last, areRead, isPure⟩ := run_bind_eq_ok_iff.1 isGapRead
  obtain ⟨_, rfl⟩ := run_pure_eq_ok_iff.1 isPure
  cases repeats_of_many areRead with
  | nil =>
      obtain ⟨first, others, isFirst⟩ := List.exists_cons_of_ne_nil isSolid.nonempty
      rw [reads.rest, isFirst] at isNext
      have notBlank := (isSolid.solid blank (by rw [isFirst]; exact isNext)).1
      rw [isBlank] at notBlank
      cases notBlank
  | @cons _ middle _ item items isRead others =>
      rcases run_orElse_eq_ok_iff.1 isRead with areBlanks | ⟨noBlanks, _⟩
      · obtain ⟨chars, isGap, readsGap⟩ := exists_gap_of_repeats others
        exact ⟨item, middle, areBlanks, .cons isGap readsGap reads fits laid⟩
      · rw [refuses_someChars_iff.1 noBlanks blank isNext] at isBlank
        cases isBlank

/-- Negated atoms are read. -/
theorem run_negatedAtom {atom : Atom} (wellFormed : atom.WellFormed)
    (laid : Laid cursor (.negation :: atom.pieces) later) :
    negatedAtom.run cursor = .ok (atom, later) := by
  obtain ⟨start, next, isGap, reads, beginsBlank, laid⟩ := laid.exists_start isSolid_negation
  obtain ⟨chars, middle, areBlanks, laid⟩ :=
    exists_run_blanks laid (wellFormed.isSolid _ List.mem_cons_self) beginsBlank
  refine run_bind_eq_ok_iff.2 ⟨_, middle, run_spaced_eq_ok_iff.2 ⟨start, isGap,
    run_bind_eq_ok_iff.2 ⟨_, next, run_text_eq_ok_iff.2 ⟨rfl, reads⟩,
      run_bind_eq_ok_iff.2 ⟨chars, middle, areBlanks, rfl⟩⟩⟩, ?_⟩
  exact run_commit_eq_ok_iff.2 (run_within_eq_ok_iff.2 (run_atom wellFormed laid))

/-- Operators are read up to another character. -/
theorem run_comparisonOperator {operator : Token} (isOperator : IsOperator operator.lexeme.toList)
    (laid : Laid cursor [.token operator] later)
    (ends : ∀ next ∈ later.rest.head?, isOperatorChar next = false) :
    comparisonOperator.run cursor = .ok (operator, later) := by
  obtain ⟨start, next, isGap, reads, offset, laid⟩ :=
    laid.exists_start ⟨isOperator.solid.1, isOperator.solid.2⟩
  cases laid
  refine run_spaced_eq_ok_iff.2 ⟨start, isGap, run_token_eq_ok_iff.2 ⟨_,
    run_someChars_eq_ok_iff.2 ⟨isOperator.nonempty,
      run_charsWhile_eq_ok_iff.2 ⟨reads, isOperator.areOperatorChars, ends⟩⟩, ?_⟩⟩
  rw [String.ofList_toList, ← show operator.offset = start.offset from offset]

/-- Parts of bodies are read where no term goes on behind them. -/
theorem readsBack_bodyLiteral :
    ReadsBack bodyLiteral Literal.WellFormed Literal.pieces EndsTerm := by
  intro cursor literal later wellFormed laid ends
  cases wellFormed with
  | negated wellFormed =>
      exact run_orElse_eq_ok_iff.2 (.inl (run_map_eq_ok_iff.2
        ⟨_, run_negatedAtom wellFormed laid, rfl⟩))
  | @positive atom wellFormed =>
      have noNegation : Refuses negation cursor := by
        refine refuses_negation (.inl wellFormed.isName)
          ⟨wellFormed.isName.solid.1, wellFormed.isName.solid.2⟩ laid ?_ ?_ <;>
        simp [Piece.chars]
        decide
      refine run_orElse_eq_ok_iff.2 (.inr
        ⟨refuses_map_iff.2 (refuses_bind_iff.2 (.inl noNegation)), ?_⟩)
      exact run_orElse_eq_ok_iff.2 (.inl (run_map_eq_ok_iff.2
        ⟨atom, run_atom wellFormed (laid_token_of_leading laid), rfl⟩))
  | @comparison left right operator isLeft isOperator isRight =>
      have operatorSolid : (Piece.token operator).IsSolid :=
        ⟨isOperator.solid.1, isOperator.solid.2⟩
      have operatorHead := isOperator.head
      have noNegation : Refuses negation cursor :=
        refuses_negation isLeft.isName_or ⟨isLeft.solid.1, isLeft.solid.2⟩ laid
          isOperator.nonempty fun next isNext => (operatorHead next isNext).1
      obtain ⟨first, laidLeft, laid⟩ :=
        (laid_token_of_leading laid).exists_of_cons
      have endsLeft : EndsTerm first.rest :=
        laid.endsTerm isOperator.nonempty fun next isNext =>
          ⟨(operatorHead next isNext).1, (operatorHead next isNext).2.1⟩
      have noAtom : Refuses atom cursor :=
        refuses_name_mark isLeft laidLeft laid operatorSolid endsLeft.name fun isOpening =>
          (operatorHead '(' isOpening).2.2 rfl
      obtain ⟨second, laidOperator, laidRight⟩ := laid.exists_of_cons
      have endsOperator : ∀ next ∈ second.rest.head?, isOperatorChar next = false :=
        laidRight.ends (by decide) isRight.solid.1 isRight.head
      refine run_orElse_eq_ok_iff.2 (.inr
        ⟨refuses_map_iff.2 (refuses_bind_iff.2 (.inl noNegation)), ?_⟩)
      refine run_orElse_eq_ok_iff.2 (.inr ⟨refuses_map_iff.2 noAtom, ?_⟩)
      refine run_bind_eq_ok_iff.2 ⟨left, first, run_term isLeft laidLeft endsLeft, ?_⟩
      refine run_bind_eq_ok_iff.2
        ⟨operator, second, run_comparisonOperator isOperator laidOperator endsOperator, ?_⟩
      exact run_bind_eq_ok_iff.2 ⟨right, later, run_commit_eq_ok_iff.2
        (run_within_eq_ok_iff.2 (run_term isRight laidRight ends)), rfl⟩

/-- Bodies are read in front of a full stop. -/
theorem run_body {literals : List Literal} (nonempty : literals ≠ [])
    (wellFormed : ∀ literal ∈ literals, literal.WellFormed) {last : Cursor}
    (laid : Laid cursor (.mark [':', '-'] :: listed Literal.pieces literals) later)
    (stopped : Laid later [.mark ['.']] last) (ends : EndsDigits last.rest) :
    body.run cursor = .ok (literals, later) := by
  obtain ⟨start, next, isGap, reads, _, laid⟩ := laid.exists_start (isSolid_mark (by decide) _)
  refine run_bind_eq_ok_iff.2 ⟨_, next, run_spaced_eq_ok_iff.2
    ⟨start, isGap, run_text_eq_ok_iff.2 ⟨rfl, reads⟩⟩, ?_⟩
  refine run_commit_eq_ok_iff.2 (run_within_eq_ok_iff.2 ?_)
  exact readsBack_bodyLiteral.separated laysOut_bodyLiteral endsTerm_comma nonempty wellFormed laid
    (stopped.endsTerm_stop ends)
    (refuses_mark stopped (isSolid_mark (by decide) _) (by simp [Piece.chars]))

/-- Clauses are read where their full stop has no digit behind it. -/
theorem readsBack_clause : ReadsBack clause Clause.WellFormed Clause.pieces EndsDigits := by
  intro cursor clause later wellFormed laid ends
  have isStop : (Piece.mark ['.']).IsSolid := isSolid_mark (by decide) _
  cases wellFormed with
  | @fact head isHead =>
      obtain ⟨first, laidHead, laidStop⟩ := Laid.exists_of_append laid
      refine run_bind_eq_ok_iff.2 ⟨head, first,
        run_within_eq_ok_iff.2 (run_atom isHead laidHead), ?_⟩
      have noBody : Refuses body first := by
        obtain ⟨start, next, isGap, reads, _, _⟩ := laidStop.exists_start isStop
        refine refuses_bind_iff.2 (.inl (refuses_bind_iff.2 (.inr ⟨(), start, isGap, ?_⟩)))
        refine refuses_text_iff.2 ?_
        rw [reads.rest]
        rintro ⟨rest, isRest⟩
        cases isRest
      refine run_bind_eq_ok_iff.2
        ⟨none, first, run_optional_eq_ok_iff.2 (.inr ⟨noBody, rfl, rfl⟩), ?_⟩
      exact run_bind_eq_ok_iff.2 ⟨(), later, run_commit_eq_ok_iff.2
        (run_within_eq_ok_iff.2 (run_mark (by decide) laidStop)), rfl⟩
  | @rule head literals isHead nonempty isBody =>
      obtain ⟨second, laid, laidStop⟩ := Laid.exists_of_append laid
      obtain ⟨first, laidHead, laidBody⟩ := Laid.exists_of_append laid
      refine run_bind_eq_ok_iff.2 ⟨head, first,
        run_within_eq_ok_iff.2 (run_atom isHead laidHead), ?_⟩
      refine run_bind_eq_ok_iff.2 ⟨some literals, second, run_optional_eq_ok_iff.2
        (.inl ⟨literals, run_body nonempty isBody laidBody laidStop ends, rfl⟩), ?_⟩
      exact run_bind_eq_ok_iff.2 ⟨(), later, run_commit_eq_ok_iff.2
        (run_within_eq_ok_iff.2 (run_mark (by decide) laidStop)), rfl⟩

end Parser

/-- A clause begins with the relation of its head. -/
theorem Clause.WellFormed.exists_pieces_eq {clause : Clause} (wellFormed : clause.WellFormed) :
    ∃ relation pieces, IsName relation.lexeme.toList ∧
      clause.pieces = .token relation :: pieces := by
  cases wellFormed with
  | fact isHead => exact ⟨_, _, isHead.isName, rfl⟩
  | rule isHead _ _ => exact ⟨_, _, isHead.isName, rfl⟩

/-- No digit stands in front of a clause. -/
theorem Clause.WellFormed.endsDigits {cursor last : Cursor} {clause : Clause}
    {others : List Piece} (wellFormed : clause.WellFormed)
    (laid : Laid cursor (clause.pieces ++ others) last) : EndsDigits cursor.rest := by
  obtain ⟨relation, pieces, isName, isFirst⟩ := wellFormed.exists_pieces_eq
  rw [isFirst] at laid
  refine laid.ends (by decide) isName.solid.1 fun next isNext => ?_
  obtain ⟨first, others, isLexeme, isAlphabetic⟩ := isName.startsWith
  rw [Piece.chars, isLexeme] at isNext
  cases isNext
  rw [← Bool.not_eq_true]
  intro isDigit
  rw [(isNameChar_of_isDigit isDigit).2] at isAlphabetic
  cases isAlphabetic

/-- A gap begins with no digit. -/
theorem Gap.endsDigits {gap after : List Char} (isGap : Gap gap after) : EndsDigits gap := by
  intro next isNext
  have notDigit : IsSolidClass Char.isDigit := by decide
  exact notDigit next (isGap.head next isNext)

/-- No digit stands behind a clause, in front of others or of what follows them. -/
theorem endsDigits_clauses {cursor last : Cursor} {clauses : List Clause}
    (wellFormed : ∀ clause ∈ clauses, clause.WellFormed)
    (laid : Laid cursor (clauses.flatMap Clause.pieces) last) (ends : EndsDigits last.rest) :
    EndsDigits cursor.rest := by
  cases clauses with
  | nil =>
      cases laid
      exact ends
  | cons clause clauses => exact (wellFormed clause List.mem_cons_self).endsDigits laid

/-- A last gap is passed over up to the end of the text. -/
theorem exists_run_gap_of_end {cursor : Cursor} (isGap : Gap cursor.rest []) :
    ∃ later, Parser.gap.run cursor = .ok ((), later) ∧ later.rest = [] := by
  have atEnd : (cursor.skip cursor.rest).rest = [] := by rw [Cursor.skip, List.drop_length]
  refine ⟨_, Parser.run_gap (atEnd.symm ▸ isGap) (.skip (List.prefix_refl _)) ?_, atEnd⟩
  rw [atEnd]
  exact fun next isNext => by cases isNext

/-- In front of a last gap nothing is read. -/
theorem readClauses_of_gap {bound : List Char} {cursor : Cursor} (isGap : Gap cursor.rest []) :
    readClauses bound cursor = [] := by
  cases bound with
  | nil => rfl
  | cons char bound =>
      obtain ⟨later, isGapRead, atEnd⟩ := exists_run_gap_of_end isGap
      rw [readClauses, isGapRead]
      dsimp only
      rw [atEnd]
      rfl

/-- A clause is laid out in some of the text. -/
theorem Clause.WellFormed.length_lt {cursor last : Cursor} {clause : Clause}
    (wellFormed : clause.WellFormed) (laid : Laid cursor clause.pieces last) :
    last.rest.length < cursor.rest.length := by
  obtain ⟨relation, pieces, isName, isFirst⟩ := wellFormed.exists_pieces_eq
  rw [isFirst] at laid
  exact laid.length_lt isName.solid.1

/-- A well-formed clause that is laid out is read before what follows it. -/
theorem readClauses_of_laid_clause {char : Char} {bound : List Char} {cursor last : Cursor}
    {clause : Clause} (wellFormed : clause.WellFormed) (laid : Laid cursor clause.pieces last)
    (ends : EndsDigits last.rest) :
    readClauses (char :: bound) cursor = .ok clause :: readClauses bound last := by
  obtain ⟨relation, pieces, isName, isFirst⟩ := wellFormed.exists_pieces_eq
  rw [isFirst] at laid
  obtain ⟨start, next, isGapRead, reads, fits, laid⟩ :=
    laid.exists_start ⟨isName.solid.1, isName.solid.2⟩
  have laidClause : Laid start clause.pieces last := by
    rw [isFirst]
    exact .cons (.nil _) (.nil _) reads fits laid
  have nonempty : start.rest ≠ [] := by
    rw [reads.rest]
    exact List.append_ne_nil_of_left_ne_nil isName.solid.1 _
  rw [readClauses, isGapRead]
  dsimp only
  rw [if_neg (mt List.isEmpty_iff.1 nonempty), Parser.readsBack_clause wellFormed laidClause ends]

/-- Well-formed clauses that are laid out are read before what follows them. -/
theorem exists_readClauses_eq_append {bound : List Char} {cursor last : Cursor}
    {clauses : List Clause} (enough : cursor.rest.length ≤ bound.length)
    (wellFormed : ∀ clause ∈ clauses, clause.WellFormed)
    (laid : Laid cursor (clauses.flatMap Clause.pieces) last) (ends : EndsDigits last.rest) :
    ∃ others, last.rest.length ≤ others.length ∧
      readClauses bound cursor = clauses.map .ok ++ readClauses others last := by
  induction clauses generalizing bound cursor with
  | nil =>
      cases laid
      exact ⟨bound, enough, rfl⟩
  | cons clause clauses inductionHypothesis =>
      obtain ⟨isWellFormed, areWellFormed⟩ := List.forall_mem_cons.1 wellFormed
      rw [List.flatMap_cons] at laid
      obtain ⟨middle, laidClause, laidOthers⟩ := laid.exists_of_append
      have endsClause := endsDigits_clauses areWellFormed laidOthers ends
      have fewer := isWellFormed.length_lt laidClause
      cases bound with
      | nil => exact absurd fewer (Nat.not_lt_of_le (Nat.le_trans enough (Nat.zero_le _)))
      | cons char bound =>
          rw [List.length_cons] at enough
          have enoughBound : middle.rest.length ≤ bound.length := by omega
          obtain ⟨others, enoughOthers, areRead⟩ :=
            inductionHypothesis enoughBound areWellFormed laidOthers
          refine ⟨others, enoughOthers, ?_⟩
          rw [readClauses_of_laid_clause isWellFormed laidClause endsClause, areRead]
          rfl

/-- Well-formed clauses that are laid out up to a last gap are read. -/
theorem readClauses_of_laid {bound : List Char} {cursor last : Cursor} {clauses : List Clause}
    (enough : cursor.rest.length ≤ bound.length)
    (wellFormed : ∀ clause ∈ clauses, clause.WellFormed)
    (laid : Laid cursor (clauses.flatMap Clause.pieces) last) (isGap : Gap last.rest []) :
    readClauses bound cursor = clauses.map .ok := by
  obtain ⟨others, _, areRead⟩ :=
    exists_readClauses_eq_append enough wellFormed laid isGap.endsDigits
  rw [areRead, readClauses_of_gap isGap, List.append_nil]

/-- A source that consists of the pieces of well-formed clauses and of gaps is parsed as these
clauses. -/
theorem parse_of_composed {source : String} {clauses : List Clause}
    (wellFormed : ∀ clause ∈ clauses, clause.WellFormed)
    (composed : Composed source (clauses.flatMap Clause.pieces)) :
    parse source = .ok clauses := by
  obtain ⟨last, laid, isGap⟩ := composed
  exact parse_eq_ok_iff.2 (readClauses_of_laid (Nat.le_refl _) wellFormed laid isGap)

/-- A field that is repeated, a variable that is called `not`, and a comment with a quote and a
full stop in it. -/
theorem parse_repeated_field :
    let source := "q(a:X,a::k):-% \"1.\nnot<-1."
    let clauses : List Clause := [
      .rule ⟨⟨"q", 0⟩, .named [(⟨"a", 2⟩, .identifier ⟨"X", 4⟩),
        (⟨"a", 6⟩, .literal ⟨":k", 8⟩ (.keyword "k"))]⟩ [
        .comparison (.identifier ⟨"not", 19⟩) ⟨"<", 22⟩ (.literal ⟨"-1", 23⟩ (.int (-1)))]]
    (∀ clause ∈ clauses, clause.WellFormed) ∧
      Composed source (clauses.flatMap Clause.pieces) ∧ parse source = .ok clauses := by
  intro source clauses
  have wellFormed : ∀ clause ∈ clauses, clause.WellFormed := by
    refine List.forall_mem_singleton.2 (.rule ⟨.name rfl (by decide), ?_⟩ (by decide) ?_)
    · refine .named (by decide) (List.forall_mem_cons.2 ⟨⟨.name rfl (by decide), ?_⟩, ?_⟩)
      · exact .identifier (.name rfl (by decide)) (by decide)
      · refine List.forall_mem_singleton.2 ⟨.name rfl (by decide), ?_⟩
        exact .literal (.keyword (.name rfl (by decide)))
    · refine List.forall_mem_singleton.2 (.comparison ?_ ⟨by decide, by decide⟩ ?_)
      · exact .identifier (.name rfl (by decide)) (by decide)
      · exact .literal (.integer .minus ⟨by decide, by decide⟩ rfl)
  have composed : Composed source (clauses.flatMap Clause.pieces) := by
    refine ⟨⟨[], 26⟩, ?_, .nil []⟩
    have comment (after : List Char) : Gap ['%', ' ', '"', '1', '.', '\n'] after :=
      @Gap.comment ['%'] [' ', '"', '1', '.'] ['\n'] after .percent (by decide) (.lineFeed after)
        (.blank rfl (.nil after))
    repeat refine .behind [] (.nil _) (by decide) (by decide) (by decide) ?_
    refine .behind _ (comment _) (by decide) (by decide) (by decide) ?_
    repeat refine .behind [] (.nil _) (by decide) (by decide) (by decide) ?_
    exact .stop (by decide)
  exact ⟨wellFormed, composed, parse_of_composed wellFormed composed⟩

end Datalog.Source
