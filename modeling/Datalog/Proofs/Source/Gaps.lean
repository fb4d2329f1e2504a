import Datalog.Proofs.Source.Reading

/-!
# Gaps are passed over

The parser of gaps reads blanks and comments, as many as there are: what it has read is a gap
(`exists_gap_of_run`), and a gap in front of anything that begins no further one is read as a
whole (`run_gap`).
-/

namespace Datalog.Source

/-- A line ends at a line break, if not with the text. -/
theorem EndsLine.isLineBreak {rest : List Char} (ends : EndsLine rest) :
    ∀ next ∈ rest.head?, Parser.isLineBreak next = true := by
  cases ends <;> simp [Parser.isLineBreak]

/-- Gaps may follow each other. -/
theorem Gap.append {gap others after : List Char} (isGap : Gap gap (others ++ after))
    (areOthers : Gap others after) : Gap (gap ++ others) after := by
  generalize isAfter : others ++ after = whole at isGap
  induction isGap with
  | nil => exact areOthers
  | blank isBlank _ inductionHypothesis => exact .blank isBlank (inductionHypothesis isAfter)
  | comment isMark inLine ends _ inductionHypothesis =>
      rw [List.append_assoc]
      refine .comment isMark inLine ?_ (inductionHypothesis isAfter)
      rwa [List.append_assoc, isAfter]

/-- Blanks are a gap. -/
theorem Gap.blanks {chars : List Char} (areBlank : ∀ char ∈ chars, Text.isBlank char = true)
    (after : List Char) : Gap chars after := by
  induction chars with
  | nil => exact .nil after
  | cons char chars inductionHypothesis =>
      obtain ⟨isBlank, areBlank⟩ := List.forall_mem_cons.1 areBlank
      exact .blank isBlank (inductionHypothesis areBlank)

namespace Parser

variable {cursor middle later : Cursor} {chars : List Char}

/-- The rest of a line is read up to its end, and refused where a carriage return stands
alone. -/
theorem run_lineRest_eq_ok_iff :
    lineRest.run cursor = .ok (chars, later) ↔
      cursor.Reads chars later ∧ (∀ char ∈ chars, isLineBreak char = false) ∧
        EndsLine later.rest := by
  rw [lineRest, run_here_bind]
  dsimp only
  generalize isLine : cursor.rest.takeWhile (!isLineBreak ·) = line
  obtain ⟨after, isRest, inLine, stops⟩ := takeWhile_eq_iff.1 isLine
  simp only [Bool.not_eq_true', Bool.not_eq_false'] at inLine stops
  rw [isRest, List.drop_left]
  constructor
  · intro isRead
    have isConsumed : (consume line).run cursor = .ok (chars, later) := by
      split at isRead
      next => exact isRead
      next => cases isRead
      next => exact isRead
    obtain ⟨rfl, reads⟩ := (run_consume_eq_ok_iff ⟨after, isRest.symm⟩).1 isConsumed
    have same : after = later.rest := List.append_cancel_left (isRest.symm.trans reads.rest)
    refine ⟨reads, inLine, same ▸ ?_⟩
    split at isRead
    next rest => exact .carriageReturn rest
    next => cases isRead
    next notAlone =>
      cases after with
      | nil => exact .endOfText
      | cons next rest =>
          have isBreak := stops next rfl
          simp only [isLineBreak, Bool.or_eq_true, beq_iff_eq] at isBreak
          rcases isBreak with rfl | rfl
          · exact absurd rfl (notAlone rest)
          · exact .lineFeed rest
  · rintro ⟨reads, inChars, ends⟩
    have same : line = chars := by
      rw [← isLine]
      exact takeWhile_eq_iff.2 ⟨later.rest, reads.rest, by simpa using inChars,
        by simpa using ends.isLineBreak⟩
    subst same
    have isAfter : after = later.rest := List.append_cancel_left (isRest.symm.trans reads.rest)
    have isConsumed := (run_consume_eq_ok_iff ⟨after, isRest.symm⟩).2 ⟨rfl, reads⟩
    rw [← isAfter] at ends
    cases ends <;> exact isConsumed

/-- A comment is read up to the end of its line. -/
theorem run_comment_eq_ok_iff :
    comment.run cursor = .ok (chars, later) ↔
      ∃ mark line, chars = mark ++ line ∧ cursor.Reads chars later ∧ IsCommentMark mark ∧
        (∀ char ∈ line, isLineBreak char = false) ∧ EndsLine later.rest := by
  rw [comment, run_orElse_eq_ok_iff]
  constructor
  · rintro (isRead | ⟨_, isRead⟩)
    all_goals
      obtain ⟨mark, middle, isMark, isRead⟩ := run_bind_eq_ok_iff.1 isRead
      obtain ⟨line, last, isLine, isRead⟩ := run_bind_eq_ok_iff.1 isRead
      obtain ⟨rfl, rfl⟩ := run_pure_eq_ok_iff.1 isRead
      obtain ⟨readsLine, inLine, ends⟩ := run_lineRest_eq_ok_iff.1 isLine
    · obtain ⟨rfl, readsMark⟩ := run_char_eq_ok_iff.1 isMark
      exact ⟨_, line, rfl, readsMark.append readsLine, .percent, inLine, ends⟩
    · obtain ⟨rfl, readsMark⟩ := run_text_eq_ok_iff.1 isMark
      exact ⟨_, line, rfl, readsMark.append readsLine, .slashes, inLine, ends⟩
  · rintro ⟨mark, line, rfl, reads, isMark, inLine, ends⟩
    obtain ⟨middle, readsMark, readsLine⟩ := reads.exists_of_append
    have isLine : lineRest.run middle = .ok (line, later) :=
      run_lineRest_eq_ok_iff.2 ⟨readsLine, inLine, ends⟩
    cases isMark with
    | percent =>
        refine .inl (run_bind_eq_ok_iff.2 ⟨_, middle, run_char_eq_ok_iff.2 ⟨rfl, readsMark⟩, ?_⟩)
        exact run_bind_eq_ok_iff.2 ⟨line, later, isLine, rfl⟩
    | slashes =>
        refine .inr ⟨refuses_bind_iff.2 (.inl (refuses_char_iff.2 ?_)), ?_⟩
        · rw [readsMark.rest]
          simp
        · refine run_bind_eq_ok_iff.2 ⟨_, middle, run_text_eq_ok_iff.2 ⟨rfl, readsMark⟩, ?_⟩
          exact run_bind_eq_ok_iff.2 ⟨line, later, isLine, rfl⟩

/-- Blanks or a comment are read from some characters. -/
theorem advances_blanks_or_comment : Advances (orElse blanks comment) := by
  intro cursor chars later isRead
  rcases run_orElse_eq_ok_iff.1 isRead with areBlanks | ⟨_, isComment⟩
  · obtain ⟨nonempty, areRead⟩ := run_someChars_eq_ok_iff.1 areBlanks
    exact length_lt_of_reads (run_charsWhile_eq_ok_iff.1 areRead).1 nonempty
  · obtain ⟨mark, line, rfl, reads, isMark, _⟩ := run_comment_eq_ok_iff.1 isComment
    exact length_lt_of_reads reads (by cases isMark <;> simp)

/-- What stands between lexemes never fails for good. -/
theorem recoverable_blanks_or_comment : Recoverable (orElse blanks comment) := by
  have recoverableLineRest : Recoverable lineRest := by
    refine recoverable_here_bind fun cursor => ?_
    dsimp only
    split
    · exact recoverable_consume _
    · exact recoverable_fail _
    · exact recoverable_consume _
  refine (recoverable_someChars _).orElse (.orElse ?_ ?_)
  · exact (recoverable_char _).bind fun _ => recoverableLineRest.bind fun _ => recoverable_pure _
  · exact (recoverable_text _).bind fun _ => recoverableLineRest.bind fun _ => recoverable_pure _

/-- A gap is never missing. -/
theorem exists_run_gap (cursor : Cursor) : ∃ later, gap.run cursor = .ok ((), later) := by
  obtain ⟨items, later, isRead⟩ := recoverable_blanks_or_comment.exists_run_many cursor
  exact ⟨later, run_bind_eq_ok_iff.2 ⟨items, later, isRead, rfl⟩⟩

/-- What is passed over in steps is a gap. -/
theorem exists_gap_of_repeats {items : List (List Char)}
    (repeats : Repeats (orElse blanks comment) cursor items later) :
    ∃ chars, Gap chars later.rest ∧ cursor.Reads chars later := by
  induction repeats with
  | nil cursor => exact ⟨[], .nil _, .nil cursor⟩
  | @cons cursor middle later item _ isRead _ inductionHypothesis =>
      obtain ⟨others, isGap, readsOthers⟩ := inductionHypothesis
      rcases run_orElse_eq_ok_iff.1 isRead with areBlanks | ⟨_, isComment⟩
      · obtain ⟨reads, areBlank, _⟩ :=
          run_charsWhile_eq_ok_iff.1 (run_someChars_eq_ok_iff.1 areBlanks).2
        exact ⟨item ++ others, (Gap.blanks areBlank _).append isGap, reads.append readsOthers⟩
      · obtain ⟨mark, line, rfl, reads, isMark, inLine, ends⟩ := run_comment_eq_ok_iff.1 isComment
        refine ⟨mark ++ line ++ others, .comment isMark inLine ?_ isGap, reads.append readsOthers⟩
        rwa [← readsOthers.rest]

/-- What has been passed over is a gap. -/
theorem exists_gap_of_run (isRead : gap.run cursor = .ok ((), later)) :
    ∃ chars, Gap chars later.rest ∧ cursor.Reads chars later := by
  obtain ⟨items, middle, areRead, isPure⟩ := run_bind_eq_ok_iff.1 isRead
  obtain ⟨_, rfl⟩ := run_pure_eq_ok_iff.1 isPure
  exact exists_gap_of_repeats (repeats_of_many areRead)

/-- Blanks are passed over up to something else. -/
theorem run_blanks (reads : cursor.Reads chars later) (nonempty : chars ≠ [])
    (areBlank : ∀ char ∈ chars, Text.isBlank char = true)
    (stops : ∀ next ∈ later.rest.head?, Text.isBlank next = false) :
    blanks.run cursor = .ok (chars, later) :=
  run_someChars_eq_ok_iff.2 ⟨nonempty, run_charsWhile_eq_ok_iff.2 ⟨reads, areBlank, stops⟩⟩

/-- A gap is passed over in steps. Blanks that follow each other are one step. -/
theorem exists_repeats_of_gap (isGap : Gap chars later.rest)
    (refused : Refuses (orElse blanks comment) later) (reads : cursor.Reads chars later) :
    ∃ items, Repeats (orElse blanks comment) cursor items later := by
  have noBlank := refuses_someChars_iff.1 (refuses_orElse_iff.1 refused).1
  generalize isAfter : later.rest = after at isGap
  induction isGap generalizing cursor with
  | nil =>
      obtain rfl := reads.eq_skip
      exact ⟨[], .nil _⟩
  | @blank char gap after isBlank _ inductionHypothesis =>
      obtain ⟨middle, readsBlank, readsOthers⟩ := reads.exists_of_cons
      have single (stops : ∀ next ∈ middle.rest.head?, Text.isBlank next = false) :
          (orElse blanks comment).run cursor = .ok ([char], middle) :=
        run_orElse_eq_ok_iff.2
          (.inl (run_blanks readsBlank (by simp) (by simpa using isBlank) stops))
      obtain ⟨items, repeats⟩ := inductionHypothesis readsOthers isAfter
      cases repeats with
      | nil => exact ⟨[[char]], .cons (single noBlank) (.nil _)⟩
      | @cons _ last _ item items isRead others =>
          rcases run_orElse_eq_ok_iff.1 isRead with areBlanks | ⟨refused, _⟩
          · obtain ⟨readsBlanks, areBlank, stops⟩ :=
              run_charsWhile_eq_ok_iff.1 (run_someChars_eq_ok_iff.1 areBlanks).2
            refine ⟨(char :: item) :: items, .cons (run_orElse_eq_ok_iff.2 (.inl ?_)) others⟩
            exact run_blanks (readsBlank.append readsBlanks) (by simp)
              (List.forall_mem_cons.2 ⟨isBlank, areBlank⟩) stops
          · exact ⟨[char] :: item :: items,
              .cons (single (refuses_someChars_iff.1 refused)) (.cons isRead others)⟩
  | @comment mark line gap after isMark inLine ends _ inductionHypothesis =>
      obtain ⟨middle, readsComment, readsOthers⟩ := reads.exists_of_append
      obtain ⟨items, repeats⟩ := inductionHypothesis readsOthers isAfter
      refine ⟨(mark ++ line) :: items, .cons (run_orElse_eq_ok_iff.2 (.inr ⟨?_, ?_⟩)) repeats⟩
      · rw [blanks, refuses_someChars_iff, readsComment.rest]
        cases isMark <;> simp [Text.isBlank]
      · refine run_comment_eq_ok_iff.2 ⟨mark, line, rfl, readsComment, isMark, inLine, ?_⟩
        rwa [readsOthers.rest, isAfter]

/-- Nothing that is solid is passed over. -/
theorem refuses_blanks_or_comment (isSolid : Solid cursor.rest) :
    Refuses (orElse blanks comment) cursor := by
  refine refuses_orElse_iff.2 ⟨refuses_someChars_iff.2 fun next isNext =>
    (isSolid next isNext).1, refuses_orElse_iff.2 ⟨?_, ?_⟩⟩
  · refine refuses_bind_iff.2 (.inl (refuses_char_iff.2 fun isPercent => ?_))
    exact (isSolid '%' isPercent).2.1 rfl
  · refine refuses_bind_iff.2 (.inl (refuses_text_iff.2 fun areSlashes => ?_))
    obtain ⟨rest, isRest⟩ := areSlashes
    exact (isSolid '/' (by simp [← isRest])).2.2 rfl

/-- A gap is passed over as a whole where it does not go on. -/
theorem run_gap_of_refuses (isGap : Gap chars later.rest) (reads : cursor.Reads chars later)
    (refused : Refuses (orElse blanks comment) later) : gap.run cursor = .ok ((), later) := by
  obtain ⟨items, repeats⟩ := exists_repeats_of_gap isGap refused reads
  exact run_bind_eq_ok_iff.2
    ⟨items, later, many_of_repeats advances_blanks_or_comment repeats refused, rfl⟩

/-- A gap is passed over as a whole in front of something solid. -/
theorem run_gap (isGap : Gap chars later.rest) (reads : cursor.Reads chars later)
    (isSolid : Solid later.rest) : gap.run cursor = .ok ((), later) :=
  run_gap_of_refuses isGap reads (refuses_blanks_or_comment isSolid)

/-- No gap goes on where one has been passed over. -/
theorem refuses_of_run_gap (isRead : gap.run cursor = .ok ((), later)) :
    Refuses (orElse blanks comment) later := by
  obtain ⟨items, middle, areRead, isPure⟩ := run_bind_eq_ok_iff.1 isRead
  obtain ⟨_, rfl⟩ := run_pure_eq_ok_iff.1 isPure
  exact recoverable_blanks_or_comment.refuses_of_many advances_blanks_or_comment areRead

/-- Passing over a gap from its beginning or from a place in it makes no difference. -/
theorem run_gap_eq_of_gap (isGap : Gap chars middle.rest) (reads : cursor.Reads chars middle) :
    gap.run cursor = gap.run middle := by
  obtain ⟨later, isRead⟩ := exists_run_gap middle
  obtain ⟨others, areOthers, readsOthers⟩ := exists_gap_of_run isRead
  rw [isRead]
  rw [readsOthers.rest] at isGap
  exact run_gap_of_refuses (isGap.append areOthers) (reads.append readsOthers)
    (refuses_of_run_gap isRead)

end Parser

end Datalog.Source
