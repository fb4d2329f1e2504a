import Datalog.Proofs.Source.Recovery
import Datalog.Proofs.Source.Translation

/-!
# Texts behind each other

A text that is parsed and ends with a line feed may be put in front of any other: the clauses
of both are read, or the malformed clauses of the second are reported as if it stood alone,
only further down (`parse_append`). The first text keeps its layout whatever follows it
(`Laid.followedBy`), its last gap cannot be told from that in front of the second, and the
second is read as anywhere else.
-/

namespace Datalog

/-- The same column some lines further down. -/
def Position.movedDown (lines : Nat) (position : Position) : Position :=
  { position with line := lines + position.line }

/-- The report of the same problem some lines further down. -/
def Malformation.movedDown (lines : Nat) (report : Malformation) : Malformation :=
  { report with position := report.position.movedDown lines }

/-- The same message some lines further down. -/
def Diagnostic.movedDown (lines : Nat) (diagnostic : Diagnostic) : Diagnostic :=
  { diagnostic with position := diagnostic.position.map (Position.movedDown lines) }

/-- Reports further down give the same messages further down. -/
theorem Error.diagnostics_movedDown (lines : Nat) (reports : List Malformation) :
    (malformed (reports.map (Malformation.movedDown lines))).diagnostics =
      (malformed reports).diagnostics.map (Diagnostic.movedDown lines) := by
  rw [diagnostics, diagnostics, List.map_map, List.map_map]
  rfl

namespace Position

variable {lines : Nat} {position : Position}

/-- A character leads on from a line further down as it does from another. -/
theorem advance_movedDown (char : Char) :
    (position.movedDown lines).advance char = (position.advance char).movedDown lines := by
  unfold advance
  split <;> rfl

/-- A text leads on from a line further down as it does from another. -/
theorem foldl_advance_movedDown (text : List Char) :
    text.foldl advance (position.movedDown lines) =
      (text.foldl advance position).movedDown lines := by
  induction text generalizing position with
  | nil => rfl
  | cons char text inductionHypothesis =>
      rw [List.foldl_cons, List.foldl_cons, advance_movedDown, inductionHypothesis]

/-- An offset is located from a line further down as it is from another. -/
theorem locateFrom?_movedDown (text : List Char) (offset : Nat) :
    locateFrom? (position.movedDown lines) text offset =
      (locateFrom? position text offset).map (movedDown lines) := by
  induction text generalizing position offset with
  | nil => rfl
  | cons char text inductionHypothesis =>
      rw [locateFrom?, locateFrom?, advance_movedDown]
      split
      next => rfl
      split
      next => rfl
      next => exact inductionHypothesis _

/-- Each line feed leads one line further down. -/
theorem line_foldl_advance (text : List Char) :
    (text.foldl advance position).line = text.count '\n' + position.line := by
  induction text generalizing position with
  | nil => exact (Nat.zero_add _).symm
  | cons char text inductionHypothesis =>
      rw [List.foldl_cons, inductionHypothesis, List.count_cons, Nat.add_assoc, advance]
      by_cases isLineFeed : char = '\n'
      · rw [if_pos isLineFeed, if_pos (beq_iff_eq.2 isLineFeed), Nat.add_comm 1]
      · rw [if_neg isLineFeed, if_neg (mt beq_iff_eq.1 isLineFeed), Nat.zero_add]

/-- Behind a line feed a new line begins. -/
theorem after_of_getLast? {text : List Char} (endsLine : text.getLast? = some '\n') :
    after text = start.movedDown (text.count '\n') := by
  have isLine := @line_foldl_advance start text
  obtain ⟨before, rfl⟩ := List.getLast?_eq_some_iff.1 endsLine
  rw [List.foldl_append] at isLine
  rw [after, List.foldl_append]
  exact congrArg (Position.mk · 1) isLine

/-- Offsets in a text behind whole lines are located as in the text alone, further down. -/
theorem locate_append {first second : String} (endsLine : first.toList.getLast? = some '\n')
    (offset : Nat) :
    locate (first ++ second) (first.utf8ByteSize + offset) =
      (locate second offset).movedDown (first.toList.count '\n') := by
  have isSize : first.utf8ByteSize = (first.toList.map Char.utf8Size).sum :=
    Source.utf8ByteSize_eq_textSize first
  have isAfter : after (first.toList ++ second.toList) =
      (after second.toList).movedDown (first.toList.count '\n') := by
    rw [after_append, after_of_getLast? endsLine, foldl_advance_movedDown]
    rfl
  rw [locate, locate, String.toList_append, isSize, locateFrom?_append_add, isAfter]
  change (locateFrom? (after first.toList) _ _).getD _ = _
  rw [after_of_getLast? endsLine, locateFrom?_movedDown]
  cases locateFrom? start second.toList offset <;> rfl

end Position

namespace Source

/-- A place in the text that goes on with other characters. -/
def Cursor.followedBy (cursor : Cursor) (text : List Char) : Cursor :=
  { cursor with rest := cursor.rest ++ text }

section Layout

variable {cursor later : Cursor} {chars rest gap after : List Char}

/-- Characters are read whatever the text goes on with. -/
theorem Cursor.Reads.followedBy (reads : cursor.Reads chars later) (text : List Char) :
    (cursor.followedBy text).Reads chars (later.followedBy text) where
  rest := by rw [Cursor.followedBy, reads.rest, List.append_assoc]; rfl
  offset := reads.offset

/-- A line ends whatever the text goes on with, unless it ends with the text. -/
theorem EndsLine.append (ends : EndsLine rest) (nonempty : rest ≠ []) (text : List Char) :
    EndsLine (rest ++ text) := by
  cases ends with
  | endOfText => exact absurd rfl nonempty
  | lineFeed rest => exact .lineFeed (rest ++ text)
  | carriageReturn rest => exact .carriageReturn (rest ++ text)

/-- A gap stays one whatever the text goes on with. At the end of the text its last comment
must have ended with its line. -/
theorem Gap.followedBy (isGap : Gap gap after)
    (endsLine : after = [] → ∀ last ∈ gap.getLast?, last = '\n') (text : List Char) :
    Gap gap (after ++ text) := by
  induction isGap with
  | nil => exact .nil _
  | @blank char gap after isBlank _ inductionHypothesis =>
      refine .blank isBlank (inductionHypothesis fun atEnd last isLast => ?_)
      refine endsLine atEnd last ?_
      rw [List.getLast?_cons, Option.mem_def.1 isLast]
      rfl
  | @comment mark line gap after isMark inLine ends _ inductionHypothesis =>
      have endsLineToo : after = [] → ∀ last ∈ gap.getLast?, last = '\n' := by
        intro atEnd last isLast
        refine endsLine atEnd last ?_
        rw [List.getLast?_append, Option.mem_def.1 isLast]
        rfl
      refine .comment isMark inLine ?_ (inductionHypothesis endsLineToo)
      rw [← List.append_assoc]
      refine ends.append (fun isEmpty => ?_) text
      -- The comment would be last, but it does not contain the line feed at the end.
      obtain ⟨rfl, rfl⟩ := List.append_eq_nil_iff.1 isEmpty
      rw [List.append_nil] at endsLine
      have nonempty : mark ++ line ≠ [] := by cases isMark <;> simp
      have member := List.getLast_mem nonempty
      rw [endsLine rfl _ (List.getLast?_eq_some_getLast nonempty)] at member
      rcases List.mem_append.1 member with inMark | inComment
      · cases isMark <;> simp at inMark
      · exact absurd (inLine _ inComment) (by decide)

/-- A text that is not over begins with a blank whatever it goes on with. -/
theorem beginsBlank_append_iff (nonempty : rest ≠ []) (text : List Char) :
    BeginsBlank (rest ++ text) ↔ BeginsBlank rest := by
  obtain ⟨first, others, rfl⟩ := List.exists_cons_of_ne_nil nonempty
  exact Iff.rfl

/-- A piece fits whatever the text goes on with, if the text is not over behind it. -/
theorem Piece.Fits.followedBy {piece : Piece} {start next : Cursor} (fits : piece.Fits start next)
    (nonempty : next.rest ≠ []) (text : List Char) :
    piece.Fits (start.followedBy text) (next.followedBy text) := by
  cases piece with
  | token found => exact fits
  | leading found => exact ⟨fits.1, fun isNot => mt (beginsBlank_append_iff nonempty text).1
      (fits.2 isNot)⟩
  | mark chars => trivial
  | negation => exact (beginsBlank_append_iff nonempty text).2 fits

/-- A layout stays one whatever the text goes on with, if the text is not over behind it. -/
theorem Laid.followedBy {last : Cursor} {pieces : List Piece} (laid : Laid cursor pieces last)
    (areSolid : ∀ piece ∈ pieces, piece.IsSolid) (nonempty : last.rest ≠ []) (text : List Char) :
    Laid (cursor.followedBy text) pieces (last.followedBy text) := by
  induction laid with
  | nil => exact .nil _
  | @cons cursor start next last gap piece pieces isGap readsGap reads fits laid
      inductionHypothesis =>
      obtain ⟨isSolid, areSolid⟩ := List.forall_mem_cons.1 areSolid
      have startNonempty : start.rest ≠ [] := by
        rw [reads.rest]
        exact List.append_ne_nil_of_left_ne_nil isSolid.nonempty _
      have nextNonempty : next.rest ≠ [] := fun isEmpty => by
        have atMost := laid.length_le
        rw [isEmpty] at atMost
        exact nonempty (List.eq_nil_of_length_eq_zero (Nat.le_zero.1 atMost))
      refine .cons (isGap.followedBy (fun atEnd => absurd atEnd startNonempty) text)
        (readsGap.followedBy text) (reads.followedBy text) (fits.followedBy nextNonempty text) ?_
      exact inductionHypothesis areSolid nonempty

/-- A layout is of the characters up to its end. -/
theorem Laid.exists_reads {last : Cursor} {pieces : List Piece} (laid : Laid cursor pieces last) :
    ∃ chars, cursor.Reads chars last := by
  induction laid with
  | nil cursor => exact ⟨[], .nil cursor⟩
  | cons _ readsGap reads _ _ inductionHypothesis =>
      obtain ⟨chars, readsOthers⟩ := inductionHypothesis
      exact ⟨_, (readsGap.append reads).append readsOthers⟩

/-- A text that is laid out as clauses and ends with a line feed ends with a gap that does. -/
theorem Laid.getLast?_rest {last : Cursor} {clauses : List Clause}
    (laid : Laid cursor (clauses.flatMap Clause.pieces) last)
    (endsLine : cursor.rest.getLast? = some '\n') : last.rest.getLast? = some '\n' := by
  cases isRest : last.rest with
  | nil =>
      rcases clauses.eq_nil_or_concat with rfl | ⟨before, clause, rfl⟩
      · cases laid
        rw [isRest] at endsLine
        cases endsLine
      · -- The last character would be a full stop.
        obtain ⟨pieces, isLast⟩ := clause.exists_pieces_eq
        rw [List.concat_eq_append, List.flatMap_append, List.flatMap_singleton, isLast,
          ← List.append_assoc] at laid
        obtain ⟨middle, laidOthers, laidStop⟩ := laid.exists_of_append
        obtain ⟨chars, reads⟩ := laidOthers.exists_reads
        obtain _ | ⟨_, readsGap, readsStop, _, ⟨⟩⟩ := laidStop
        rw [reads.rest, readsGap.rest, readsStop.rest, isRest, Piece.chars] at endsLine
        simp at endsLine
  | cons first others =>
      obtain ⟨chars, reads⟩ := laid.exists_reads
      rw [reads.rest, isRest, List.getLast?_append_cons] at endsLine
      exact endsLine

end Layout

section Reading

/-- Passing over a malformed clause takes a character, if there is one. -/
theorem length_skipClause_le (inString escaped : Bool) (rest : List Char) (offset : Nat) :
    (skipClause inString escaped rest offset).rest.length ≤ rest.length - 1 := by
  induction rest generalizing inString escaped offset with
  | nil => exact Nat.le_refl _
  | cons char rest inductionHypothesis =>
      have shorter (inString escaped : Bool) :
          (skipClause inString escaped rest (offset + char.utf8Size)).rest.length ≤ rest.length :=
        (inductionHypothesis ..).trans (Nat.sub_le _ _)
      rw [skipClause]
      split
      next => exact shorter ..
      split
      next => exact shorter ..
      split
      next => exact shorter ..
      split
      next => exact Nat.le_refl _
      next => exact shorter ..

/-- At the end of the text nothing is read. -/
theorem readClauses_atEnd {bound : List Char} {cursor : Cursor}
    (atEnd : cursor.rest.length ≤ 0) : readClauses bound cursor = [] := by
  have isNil := List.eq_nil_of_length_eq_zero (Nat.le_zero.1 atEnd)
  exact readClauses_of_gap (isNil ▸ .nil [])

/-- All bounds that leave enough characters give the same clauses. -/
theorem readClauses_congr {bound other : List Char} {cursor : Cursor}
    (enough : cursor.rest.length ≤ bound.length) (enoughToo : cursor.rest.length ≤ other.length) :
    readClauses bound cursor = readClauses other cursor := by
  induction bound generalizing other cursor with
  | nil => rw [readClauses_atEnd enough, readClauses_atEnd enough]
  | cons char bound inductionHypothesis =>
      cases other with
      | nil => rw [readClauses_atEnd enoughToo, readClauses_atEnd enoughToo]
      | cons next other =>
          obtain ⟨start, isGapRead⟩ := Parser.exists_run_gap cursor
          obtain ⟨gap, _, readsGap⟩ := Parser.exists_gap_of_run isGapRead
          rw [readsGap.rest, List.length_append, List.length_cons] at enough enoughToo
          rw [readClauses, readClauses, isGapRead]
          dsimp only
          split
          next => rfl
          next noEnd =>
            have positive : 0 < start.rest.length :=
              List.length_pos_iff.2 (mt List.isEmpty_iff.2 noEnd)
            split
            next clause later isRead =>
              have fewer := length_lt_of_run_clause isRead
              exact congrArg _ (inductionHypothesis (by omega) (by omega))
            next =>
              have fewer : start.skipClause.rest.length ≤ start.rest.length - 1 :=
                length_skipClause_le false false start.rest start.offset
              exact congrArg _ (inductionHypothesis (by omega) (by omega))

/-- Clauses are read from the beginning of a gap as from a place in it. -/
theorem readClauses_eq_of_gap {bound gap : List Char} {cursor middle : Cursor}
    (nonempty : bound ≠ []) (isGap : Gap gap middle.rest) (reads : cursor.Reads gap middle) :
    readClauses bound cursor = readClauses bound middle := by
  obtain ⟨char, bound, rfl⟩ := List.exists_cons_of_ne_nil nonempty
  rw [readClauses, readClauses, Parser.run_gap_eq_of_gap isGap reads]

/-- A cursor and what is left to read behind it make up the size of the source. -/
theorem Cursor.Reads.offset_add_eq {source : String} {chars : List Char} {later : Cursor}
    (reads : (Cursor.start source).Reads chars later) :
    later.offset + textSize later.rest = source.utf8ByteSize := by
  have isText : source.toList = chars ++ later.rest := reads.rest
  have isOffset : later.offset = 0 + textSize chars := reads.offset
  rw [utf8ByteSize_eq_textSize, isText, textSize_append, isOffset, Nat.zero_add]

/-- A text that begins with a gap begins with no digit. -/
theorem Gap.endsDigits_append {gap after : List Char} (isGap : Gap gap after)
    (nonempty : gap ≠ []) : EndsDigits (gap ++ after) := by
  obtain ⟨char, others, rfl⟩ := List.exists_cons_of_ne_nil nonempty
  exact isGap.endsDigits

variable {first second : String} {clauses : List Clause}

/-- The clauses of a text that ends with a line feed are laid out in front of any other text,
and between them is a gap. -/
theorem exists_laid_append (isParsed : parse first = .ok clauses)
    (endsLine : first.toList.getLast? = some '\n') (second : String) :
    (∀ clause ∈ clauses, clause.WellFormed) ∧ ∃ last gap,
      Laid (.start (first ++ second)) (clauses.flatMap Clause.pieces) last ∧
        gap ≠ [] ∧ Gap gap second.toList ∧
          last.Reads gap ((Cursor.start second).movedBy first.utf8ByteSize) := by
  obtain ⟨wellFormed, last, laid, isGap⟩ := laid_of_parse isParsed
  have lastEndsLine := laid.getLast?_rest endsLine
  have nonempty : last.rest ≠ [] := fun isEmpty => by
    rw [isEmpty] at lastEndsLine
    cases lastEndsLine
  have isStart : (Cursor.start first).followedBy second.toList = .start (first ++ second) :=
    congrArg (Cursor.mk · 0) String.toList_append.symm
  have laidBoth := laid.followedBy (isSolid_clauses wellFormed) nonempty second.toList
  rw [isStart] at laidBoth
  refine ⟨wellFormed, _, last.rest, laidBoth, nonempty, ?_, rfl, ?_⟩
  · -- The last line of the gap has ended, so a comment in it does not reach the other text.
    exact isGap.followedBy
      (fun _ char isLast => Option.some.inj (isLast.symm.trans lastEndsLine)) _
  · obtain ⟨chars, reads⟩ := laid.exists_reads
    exact reads.offset_add_eq.symm

/-- Behind the clauses of a text that ends with a line feed the next text is read as if it
stood alone. -/
theorem readClauses_append (isParsed : parse first = .ok clauses)
    (endsLine : first.toList.getLast? = some '\n') :
    readClauses (Cursor.start (first ++ second)).rest (.start (first ++ second)) =
      clauses.map .ok ++ (readClauses (Cursor.start second).rest (.start second)).map
        (movedOutcome first.utf8ByteSize) := by
  obtain ⟨wellFormed, last, gap, laid, nonempty, isGap, readsGap⟩ :=
    exists_laid_append isParsed endsLine second
  have isRest : last.rest = gap ++ second.toList := readsGap.rest
  have ends : EndsDigits last.rest := isRest ▸ isGap.endsDigits_append nonempty
  obtain ⟨bound, enough, areRead⟩ :=
    exists_readClauses_eq_append (Nat.le_refl _) wellFormed laid ends
  rw [isRest, List.length_append] at enough
  have positive := List.length_pos_iff.2 nonempty
  have boundNonempty : bound ≠ [] := List.length_pos_iff.1 (by omega)
  have enoughSecond : (Cursor.start second).rest.length ≤ bound.length :=
    (Nat.le_add_left _ _).trans enough
  rw [areRead, readClauses_eq_of_gap boundNonempty isGap readsGap, readClauses_movedBy,
    readClauses_congr enoughSecond (Nat.le_refl _)]

/-- A failure in a text behind whole lines is reported as in the text alone, further down. -/
theorem Failure.report_movedBy (endsLine : first.toList.getLast? = some '\n')
    (failure : Failure) :
    (failure.movedBy first.utf8ByteSize).report (first ++ second) =
      (failure.report second).movedDown (first.toList.count '\n') := by
  rw [report, report]
  dsimp only [movedBy]
  rw [Cursor.rest_movedBy, Cursor.skip_movedBy]
  exact congrArg (Malformation.mk · _ _ _) (Position.locate_append endsLine _)

/-- What becomes of a clause in a text behind whole lines is reported further down. -/
theorem malformation?_movedOutcome (endsLine : first.toList.getLast? = some '\n')
    (outcome : Except Failure Clause) :
    malformation? (first ++ second) (movedOutcome first.utf8ByteSize outcome) =
      (malformation? second outcome).map (Malformation.movedDown (first.toList.count '\n')) := by
  cases outcome with
  | ok clause => rfl
  | error failure => exact congrArg some (failure.report_movedBy endsLine)

/-- A clause that is read further on is the same with its tokens further on. -/
theorem toOption_movedOutcome (size : Nat) (outcome : Except Failure Clause) :
    (movedOutcome size outcome).toOption = outcome.toOption.map (Clause.movedBy size) := by
  cases outcome <;> rfl

/-- What is found in mapped elements is what is found in the elements, mapped. -/
theorem filterMap_map_eq {α β γ δ : Type} {mapElement : α → β} {find? : β → Option γ}
    {findFirst? : α → Option δ} {mapFound : δ → γ}
    (commutes : ∀ element, find? (mapElement element) = (findFirst? element).map mapFound)
    (elements : List α) :
    (elements.map mapElement).filterMap find? = (elements.filterMap findFirst?).map mapFound := by
  rw [List.filterMap_map, List.map_filterMap]
  exact List.filterMap_congr fun element _ => commutes element

end Reading

/-- What is parsed from a text alone, and what from the same text behind another one that is
parsed: its clauses with their tokens further on, behind those of the other text, or the same
diagnostics further down. -/
inductive ParsedBehind (first : String) (clauses : List Clause) :
    (alone behind : Except Error (List Clause)) → Prop where
  | parsed (others : List Clause) : ParsedBehind first clauses (.ok others)
      (.ok (clauses ++ others.map (Clause.movedBy first.utf8ByteSize)))
  | malformed {reports reportsBehind : List Malformation}
      (diagnostics : (Error.malformed reportsBehind).diagnostics =
        (Error.malformed reports).diagnostics.map
          (Diagnostic.movedDown (first.toList.count '\n'))) :
      ParsedBehind first clauses (.error (.malformed reports)) (.error (.malformed reportsBehind))

/-- A text behind one that is parsed and ends with a line feed is parsed as if it stood alone,
or its malformed clauses are reported as if it did. -/
theorem parse_append {first : String} {clauses : List Clause}
    (isParsed : parse first = .ok clauses) (endsLine : first.toList.getLast? = some '\n')
    (second : String) : ParsedBehind first clauses (parse second) (parse (first ++ second)) := by
  have both := parse_eq (first ++ second)
  have alone := parse_eq second
  dsimp only at both alone
  rw [readClauses_append isParsed endsLine] at both
  generalize readClauses (Cursor.start second).rest (.start second) = outcomes at both alone
  have noReports : (clauses.map Except.ok).filterMap (malformation? (first ++ second)) = [] := by
    rw [List.filterMap_map]
    exact List.filterMap_eq_nil_iff.2 fun _ _ => rfl
  have ownClauses : (clauses.map (@Except.ok Failure Clause)).filterMap Except.toOption =
      clauses := by
    rw [List.filterMap_map]
    exact List.filterMap_some
  rw [List.filterMap_append, noReports, List.nil_append, List.filterMap_append, ownClauses,
    filterMap_map_eq (malformation?_movedOutcome endsLine),
    filterMap_map_eq (toOption_movedOutcome first.utf8ByteSize), List.isEmpty_map] at both
  rw [both, alone]
  split
  next => exact .parsed _
  next => exact .malformed (Error.diagnostics_movedDown _ _)

/-- A fact and a comment in front of a clause and of the beginning of another. -/
theorem parsedBehind_comment :
    let first := "p(\"a.\"). % 1. \"é\n"
    let second := "% q\n q(2). r(3"
    let clauses : List Clause :=
      [.fact ⟨⟨"p", 0⟩, .ordered [.literal ⟨"\"a.\"", 2⟩ (.string "a.")]⟩]
    parse first = .ok clauses ∧ first.toList.getLast? = some '\n' ∧
      ParsedBehind first clauses (parse second) (parse (first ++ second)) := by
  intro first second clauses
  have isParsed : parse first = .ok clauses := by decide +kernel
  have endsLine : first.toList.getLast? = some '\n' := by decide +kernel
  exact ⟨isParsed, endsLine, parse_append isParsed endsLine second⟩

end Source

end Datalog
