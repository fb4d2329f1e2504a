import Datalog.Proofs.Source.Completeness
import Datalog.Proofs.Source.Failures

/-!
# Every malformed clause is reported

A source is cut behind each full stop that ends a clause (`Cut`). What stands between two cuts
is a clause, or it is malformed; a source is parsed if all of it is clauses
(`exists_parse_eq_ok_iff`). Otherwise there is one report for each malformed stretch, in their
order and about a place within it (`Reported`), if the comments of malformed stretches are
quiet (`reported_parse`, `exists_cut_reported`). A quotation mark in such a comment can hide
the reports of what follows (`exists_malformed_unreported`).
-/

namespace Datalog.Source

namespace Cursor

/-- The cursor behind the stretch of a source that begins here: behind the full stop that ends
the clause, or at the end of the text if none does. -/
def behindClause (cursor : Cursor) : Cursor :=
  cursor.clauseEnd?.getD (cursor.skip cursor.rest)

/-- A stretch is a clause if the pieces of a well-formed one are laid out in it. -/
def IsClause (cursor : Cursor) : Prop :=
  ∃ clause : Clause, clause.WellFormed ∧ Laid cursor clause.pieces cursor.behindClause

/-- Comments of a stretch are quiet, but for those in the gap in front of it. -/
def IsQuiet (cursor : Cursor) : Prop :=
  ∀ ⦃start⦄, Parser.gap.run cursor = .ok ((), start) → Quiet .clause start.rest

/-- A place belongs to a stretch if it is in front of one of its characters, or else at the
end of the text. -/
def Contains (cursor place : Cursor) : Prop :=
  ∃ before after, cursor.Reads before place ∧ place.Reads after cursor.behindClause ∧
    (after = [] → place.rest = [])

end Cursor

/-- A report is about a place of a stretch: it tells its line and column, and its character. -/
def IsAbout (source : String) (report : Malformation) (cursor : Cursor) : Prop :=
  ∃ before place, (Cursor.start source).Reads before place ∧ cursor.Contains place ∧
    report.position = .after before ∧ report.found = place.rest.head?

/-- The stretches into which a text is cut, by the cursors where they begin. What follows the
last clause is no stretch if it is a gap. -/
inductive Cut : Cursor → List Cursor → Prop where
  | gap {cursor : Cursor} (isGap : Gap cursor.rest []) : Cut cursor []
  | stretch {cursor : Cursor} {others : List Cursor} (noGap : ¬ Gap cursor.rest [])
      (isCut : Cut cursor.behindClause others) : Cut cursor (cursor :: others)

/-- One report for each malformed stretch, in their order, and none for a clause. -/
inductive Reported (source : String) : List Cursor → List Malformation → Prop where
  | nil : Reported source [] []
  | clause {cursor : Cursor} {stretches : List Cursor} {reports : List Malformation}
      (isClause : cursor.IsClause) (others : Reported source stretches reports) :
      Reported source (cursor :: stretches) reports
  | malformed {cursor : Cursor} {stretches : List Cursor} {report : Malformation}
      {reports : List Malformation} (noClause : ¬ cursor.IsClause)
      (isAbout : IsAbout source report cursor) (others : Reported source stretches reports) :
      Reported source (cursor :: stretches) (report :: reports)

section Stretch

variable {cursor start place later : Cursor} {region : Region}

/-- From wherever the clause leads to, the stretch ends at the same place. -/
theorem Cursor.Leads.behindClause (leads : cursor.Leads place region) :
    (Source.clauseEnd? region place.rest place.offset).getD (place.skip place.rest) =
      cursor.behindClause := by
  have sameEnd : cursor.skip cursor.rest = place.skip place.rest := by
    obtain ⟨chars, reads, _⟩ := leads
    rw [Cursor.skip, Cursor.skip, List.drop_length, List.drop_length, reads.offset, reads.rest,
      textSize_append, Nat.add_assoc]
  rw [Cursor.behindClause, leads.clauseEnd?, sameEnd]

/-- Places that the clause leads to belong to the stretch. -/
theorem Cursor.Leads.contains (leads : cursor.Leads place region) : cursor.Contains place := by
  have ends := leads.behindClause
  obtain ⟨before, reads, _⟩ := leads
  cases isEnd : Source.clauseEnd? region place.rest place.offset with
  | some stop =>
      obtain ⟨after, nonempty, readsAfter, _⟩ := exists_reads_of_clauseEnd? isEnd
      rw [isEnd, Option.getD_some] at ends
      exact ⟨before, after, reads, ends ▸ readsAfter, fun isNone => absurd isNone nonempty⟩
  | none =>
      rw [isEnd, Option.getD_none] at ends
      exact ⟨before, place.rest, reads, ends ▸ .skip (List.prefix_refl _), id⟩

/-- No digit stands behind a stretch. -/
theorem endsDigits_behindClause (cursor : Cursor) : EndsDigits cursor.behindClause.rest := by
  rw [Cursor.behindClause]
  cases isEnd : cursor.clauseEnd? with
  | some stop =>
      obtain ⟨_, _, _, endsDigits⟩ := exists_reads_of_clauseEnd? isEnd
      exact endsDigits
  | none =>
      rw [Option.getD_none, Cursor.skip, List.drop_length]
      exact fun next isNext => by cases isNext

/-- White space does not end a clause. -/
theorem exists_scans_whiteSpace {space after : List Char}
    (areWhiteSpace : ∀ char ∈ space, Text.isWhiteSpace char = true) :
    ∃ later, Scans region space after later := by
  induction space generalizing region with
  | nil => exact ⟨region, .nil region after⟩
  | cons char space inductionHypothesis =>
      obtain ⟨isWhiteSpace, areWhiteSpace⟩ := List.forall_mem_cons.1 areWhiteSpace
      obtain ⟨later, scans⟩ := inductionHypothesis areWhiteSpace
      refine ⟨later, .cons (fun stops => ?_) scans⟩
      rw [stops.2.1] at isWhiteSpace
      exact absurd isWhiteSpace (by decide)

/-- The offset of a place is located right behind the text before the place. -/
theorem locate_of_reads {source : String} {before : List Char}
    (reads : (Cursor.start source).Reads before place) :
    Position.locate source place.offset = .after before := by
  have isSource : source.toList = before ++ place.rest := reads.rest
  have isOffset : place.offset = 0 + (before.map Char.utf8Size).sum := reads.offset
  rw [Position.locate, isSource, isOffset, Nat.zero_add, Position.locateFrom?_append,
    Option.getD_some, Position.after]

/-- The report of a failure that the clause leads to is about the stretch. -/
theorem isAbout_report {source : String} {before : List Char} {failure : Failure}
    (reads : (Cursor.start source).Reads before cursor)
    (leads : cursor.Leads failure.place region) :
    IsAbout source (failure.report source) cursor := by
  obtain ⟨chars, readsPlace, scans⟩ := leads
  generalize isSpace : failure.place.rest.takeWhile Text.isWhiteSpace = space
  obtain ⟨after, isRest, areWhiteSpace, _⟩ := Parser.takeWhile_eq_iff.1 isSpace
  have readsSpace : failure.place.Reads space (failure.place.skip space) :=
    .skip ⟨after, isRest.symm⟩
  obtain ⟨later, scansSpace⟩ := exists_scans_whiteSpace areWhiteSpace
  rw [readsSpace.rest] at scans
  have leadsOn : cursor.Leads (failure.place.skip space) later :=
    ⟨chars ++ space, readsPlace.append readsSpace, scans.append scansSpace⟩
  have readsAll := reads.append (readsPlace.append readsSpace)
  refine ⟨_, _, readsAll, leadsOn.contains, ?_, ?_⟩
  · rw [Failure.report, isSpace]
    exact locate_of_reads readsAll
  · rw [Failure.report, isSpace]

/-- A stretch is a clause if one is read behind the gap in front of it and ends with it. -/
theorem isClause_iff (isGap : Parser.gap.run cursor = .ok ((), start)) :
    cursor.IsClause ↔ ∃ clause, Parser.clause.run start = .ok (clause, cursor.behindClause) := by
  constructor
  · rintro ⟨clause, wellFormed, laid⟩
    obtain ⟨relation, pieces, isName, isFirst⟩ := wellFormed.exists_pieces_eq
    refine ⟨clause, Parser.readsBack_clause wellFormed ?_ (endsDigits_behindClause cursor)⟩
    rw [isFirst] at laid ⊢
    obtain ⟨first, next, isGapRead, reads, fits, laid⟩ :=
      laid.exists_start ⟨isName.solid.1, isName.solid.2⟩
    rw [isGap] at isGapRead
    cases isGapRead
    exact .cons (.nil _) (.nil _) reads fits laid
  · rintro ⟨clause, isRead⟩
    obtain ⟨wellFormed, laid⟩ := Parser.laysOut_clause isRead
    obtain ⟨chars, isGap, reads⟩ := Parser.exists_gap_of_run isGap
    obtain ⟨relation, pieces, _, isFirst⟩ := wellFormed.exists_pieces_eq
    refine ⟨clause, wellFormed, ?_⟩
    rw [isFirst] at laid ⊢
    exact Parser.laid_of_reads reads isGap laid

/-- A stretch is malformed if no clause is read behind the gap in front of it. -/
theorem not_isClause (isGap : Parser.gap.run cursor = .ok ((), start))
    (noClause : (Parser.clause.run start).toOption = none) : ¬ cursor.IsClause := by
  rw [isClause_iff isGap]
  rintro ⟨clause, isRead⟩
  rw [isRead] at noClause
  cases noClause

/-- A text is a gap if it is passed over as a whole. -/
theorem isGap_iff (isRead : Parser.gap.run cursor = .ok ((), start)) :
    Gap cursor.rest [] ↔ start.rest = [] := by
  constructor
  · intro isGap
    obtain ⟨later, isReadToo, atEnd⟩ := exists_run_gap_of_end isGap
    rw [isRead] at isReadToo
    cases isReadToo
    exact atEnd
  · intro atEnd
    obtain ⟨chars, isGap, reads⟩ := Parser.exists_gap_of_run isRead
    rw [reads.rest, atEnd, List.append_nil]
    exact atEnd ▸ isGap

/-- A clause that is read ends its stretch, unless a digit follows. -/
theorem behindClause_of_run_clause {clause : Clause} (leads : cursor.Leads start .clause)
    (isRead : Parser.clause.run start = .ok (clause, later)) (endsDigits : EndsDigits later.rest) :
    cursor.behindClause = later := by
  obtain ⟨stop, leadsStop, reads⟩ := Parser.exists_leads_of_run_clause isRead
  have ends := (leads.trans leadsStop).clauseEnd?
  rw [reads.rest, List.singleton_append, Source.clauseEnd?, if_pos ⟨rfl, rfl, endsDigits⟩] at ends
  rw [Cursor.behindClause, ends, Option.getD_some]
  obtain ⟨rest, offset⟩ := later
  exact congrArg (Cursor.mk rest) reads.offset.symm

/-- A clause that is read in front of a digit leads on in its stretch. -/
theorem leads_of_run_clause {clause : Clause} (leads : cursor.Leads start .clause)
    (isRead : Parser.clause.run start = .ok (clause, later))
    (digit : ¬ EndsDigits later.rest) : cursor.Leads later .clause := by
  obtain ⟨stop, leadsStop, reads⟩ := Parser.exists_leads_of_run_clause isRead
  refine (leads.trans leadsStop).trans ⟨['.'], reads, ?_⟩
  exact .cons (fun stops => digit stops.2.2) (.nil .clause later.rest)

/-- A stretch takes the characters up to its end, and some if there are any. -/
theorem exists_reads_behindClause (cursor : Cursor) :
    ∃ chars, cursor.Reads chars cursor.behindClause ∧ (chars = [] → cursor.rest = []) := by
  obtain ⟨_, chars, _, reads, atEnd⟩ := (Cursor.Leads.refl cursor).contains
  exact ⟨chars, reads, atEnd⟩

/-- A stretch takes some of the text. -/
theorem length_behindClause_lt (nonempty : cursor.rest ≠ []) :
    cursor.behindClause.rest.length < cursor.rest.length := by
  obtain ⟨chars, reads, atEnd⟩ := exists_reads_behindClause cursor
  exact Parser.length_lt_of_reads reads (mt atEnd nonempty)

/-- What is about the rest of a stretch is about the stretch. -/
theorem IsAbout.of_leads {source : String} {report : Malformation}
    (isAbout : IsAbout source report place) (leads : cursor.Leads place .clause) :
    IsAbout source report cursor := by
  obtain ⟨before, found, reads, ⟨middle, after, readsFound, readsAfter, atEnd⟩, tells⟩ := isAbout
  have sameEnd : place.behindClause = cursor.behindClause := leads.behindClause
  obtain ⟨chars, readsPlace, _⟩ := leads
  rw [sameEnd] at readsAfter
  exact ⟨before, found, reads,
    ⟨chars ++ middle, after, readsPlace.append readsFound, readsAfter, atEnd⟩, tells⟩

/-- The one report of a malformed stretch may be about its rest behind a clause, in front of a
digit. -/
theorem Reported.of_leads {source : String} {stretches : List Cursor}
    {reports : List Malformation} (reported : Reported source (place :: stretches) reports)
    (noClause : ¬ cursor.IsClause) (leads : cursor.Leads place .clause)
    (digit : ¬ EndsDigits place.rest) : Reported source (cursor :: stretches) reports := by
  cases reported with
  | clause isClause _ =>
      obtain ⟨clause, wellFormed, laid⟩ := isClause
      rw [← List.append_nil clause.pieces] at laid
      exact absurd (wellFormed.endsDigits laid) digit
  | malformed _ isAbout others => exact .malformed noClause (isAbout.of_leads leads) others

end Stretch

/-- What becomes of a stretch, and the cursor from which to go on. A clause that is read in front
of a digit is only a part of its stretch, and what begins with the digit fails. -/
inductive Handled (cursor : Cursor) : Except Failure Clause → Cursor → Prop where
  | clause {clause : Clause} (isClause : cursor.IsClause) :
      Handled cursor (.ok clause) cursor.behindClause
  | failed {failure : Failure} {region : Region} {next : Cursor} (noClause : ¬ cursor.IsClause)
      (leads : cursor.Leads failure.place region)
      (isSkipped : cursor.IsQuiet → next = cursor.behindClause) :
      Handled cursor (.error failure) next
  | digit {clause : Clause} {next : Cursor} (noClause : ¬ cursor.IsClause)
      (leads : cursor.Leads next .clause) (digit : ¬ EndsDigits next.rest)
      (shorter : next.rest.length < cursor.rest.length) (quiet : cursor.IsQuiet → next.IsQuiet) :
      Handled cursor (.ok clause) next

/-- Each stretch is handled before the text behind it. -/
theorem exists_handled {cursor : Cursor} (noGap : ¬ Gap cursor.rest []) (char : Char)
    (bound : List Char) :
    ∃ outcome next, Handled cursor outcome next ∧
      readClauses (char :: bound) cursor = outcome :: readClauses bound next := by
  obtain ⟨start, isGapRead⟩ := Parser.exists_run_gap cursor
  have leads : cursor.Leads start .clause := Parser.confined_gap.leads isGapRead
  rw [isGap_iff isGapRead] at noGap
  rw [readClauses, isGapRead]
  dsimp only
  rw [if_neg (mt List.isEmpty_iff.1 noGap)]
  cases isRead : Parser.clause.run start with
  | error failure =>
      obtain ⟨region, leadsFailure⟩ := Parser.failsInside_clause isRead
      refine ⟨_, _, .failed ?_ (leads.trans leadsFailure) fun isQuiet => ?_, rfl⟩
      · exact not_isClause isGapRead (by rw [isRead]; rfl)
      · exact (Cursor.skipClause_eq (isQuiet isGapRead)).trans leads.behindClause
  | ok read =>
      obtain ⟨clause, next⟩ := read
      by_cases endsDigits : EndsDigits next.rest
      · obtain rfl := behindClause_of_run_clause leads isRead endsDigits
        exact ⟨_, _, .clause ((isClause_iff isGapRead).2 ⟨clause, isRead⟩), rfl⟩
      · have leadsNext := leads_of_run_clause (.refl start) isRead endsDigits
        refine ⟨_, _, .digit ?_ (leads.trans leadsNext) endsDigits ?_ fun isQuiet => ?_, rfl⟩
        · rw [isClause_iff isGapRead, isRead]
          rintro ⟨clause, same⟩
          cases same
          exact endsDigits (endsDigits_behindClause cursor)
        · obtain ⟨gap, _, readsGap⟩ := Parser.exists_gap_of_run isGapRead
          have shorter := length_lt_of_run_clause isRead
          rw [readsGap.rest, List.length_append]
          omega
        · intro later isGapRead'
          have leadsLater := leadsNext.trans (Parser.confined_gap.leads isGapRead')
          exact leadsLater.quiet (isQuiet isGapRead)

/-- The report of a clause, if it is malformed. -/
def malformation? (source : String) : Except Failure Clause → Option Malformation
  | .error failure => some (failure.report source)
  | .ok _ => none

/-- What becomes of the clauses of a source is reported. -/
theorem parse_eq (source : String) :
    let outcomes := readClauses (Cursor.start source).rest (.start source)
    let reports := outcomes.filterMap (malformation? source)
    parse source =
      if reports.isEmpty then .ok (outcomes.filterMap Except.toOption)
      else .error (.malformed reports) :=
  rfl

/-- Every malformed stretch is reported, where comments of malformed ones are quiet. -/
theorem reported_readClauses {source : String} {bound before : List Char} {cursor : Cursor}
    {stretches : List Cursor} (enough : cursor.rest.length ≤ bound.length)
    (reads : (Cursor.start source).Reads before cursor) (isCut : Cut cursor stretches)
    (areQuiet : ∀ stretch ∈ stretches, ¬ stretch.IsClause → stretch.IsQuiet) :
    Reported source stretches
      ((readClauses bound cursor).filterMap (malformation? source)) := by
  induction bound generalizing cursor stretches before with
  | nil =>
      have atEnd : cursor.rest = [] := List.eq_nil_of_length_eq_zero (Nat.le_zero.1 enough)
      cases isCut with
      | gap => exact .nil
      | stretch noGap _ => exact absurd (atEnd ▸ .nil []) noGap
  | cons char bound inductionHypothesis =>
      rw [List.length_cons] at enough
      cases isCut with
      | gap isGap =>
          obtain ⟨start, isGapRead⟩ := Parser.exists_run_gap cursor
          rw [readClauses, isGapRead]
          dsimp only
          rw [(isGap_iff isGapRead).1 isGap]
          exact .nil
      | @stretch _ others noGap isCut =>
          obtain ⟨isQuiet, areQuiet⟩ := List.forall_mem_cons.1 areQuiet
          obtain ⟨chars, readsStretch, _⟩ := exists_reads_behindClause cursor
          have fewer : cursor.behindClause.rest.length < cursor.rest.length :=
            length_behindClause_lt fun atEnd => noGap (atEnd ▸ .nil [])
          have reported :=
            inductionHypothesis (by omega) (reads.append readsStretch) isCut areQuiet
          obtain ⟨outcome, next, handled, isRead⟩ := exists_handled noGap char bound
          rw [isRead]
          cases handled with
          | clause isClause => exact .clause isClause reported
          | failed noClause leads isSkipped =>
              rw [isSkipped (isQuiet noClause)]
              exact .malformed noClause (isAbout_report reads leads) reported
          | digit noClause leads digit shorter quiet =>
              -- The rest of the stretch is malformed, and is reported as the stretch.
              have noGapNext : ¬ Gap next.rest [] := fun isGap => digit isGap.endsDigits
              have sameEnd : next.behindClause = cursor.behindClause := leads.behindClause
              have isCutNext : Cut next (next :: others) := .stretch noGapNext (sameEnd ▸ isCut)
              obtain ⟨middle, _, readsNext, _⟩ := leads.contains
              refine .of_leads (inductionHypothesis (by omega) (reads.append readsNext) isCutNext
                ?_) noClause leads digit
              exact List.forall_mem_cons.2 ⟨fun _ => quiet (isQuiet noClause), areQuiet⟩

/-- A source has one report for each malformed stretch, if comments of malformed stretches are
quiet, and is parsed if there is none. -/
theorem reported_parse {source : String} {stretches : List Cursor}
    (isCut : Cut (.start source) stretches)
    (areQuiet : ∀ stretch ∈ stretches, ¬ stretch.IsClause → stretch.IsQuiet) :
    ∃ reports, Reported source stretches reports ∧
      ((reports = [] ∧ ∃ clauses, parse source = .ok clauses) ∨
        (reports ≠ [] ∧ parse source = .error (.malformed reports))) := by
  refine ⟨_, reported_readClauses (Nat.le_refl _) (.nil _) isCut areQuiet, ?_⟩
  rw [parse_eq]
  split
  next isEmpty => exact .inl ⟨List.isEmpty_iff.1 isEmpty, _, rfl⟩
  next notEmpty => exact .inr ⟨mt List.isEmpty_iff.2 notEmpty, rfl⟩

/-- Where all stretches are clauses there is nothing to report. -/
theorem Reported.eq_nil {source : String} {stretches : List Cursor} {reports : List Malformation}
    (reported : Reported source stretches reports)
    (areClauses : ∀ stretch ∈ stretches, stretch.IsClause) : reports = [] := by
  induction reported with
  | nil => rfl
  | clause _ _ inductionHypothesis =>
      exact inductionHypothesis (List.forall_mem_cons.1 areClauses).2
  | malformed noClause _ _ _ => exact absurd (List.forall_mem_cons.1 areClauses).1 noClause

/-- The stretches of clauses that are laid out up to a last gap are these clauses. -/
theorem Cut.areClauses {cursor last : Cursor} {stretches : List Cursor} {clauses : List Clause}
    (isCut : Cut cursor stretches) (wellFormed : ∀ clause ∈ clauses, clause.WellFormed)
    (laid : Laid cursor (clauses.flatMap Clause.pieces) last) (isGap : Gap last.rest []) :
    ∀ stretch ∈ stretches, stretch.IsClause := by
  induction isCut generalizing clauses with
  | gap => exact fun stretch member => by cases member
  | @stretch cursor stretches noGap _ inductionHypothesis =>
      cases clauses with
      | nil =>
          cases laid
          exact absurd isGap noGap
      | cons clause clauses =>
          obtain ⟨isWellFormed, areWellFormed⟩ := List.forall_mem_cons.1 wellFormed
          rw [List.flatMap_cons] at laid
          obtain ⟨middle, laidClause, laidOthers⟩ := laid.exists_of_append
          have endsDigits := endsDigits_clauses areWellFormed laidOthers isGap.endsDigits
          have isRead := Parser.readsBack_clause isWellFormed laidClause endsDigits
          have isEnd := behindClause_of_run_clause (.refl cursor) isRead endsDigits
          refine List.forall_mem_cons.2 ⟨⟨clause, isWellFormed, isEnd ▸ laidClause⟩, ?_⟩
          exact inductionHypothesis areWellFormed (isEnd ▸ laidOthers)

/-- A source is parsed if each of its stretches is a clause, and only then. -/
theorem exists_parse_eq_ok_iff {source : String} {stretches : List Cursor}
    (isCut : Cut (.start source) stretches) :
    (∃ clauses, parse source = .ok clauses) ↔ ∀ stretch ∈ stretches, stretch.IsClause := by
  constructor
  · rintro ⟨clauses, isParsed⟩
    obtain ⟨wellFormed, last, laid, isGap⟩ := laid_of_parse isParsed
    exact isCut.areClauses wellFormed laid isGap
  · intro areClauses
    obtain ⟨reports, reported, ⟨_, isParsed⟩ | ⟨nonempty, _⟩⟩ := reported_parse isCut
      fun stretch member noClause => absurd (areClauses stretch member) noClause
    · exact isParsed
    · exact absurd (reported.eq_nil areClauses) nonempty

/-- Every text is cut into stretches. -/
theorem exists_cut (cursor : Cursor) : ∃ stretches, Cut cursor stretches := by
  by_cases isGap : Gap cursor.rest []
  · exact ⟨[], .gap isGap⟩
  · have fewer := length_behindClause_lt fun atEnd => isGap (atEnd ▸ .nil [])
    obtain ⟨stretches, isCut⟩ := exists_cut cursor.behindClause
    exact ⟨cursor :: stretches, .stretch isGap isCut⟩
termination_by cursor.rest.length

/-- A text is cut in one way. -/
theorem Cut.unique {cursor : Cursor} {first second : List Cursor} (isCut : Cut cursor first)
    (isCutToo : Cut cursor second) : first = second := by
  induction isCut generalizing second with
  | gap isGap =>
      cases isCutToo with
      | gap => rfl
      | stretch noGap _ => exact absurd isGap noGap
  | stretch noGap _ inductionHypothesis =>
      cases isCutToo with
      | gap isGap => exact absurd isGap noGap
      | stretch _ isCutToo => exact congrArg _ (inductionHypothesis isCutToo)

/-- Stretches are parts of the text that is cut. -/
theorem Cut.exists_reads {cursor : Cursor} {stretches : List Cursor}
    (isCut : Cut cursor stretches) :
    ∀ stretch ∈ stretches, ∃ chars, cursor.Reads chars stretch := by
  induction isCut with
  | gap => exact fun stretch member => by cases member
  | @stretch cursor stretches _ _ inductionHypothesis =>
      obtain ⟨first, readsFirst, _⟩ := exists_reads_behindClause cursor
      refine List.forall_mem_cons.2 ⟨⟨[], .nil cursor⟩, fun stretch member => ?_⟩
      obtain ⟨chars, reads⟩ := inductionHypothesis stretch member
      exact ⟨first ++ chars, readsFirst.append reads⟩

/-- Where no character of a comment mark stands, comments are quiet, since there is none. -/
theorem quiet_of_noMark {region : Region} {rest : List Char} (noComment : region ≠ .comment)
    (noMark : ∀ char ∈ rest, char ≠ '%' ∧ char ≠ '/') : Quiet region rest := by
  induction rest generalizing region with
  | nil => trivial
  | cons char rest inductionHypothesis =>
      obtain ⟨⟨noPercent, noSlash⟩, noMark⟩ := List.forall_mem_cons.1 noMark
      refine .inr ⟨fun isComment => absurd isComment noComment, inductionHypothesis ?_ noMark⟩
      unfold Region.behind
      split
      · rw [if_neg (by simp [noPercent, noSlash] : ¬ (char = '%' ∨ _))]
        split <;> exact fun isComment => by cases isComment
      · exact fun isComment => by cases isComment
      · split
        · exact fun isComment => by cases isComment
        · split <;> exact fun isComment => by cases isComment
      · exact absurd rfl noComment

/-- All stretches of a source without comment marks are quiet. -/
theorem Cut.isQuiet_of_noMark {source : String} {stretches : List Cursor}
    (isCut : Cut (.start source) stretches)
    (noMark : ∀ char ∈ source.toList, char ≠ '%' ∧ char ≠ '/') :
    ∀ stretch ∈ stretches, stretch.IsQuiet := by
  intro stretch member start isGap
  obtain ⟨before, reads⟩ := isCut.exists_reads stretch member
  obtain ⟨gap, _, readsGap⟩ := Parser.exists_gap_of_run isGap
  have isSource : source.toList = before ++ gap ++ start.rest := (reads.append readsGap).rest
  refine quiet_of_noMark (fun isComment => by cases isComment) fun char inRest => ?_
  exact noMark char (isSource ▸ List.mem_append_right _ inRest)

/-- Every source is cut into stretches in one way. It is parsed if all of them are clauses, and
only then; and if the comments of malformed stretches are quiet, as they are where there is no
comment mark, then there is one report for each malformed stretch. -/
theorem exists_cut_reported (source : String) :
    ∃ stretches, Cut (.start source) stretches ∧
      (∀ others, Cut (.start source) others → others = stretches) ∧
      ((∃ clauses, parse source = .ok clauses) ↔ ∀ stretch ∈ stretches, stretch.IsClause) ∧
      ((∀ stretch ∈ stretches, ¬ stretch.IsClause → stretch.IsQuiet) →
        ∃ reports, Reported source stretches reports ∧
          ((reports = [] ∧ ∃ clauses, parse source = .ok clauses) ∨
            (reports ≠ [] ∧ parse source = .error (.malformed reports)))) ∧
      ((∀ char ∈ source.toList, char ≠ '%' ∧ char ≠ '/') →
        ∀ stretch ∈ stretches, stretch.IsQuiet) := by
  obtain ⟨stretches, isCut⟩ := exists_cut (.start source)
  refine ⟨stretches, isCut, fun others isOther => isOther.unique isCut, ?_, ?_, ?_⟩
  · exact exists_parse_eq_ok_iff isCut
  · exact reported_parse isCut
  · exact isCut.isQuiet_of_noMark

/-- A quotation mark in the comment of a malformed clause hides that the next one is malformed,
too: the scanner takes what follows for a string. -/
theorem exists_malformed_unreported :
    ∃ source stretches, Cut (.start source) stretches ∧
      ∀ reports, Reported source stretches reports →
        parse source ≠ .error (.malformed reports) := by
  let source := "p(1 1 % 5\" wide\n). q(2. r(3)."
  let first := Cursor.start source
  let second : Cursor := ⟨" q(2. r(3).".toList, 18⟩
  let third : Cursor := ⟨" r(3).".toList, 23⟩
  let start : Cursor := ⟨"q(2. r(3).".toList, 19⟩
  let report : Malformation := ⟨⟨1, 5⟩, some "atom", some ')', some '1'⟩
  obtain ⟨⟨isGap, isGapToo, isLastGap⟩, ⟨isSecond, isThird, atEnd⟩, ⟨noClause, noClauseToo⟩,
      isOne⟩ :
      (Parser.gap.run first = .ok ((), first) ∧ Parser.gap.run second = .ok ((), start) ∧
          Parser.gap.run third = .ok ((), third.skip [' '])) ∧
        (first.behindClause = second ∧ second.behindClause = third ∧
          third.behindClause = ⟨[], 29⟩) ∧
        ((Parser.clause.run first).toOption = none ∧ (Parser.clause.run start).toOption = none) ∧
        parse source = .error (.malformed [report]) := by
    decide +kernel
  have isCut : Cut first [first, second, third] := by
    refine .stretch (mt (isGap_iff isGap).1 (by decide)) ?_
    rw [isSecond]
    refine .stretch (mt (isGap_iff isGapToo).1 (by decide)) ?_
    rw [isThird]
    refine .stretch (mt (isGap_iff isLastGap).1 (by decide)) ?_
    rw [atEnd]
    exact .gap (.nil [])
  refine ⟨source, _, isCut, fun reports reported isReported => ?_⟩
  rw [isOne] at isReported
  cases isReported
  cases reported with
  | clause isClause _ => exact not_isClause isGap noClause isClause
  | malformed _ _ others =>
      cases others with
      | clause isClause _ => exact not_isClause isGapToo noClauseToo isClause

end Datalog.Source
