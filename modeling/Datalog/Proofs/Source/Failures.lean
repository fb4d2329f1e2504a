import Datalog.Proofs.Except
import Datalog.Proofs.Source.ClauseEnds
import Datalog.Proofs.Source.Soundness

/-!
# Where parsers fail

No parser of the grammar reads beyond the end of the clause in which it begins, and none fails
there (`Confined`). Only numbers look behind a full stop that could end the clause, and they
fail in such a way that another literal is tried instead. So the report of a malformed clause
is about a place within the clause.
-/

namespace Datalog.Source.Parser

variable {α β : Type}

/-- A parser reads from the clause in which it begins up to a place of the same clause. -/
def LeadsOn (parser : Parser α) : Prop :=
  ∀ ⦃cursor result later⦄, parser.run cursor = .ok (result, later) → cursor.Leads later .clause

/-- A parser fails before the clause ends in which it begins. -/
def FailsInside (parser : Parser α) : Prop :=
  ∀ ⦃cursor failure⦄, parser.run cursor = .error failure →
    ∃ region, cursor.Leads failure.place region

/-- A parser does not go beyond the end of the clause in which it begins. -/
structure Confined (parser : Parser α) : Prop where
  leads : LeadsOn parser
  fails : FailsInside parser

section Combinators

variable {parser : Parser α} {next : α → Parser β} {cursor : Cursor} {failure : Failure}

/-- A sequence fails where its first part does, or its second part behind the first. -/
theorem run_bind_eq_error_iff :
    (parser >>= next).run cursor = .error failure ↔
      parser.run cursor = .error failure ∨
        ∃ first middle, parser.run cursor = .ok (first, middle) ∧
          (next first).run middle = .error failure := by
  rw [run_bind]
  split
  next first middle isRead =>
    simp only [isRead, reduceCtorEq, false_or, Except.ok.injEq, Prod.mk.injEq]
    exact ⟨fun failed => ⟨first, middle, ⟨rfl, rfl⟩, failed⟩,
      fun ⟨_, _, ⟨sameFirst, sameMiddle⟩, failed⟩ => sameFirst ▸ sameMiddle ▸ failed⟩
  next first failed => simp [failed]

/-- Of two ways of reading the second fails, or the first in a way that cannot be recovered
from. -/
theorem run_orElse_eq_error_iff {first second : Parser α} :
    (orElse first second).run cursor = .error failure ↔
      (first.run cursor = .error failure ∧ failure.committed = true) ∨
        Refuses first cursor ∧ second.run cursor = .error failure := by
  unfold Refuses
  rw [run_orElse]
  cases first.run cursor with
  | error inner => cases committed : inner.committed <;> grind
  | ok read => simp

/-- A failure inside is one of the first part, or of the second part behind the first. -/
theorem FailsInside.bind (confined : Confined parser) (fails : ∀ first, FailsInside (next first)) :
    FailsInside (parser >>= next) := by
  intro cursor failure failed
  rcases run_bind_eq_error_iff.1 failed with failed | ⟨first, middle, isRead, failed⟩
  · exact confined.fails failed
  · obtain ⟨region, leads⟩ := fails first failed
    exact ⟨region, (confined.leads isRead).trans leads⟩

/-- A result is returned without failing. -/
theorem FailsInside.map (fails : FailsInside parser) (map : α → β) :
    FailsInside (parser >>= fun result => pure (map result)) := by
  intro cursor failure failed
  rcases run_bind_eq_error_iff.1 failed with failed | ⟨first, middle, _, failed⟩
  · exact fails failed
  · cases failed

/-- Of two ways of reading the second may fail inside, if the first cannot fail for good. -/
theorem FailsInside.orElse_of_recoverable {first second : Parser α}
    (recoverable : Recoverable first) (fails : FailsInside second) :
    FailsInside (orElse first second) := by
  intro cursor failure failed
  rcases run_orElse_eq_error_iff.1 failed with ⟨failed, committed⟩ | ⟨_, failed⟩
  · rcases recoverable cursor with ⟨inner, refused, notCommitted⟩ | ⟨result, later, isRead⟩
    · rw [failed] at refused
      cases refused
      rw [notCommitted] at committed
      cases committed
    · rw [failed] at isRead
      cases isRead
  · exact fails failed

/-- Of two ways of reading either may fail inside. -/
theorem FailsInside.orElse {first second : Parser α} (fails : FailsInside first)
    (failsSecond : FailsInside second) : FailsInside (orElse first second) := by
  intro cursor failure failed
  rcases run_orElse_eq_error_iff.1 failed with ⟨failed, _⟩ | ⟨_, failed⟩
  · exact fails failed
  · exact failsSecond failed

/-- Committing changes no place. -/
theorem exists_cause_of_commit (failed : (commit parser).run cursor = .error failure) :
    ∃ cause, parser.run cursor = .error cause ∧ cause.place = failure.place := by
  obtain ⟨cause, causeFailed, rfl⟩ := mapError_eq_error_iff.1 failed
  exact ⟨cause, causeFailed, rfl⟩

/-- Naming a construct changes no place. -/
theorem exists_cause_of_within {construct : String}
    (failed : (within construct parser).run cursor = .error failure) :
    ∃ cause, parser.run cursor = .error cause ∧ cause.place = failure.place := by
  obtain ⟨cause, causeFailed, rfl⟩ := mapError_eq_error_iff.1 failed
  exact ⟨cause, causeFailed, rfl⟩

/-- A committed parser fails where the parser does. -/
theorem FailsInside.commit (fails : FailsInside parser) : FailsInside (commit parser) := by
  intro cursor failure failed
  obtain ⟨cause, causeFailed, same⟩ := exists_cause_of_commit failed
  exact same ▸ fails causeFailed

/-- A parser of a construct fails where the parser does. -/
theorem FailsInside.within (fails : FailsInside parser) (construct : String) :
    FailsInside (within construct parser) := by
  intro cursor failure failed
  obtain ⟨cause, causeFailed, same⟩ := exists_cause_of_within failed
  exact same ▸ fails causeFailed

/-- A constant is confined. -/
theorem confined_pure (result : α) : Confined (pure result : Parser α) where
  leads cursor _ _ isRead := by
    obtain ⟨_, rfl⟩ := run_pure_eq_ok_iff.1 isRead
    exact .refl cursor
  fails _ _ failed := by cases failed

namespace Confined

/-- A sequence of confined parsers is confined. -/
theorem bind (confined : Confined parser) (confinedNext : ∀ first, Confined (next first)) :
    Confined (parser >>= next) where
  leads cursor _ _ isRead := by
    obtain ⟨first, middle, isFirst, isNext⟩ := run_bind_eq_ok_iff.1 isRead
    exact (confined.leads isFirst).trans ((confinedNext first).leads isNext)
  fails := .bind confined fun first => (confinedNext first).fails

/-- Mapping confines no less. -/
theorem map (confined : Confined parser) (map : α → β) : Confined (map <$> parser) := by
  rw [map_eq_pure_bind]
  exact confined.bind fun _ => confined_pure _

/-- A choice between confined parsers is confined. -/
theorem orElse {second : Parser α} (confined : Confined parser) (confinedSecond : Confined second) :
    Confined (orElse parser second) where
  leads cursor _ _ isRead := by
    rcases run_orElse_eq_ok_iff.1 isRead with isFirst | ⟨_, isSecond⟩
    · exact confined.leads isFirst
    · exact confinedSecond.leads isSecond
  fails := confined.fails.orElse confinedSecond.fails

/-- An optional part is confined if it is where it is not missing. -/
theorem optional (confined : Confined parser) : Confined (optional parser) :=
  (confined.map some).orElse (confined_pure none)

/-- A repetition of a confined parser is confined. -/
theorem manyWithin (confined : Confined parser) (bound : List Char) :
    Confined (manyWithin parser bound) := by
  induction bound with
  | nil => exact confined_pure []
  | cons _ bound inductionHypothesis =>
      refine confined.optional.bind fun found => ?_
      cases found with
      | none => exact confined_pure []
      | some item => exact inductionHypothesis.bind fun _ => confined_pure _

/-- Committing confines no less. -/
theorem commit (confined : Confined parser) : Confined (commit parser) where
  leads _ _ _ isRead := confined.leads (run_commit_eq_ok_iff.1 isRead)
  fails := confined.fails.commit

/-- Naming a construct confines no less. -/
theorem within (confined : Confined parser) (construct : String) :
    Confined (within construct parser) where
  leads _ _ _ isRead := confined.leads (run_within_eq_ok_iff.1 isRead)
  fails := confined.fails.within construct

end Confined

/-- A parser that looks where it stands is confined if it is wherever it stands. -/
theorem confined_here_bind {next : Cursor → Parser α}
    (confined : ∀ cursor, Confined (next cursor)) : Confined (here >>= next) where
  leads cursor _ _ isRead := (confined cursor).leads isRead
  fails cursor _ failed := (confined cursor).fails failed

/-- A repetition of a confined parser is confined. -/
theorem Confined.many (confined : Confined parser) : Confined (many parser) :=
  confined_here_bind fun cursor => confined.manyWithin cursor.rest

/-- Confined items with confined separators are confined. -/
theorem Confined.separated {separator : Parser β} (confinedSeparator : Confined separator)
    (confined : Confined parser) : Confined (Parser.separated separator parser) :=
  confined.bind fun _ =>
    (confinedSeparator.bind fun _ => confined).many.bind fun _ => confined_pure _

end Combinators

section Characters

variable {class? : Char → Bool} {cursor later : Cursor}

/-- Inert characters lead on. -/
theorem leads_of_inert {chars : List Char} (reads : cursor.Reads chars later)
    (areInert : ∀ char ∈ chars, IsInert char) : cursor.Leads later .clause :=
  ⟨chars, reads, scans_inert areInert later.rest⟩

/-- A given character is missing where the parser stands. -/
theorem place_of_run_char {expected : Char} {failure : Failure}
    (failed : (char expected).run cursor = .error failure) : failure.place = cursor := by
  rw [char, run_here_bind] at failed
  split at failed <;> cases failed
  rfl

/-- A given character is missing in the clause. -/
theorem failsInside_char (expected : Char) : FailsInside (char expected) := by
  intro cursor failure failed
  rw [place_of_run_char failed]
  exact ⟨.clause, .refl cursor⟩

/-- An inert character is read in the clause. -/
theorem confined_char {expected : Char} (isInert : IsInert expected) :
    Confined (char expected) where
  leads _ _ _ isRead :=
    leads_of_inert (run_char_eq_ok_iff.1 isRead).2 (List.forall_mem_singleton.2 isInert)
  fails := failsInside_char expected

/-- Inert characters are read in the clause. -/
theorem confined_text {expected : List Char} (areInert : ∀ char ∈ expected, IsInert char) :
    Confined (text expected) where
  leads _ _ _ isRead := leads_of_inert (run_text_eq_ok_iff.1 isRead).2 areInert
  fails cursor _ failed := by
    rw [text, run_here_bind] at failed
    split at failed <;> cases failed
    exact ⟨.clause, .refl cursor⟩

/-- A character of an inert class is read in the clause. -/
theorem confined_satisfy (isInert : IsInertClass class?) : Confined (satisfy class?) where
  leads _ _ _ isRead := by
    obtain ⟨next, inClass, rfl, reads⟩ := run_satisfy_eq_ok_iff.1 isRead
    exact leads_of_inert reads (List.forall_mem_singleton.2 (isInert.isInert inClass))
  fails cursor _ failed := by
    rw [satisfy, run_here_bind] at failed
    split at failed
    · split at failed <;> cases failed
      exact ⟨.clause, .refl cursor⟩
    · cases failed
      exact ⟨.clause, .refl cursor⟩

/-- Characters of an inert class are read in the clause. -/
theorem confined_charsWhile (isInert : IsInertClass class?) : Confined (charsWhile class?) where
  leads _ _ _ isRead := by
    obtain ⟨reads, inClass, _⟩ := run_charsWhile_eq_ok_iff.1 isRead
    exact leads_of_inert reads fun char member => isInert.isInert (inClass char member)
  fails _ _ failed := by cases failed

/-- Some characters of an inert class are read in the clause. -/
theorem confined_someChars (isInert : IsInertClass class?) : Confined (someChars class?) where
  leads _ _ _ isRead := (confined_charsWhile isInert).leads (run_someChars_eq_ok_iff.1 isRead).2
  fails cursor _ failed := by
    rw [someChars, run_here_bind] at failed
    split at failed <;> cases failed
    exact ⟨.clause, .refl cursor⟩

/-- A gap is passed over in the clause. -/
theorem confined_gap : Confined gap where
  leads _ _ _ isRead := by
    obtain ⟨chars, isGap, reads⟩ := exists_gap_of_run isRead
    exact ⟨chars, reads, isGap.scans⟩
  fails cursor failure failed := by
    obtain ⟨later, isRead⟩ := exists_run_gap cursor
    rw [failed] at isRead
    cases isRead

/-- What is confined is so behind a gap. -/
theorem Confined.spaced {parser : Parser α} (confined : Confined parser) :
    Confined (spaced parser) :=
  .bind confined_gap fun _ => confined

/-- A token is confined if its lexeme is. -/
theorem Confined.token {lexeme : Parser (List Char)} (confined : Confined lexeme) :
    Confined (token lexeme) :=
  confined_here_bind fun _ => confined.bind fun _ => confined_pure _

/-- Names are confined. -/
theorem confined_identifier : Confined identifier :=
  .bind (confined_satisfy (by decide)) fun _ =>
    .bind (confined_charsWhile (by decide)) fun _ => confined_pure _

/-- Wildcards are confined. -/
theorem confined_wildcard : Confined wildcard :=
  .bind (confined_char (by decide)) fun _ =>
    .bind (confined_charsWhile (by decide)) fun _ => confined_pure _

/-- Keywords are confined. -/
theorem confined_keyword : Confined keyword :=
  .bind (confined_char (by decide)) fun _ => .bind confined_identifier fun _ => confined_pure _

end Characters

section Literals

variable {cursor : Cursor}

/-- Mapping never commits. -/
theorem Recoverable.map {parser : Parser α} (recoverable : Recoverable parser) (map : α → β) :
    Recoverable (map <$> parser) := by
  rw [map_eq_pure_bind]
  exact recoverable.bind fun _ => recoverable_pure _

/-- Leaving out an optional part is no commitment. -/
theorem Recoverable.optional {parser : Parser α} (recoverable : Recoverable parser) :
    Recoverable (optional parser) :=
  (recoverable.map some).orElse (recoverable_pure none)

/-- Reading a character of a class is no commitment. -/
theorem recoverable_satisfy (class? : Char → Bool) : Recoverable (satisfy class?) := by
  refine recoverable_here_bind fun cursor => ?_
  split
  · split
    · exact recoverable_consume _
    · exact recoverable_fail _
  · exact recoverable_fail _

/-- Reading a sign is no commitment. -/
theorem recoverable_sign : Recoverable sign :=
  .bind (.optional (recoverable_char '-')) fun _ => recoverable_pure _

/-- Reading an exponent is no commitment. -/
theorem recoverable_exponent : Recoverable exponent :=
  .bind (recoverable_satisfy _) fun _ => .bind (.optional (recoverable_satisfy _)) fun _ =>
    .bind (recoverable_someChars _) fun _ => recoverable_pure _

/-- Reading a float is no commitment. -/
theorem recoverable_float : Recoverable float :=
  .bind recoverable_sign fun _ => .bind (recoverable_someChars _) fun _ =>
    .bind (recoverable_char '.') fun _ => .bind (recoverable_someChars _) fun _ =>
      .bind (.optional recoverable_exponent) fun _ => recoverable_pure _

/-- Reading an integer is no commitment. -/
theorem recoverable_integer : Recoverable integer := by
  refine recoverable_here_bind fun start => .bind recoverable_sign fun _ =>
    .bind (recoverable_someChars _) fun _ => ?_
  dsimp only
  split
  · exact recoverable_pure _
  · exact fun _ => .inl ⟨_, rfl, rfl⟩

/-- A body of a string is never missing. -/
theorem not_run_stringBody_eq_error {failure : Failure} :
    stringBody.run cursor ≠ .error failure := by
  rw [stringBody, run_here_bind]
  dsimp only
  split <;> exact fun failed => by cases failed

/-- A string is missing where the parser stands, and its closing quote in the string. -/
theorem failsInside_string : FailsInside string := by
  intro cursor failure failed
  rcases run_bind_eq_error_iff.1 failed with failed | ⟨_, first, isOpening, failed⟩
  · exact failsInside_char '"' failed
  obtain ⟨rfl, readsOpening⟩ := run_char_eq_ok_iff.1 isOpening
  rcases run_bind_eq_error_iff.1 failed with failed | ⟨⟨body, text⟩, second, isBody, failed⟩
  · exact absurd failed not_run_stringBody_eq_error
  obtain ⟨quotes, readsBody⟩ := quotes_of_run_stringBody isBody
  have leads : cursor.Leads second (.string false) :=
    ⟨['"'] ++ body, readsOpening.append readsBody,
      .cons (fun stops => by cases stops.2.1) (quotes.scans second.rest)⟩
  rcases run_bind_eq_error_iff.1 failed with failed | ⟨_, third, _, failed⟩
  · obtain ⟨cause, isMissing, samePlace⟩ := exists_cause_of_commit failed
    obtain ⟨inner, isMissing, sameInner⟩ := exists_cause_of_within isMissing
    rw [← samePlace, ← sameInner, place_of_run_char isMissing]
    exact ⟨_, leads⟩
  · cases failed

/-- Literals are read up to a place of the clause. -/
theorem confined_literal : Confined literal where
  leads _ _ _ isRead := by
    obtain ⟨denotes, reads⟩ := denotes_of_run_literal isRead
    exact ⟨_, reads, denotes.scans _⟩
  fails := by
    refine .orElse_of_recoverable (.bind recoverable_float fun _ => recoverable_pure _) ?_
    refine .orElse_of_recoverable (.bind recoverable_integer fun _ => recoverable_pure _) ?_
    refine .orElse (.map failsInside_string _) ?_
    exact .bind confined_keyword fun _ => (confined_pure _).fails

end Literals

section Grammar

/-- Terms are confined. -/
theorem confined_term : Confined term := by
  refine .spaced (confined_here_bind fun cursor => ?_)
  refine .orElse (.bind confined_literal fun _ => confined_pure _) ?_
  refine .orElse (.bind confined_wildcard fun _ => confined_pure _) ?_
  refine .bind confined_identifier fun name => ?_
  split <;> exact confined_pure _

/-- Punctuation within clauses is confined. -/
theorem confined_mark {expected : Char} (isInert : IsInert expected) :
    Confined (mark expected) :=
  .bind (.spaced (confined_char isInert)) fun _ => confined_pure _

/-- Items with commas between them are confined if the items are. -/
theorem Confined.listed {item : Parser α} (confined : Confined item) :
    Confined (Parser.separated (mark ',') item) :=
  .separated (confined_mark (by decide)) confined

/-- Fields are confined. -/
theorem confined_namedArg : Confined namedArg :=
  .bind (.spaced (.token confined_identifier)) fun _ =>
    .bind (confined_mark (by decide)) fun _ => .bind confined_term fun _ => confined_pure _

/-- Arguments are confined. -/
theorem confined_args : Confined args :=
  .orElse (.map (.listed confined_namedArg) Args.named) <|
    .bind (.optional (.listed confined_term)) fun _ => confined_pure _

/-- Atoms are confined. -/
theorem confined_atom : Confined atom :=
  .bind (.spaced (.token confined_identifier)) fun _ =>
    .bind (confined_mark (by decide)) fun _ => .bind confined_args fun _ =>
      .bind (.commit (.within (confined_mark (by decide)) _)) fun _ => confined_pure _

/-- The word that negates is confined. -/
theorem confined_negation : Confined negation :=
  .spaced <| .bind (confined_text (by decide)) fun _ =>
    .bind (confined_someChars (by decide)) fun _ => confined_pure _

/-- Negated atoms are confined. -/
theorem confined_negatedAtom : Confined negatedAtom :=
  .bind confined_negation fun _ => .commit (.within confined_atom _)

/-- Comparisons are confined. -/
theorem confined_comparison : Confined comparison :=
  .bind confined_term fun _ => .bind (.spaced (.token (confined_someChars (by decide)))) fun _ =>
    .bind (.commit (.within confined_term _)) fun _ => confined_pure _

/-- Parts of bodies are confined. -/
theorem confined_bodyLiteral : Confined bodyLiteral :=
  .orElse (.map confined_negatedAtom _) (.orElse (.map confined_atom _) confined_comparison)

/-- Bodies are confined. -/
theorem confined_body : Confined body :=
  .bind (.spaced (confined_text (by decide))) fun _ =>
    .commit (.within (.listed confined_bodyLiteral) _)

/-- A clause fails before it ends. -/
theorem failsInside_clause : FailsInside clause := by
  have failsStop : FailsInside (mark '.') :=
    .map (.bind confined_gap fun _ => failsInside_char '.') _
  exact .bind (.within confined_atom _) fun _ => .bind (.optional confined_body) fun _ =>
    .map (.commit (.within failsStop _)) _

/-- A clause is read up to a full stop of its own. -/
theorem exists_leads_of_run_clause {cursor later : Cursor} {result : Clause}
    (isRead : clause.run cursor = .ok (result, later)) :
    ∃ stop, cursor.Leads stop .clause ∧ stop.Reads ['.'] later := by
  obtain ⟨head, first, isHead, isRead⟩ := run_bind_eq_ok_iff.1 isRead
  obtain ⟨body?, second, maybeBody, isRead⟩ := run_bind_eq_ok_iff.1 isRead
  obtain ⟨_, last, isStop, isPure⟩ := run_bind_eq_ok_iff.1 isRead
  obtain ⟨rfl, rfl⟩ := run_pure_eq_ok_iff.1 isPure
  have isMark := run_within_eq_ok_iff.1 (run_commit_eq_ok_iff.1 isStop)
  obtain ⟨_, _, isChar, isPure⟩ := run_bind_eq_ok_iff.1 isMark
  obtain ⟨_, rfl⟩ := run_pure_eq_ok_iff.1 isPure
  obtain ⟨stop, isGap, isChar⟩ := run_spaced_eq_ok_iff.1 isChar
  have leadsHead := (Confined.within confined_atom _).leads isHead
  have leadsBody := leadsHead.trans ((Confined.optional confined_body).leads maybeBody)
  have leadsStop := leadsBody.trans (Confined.leads confined_gap isGap)
  exact ⟨stop, leadsStop, (run_char_eq_ok_iff.1 isChar).2⟩

end Grammar

end Datalog.Source.Parser
