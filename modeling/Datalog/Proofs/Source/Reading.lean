import Datalog.Proofs.Source.Layout

/-!
# What parsers read

When a composed parser succeeds, from which cursor to which, and when it refuses, that is,
fails in a way that lets another one be tried. Repetition is a chain of readings (`Repeats`);
the bound of `many` never ends one, since each reading takes some characters (`Advances`).
-/

namespace Datalog.Source

namespace Parser

variable {α β : Type}

/-- A parser fails so that another way of reading may be tried. -/
def Refuses (parser : Parser α) (cursor : Cursor) : Prop :=
  ∃ failure, parser.run cursor = .error failure ∧ failure.committed = false

section Sequence

variable {parser : Parser α} {next : α → Parser β} {cursor later : Cursor} {result : α}

/-- A constant is read from no characters. -/
theorem run_pure_eq_ok_iff {value : α} :
    (pure value : Parser α).run cursor = .ok (result, later) ↔
      value = result ∧ cursor = later := by
  rw [run_pure, Except.ok.injEq, Prod.mk.injEq]

/-- A constant is not refused. -/
theorem not_refuses_pure {value : α} : ¬ Refuses (pure value : Parser α) cursor := by
  rintro ⟨failure, failed, _⟩
  cases failed

/-- A result is mapped without reading anything else. -/
theorem run_map_eq_ok_iff {map : α → β} {mapped : β} :
    (map <$> parser).run cursor = .ok (mapped, later) ↔
      ∃ result, parser.run cursor = .ok (result, later) ∧ map result = mapped := by
  rw [map_eq_pure_bind, run_bind_eq_ok_iff]
  simp only [run_pure_eq_ok_iff]
  constructor
  · rintro ⟨result, _, isRead, isMapped, rfl⟩
    exact ⟨result, isRead, isMapped⟩
  · rintro ⟨result, isRead, isMapped⟩
    exact ⟨result, later, isRead, isMapped, rfl⟩

/-- A sequence is refused where its first part is, or its second part behind the first. -/
theorem refuses_bind_iff : Refuses (parser >>= next) cursor ↔
    Refuses parser cursor ∨
      ∃ first middle, parser.run cursor = .ok (first, middle) ∧ Refuses (next first) middle := by
  unfold Refuses
  rw [run_bind]
  split
  next first middle isRead =>
    simp only [isRead, reduceCtorEq, false_and, exists_false, false_or, Except.ok.injEq,
      Prod.mk.injEq]
    exact ⟨fun refused => ⟨first, middle, ⟨rfl, rfl⟩, refused⟩,
      fun ⟨_, _, ⟨sameFirst, sameMiddle⟩, refused⟩ => sameFirst ▸ sameMiddle ▸ refused⟩
  next failure failed =>
    simp only [failed, reduceCtorEq, false_and, exists_false, or_false,
      Except.error.injEq]

/-- Mapping changes no refusal. -/
theorem refuses_map_iff {map : α → β} :
    Refuses (map <$> parser) cursor ↔ Refuses parser cursor := by
  rw [map_eq_pure_bind, refuses_bind_iff]
  simp only [not_refuses_pure, and_false, exists_false, or_false]

/-- A committed parser never refuses. -/
theorem not_refuses_commit : ¬ Refuses (commit parser) cursor := by
  rintro ⟨failure, failed, notCommitted⟩
  rw [commit, run_ofFunction] at failed
  cases isRead : parser.run cursor with
  | error first =>
      rw [isRead] at failed
      cases failed
      cases notCommitted
  | ok read =>
      rw [isRead] at failed
      cases failed

/-- Of two ways of reading the second counts where the first refuses. -/
theorem run_orElse_eq_ok_iff {first second : Parser α} :
    (orElse first second).run cursor = .ok (result, later) ↔
      first.run cursor = .ok (result, later) ∨
        Refuses first cursor ∧ second.run cursor = .ok (result, later) := by
  unfold Refuses
  rw [run_orElse]
  cases isRead : first.run cursor with
  | error failure => cases committed : failure.committed <;> simp [committed]
  | ok read => simp

/-- Two ways of reading are refused where both are. -/
theorem refuses_orElse_iff {first second : Parser α} :
    Refuses (orElse first second) cursor ↔ Refuses first cursor ∧ Refuses second cursor := by
  unfold Refuses
  rw [run_orElse]
  cases isRead : first.run cursor with
  | error failure => cases committed : failure.committed <;> simp [committed]
  | ok read => simp

/-- An optional part is read, or refused and left out. -/
theorem run_optional_eq_ok_iff {result : Option α} :
    (optional parser).run cursor = .ok (result, later) ↔
      (∃ item, parser.run cursor = .ok (item, later) ∧ some item = result) ∨
        Refuses parser cursor ∧ none = result ∧ cursor = later := by
  rw [optional, run_orElse_eq_ok_iff, run_map_eq_ok_iff, refuses_map_iff, run_pure_eq_ok_iff]

end Sequence

section Characters

variable {class? : Char → Bool} {expected chars : List Char} {cursor later : Cursor}

/-- A parser that fails recoverably reads nothing. -/
theorem run_fail {expected : Option Char} :
    (fail expected : Parser α).run cursor = .error ⟨cursor, expected, none, false⟩ :=
  rfl

/-- A parser that looks where it stands. -/
theorem run_here_bind {next : Cursor → Parser α} :
    (here >>= next).run cursor = (next cursor).run cursor :=
  rfl

/-- A known lexeme is read. -/
theorem run_consume_eq_ok_iff (isNext : expected <+: cursor.rest) :
    (consume expected).run cursor = .ok (chars, later) ↔
      chars = expected ∧ cursor.Reads expected later := by
  have isSkipped : cursor.Reads expected later ↔ later = cursor.skip expected :=
    ⟨Cursor.Reads.eq_skip, fun same => same ▸ .skip isNext⟩
  rw [isSkipped, consume, run_ofFunction, Except.ok.injEq, Prod.mk.injEq, eq_comm, @eq_comm _ later]

/-- A known lexeme is not refused. -/
theorem not_refuses_consume : ¬ Refuses (consume expected) cursor := by
  rintro ⟨failure, failed, _⟩
  cases failed

/-- One given character is read where it stands. -/
theorem run_char_eq_ok_iff {expected : Char} :
    (char expected).run cursor = .ok (chars, later) ↔
      chars = [expected] ∧ cursor.Reads [expected] later := by
  rw [char, run_here_bind]
  split
  next isNext =>
    obtain ⟨rest, isRest⟩ := List.head?_eq_some_iff.1 isNext
    exact run_consume_eq_ok_iff ⟨rest, isRest.symm⟩
  next notNext =>
    rw [run_fail]
    refine iff_of_false (fun failed => by cases failed) (fun read => notNext ?_)
    rw [read.2.rest]
    rfl

/-- One given character is refused where another one stands, or none. -/
theorem refuses_char_iff {expected : Char} :
    Refuses (char expected) cursor ↔ cursor.rest.head? ≠ some expected := by
  unfold Refuses
  rw [char, run_here_bind]
  split
  next isNext => exact iff_of_false not_refuses_consume (not_not_intro isNext)
  next notNext => exact iff_of_true ⟨_, run_fail, rfl⟩ notNext

/-- One character of a class is read where one stands. -/
theorem run_satisfy_eq_ok_iff :
    (satisfy class?).run cursor = .ok (chars, later) ↔
      ∃ next, class? next = true ∧ chars = [next] ∧ cursor.Reads [next] later := by
  rw [satisfy, run_here_bind]
  constructor
  · intro isRead
    split at isRead
    next next isNext =>
      split at isRead
      next inClass =>
        obtain ⟨rest, isRest⟩ := List.head?_eq_some_iff.1 isNext
        exact ⟨next, inClass, (run_consume_eq_ok_iff ⟨rest, isRest.symm⟩).1 isRead⟩
      next => cases isRead
    next => cases isRead
  · rintro ⟨next, inClass, read⟩
    have isRest := read.2.rest
    rw [isRest, List.singleton_append, List.head?_cons]
    simp only [inClass, if_true]
    exact (run_consume_eq_ok_iff ⟨later.rest, isRest.symm⟩).2 read

/-- One character of a class is refused where none stands. -/
theorem refuses_satisfy_iff :
    Refuses (satisfy class?) cursor ↔ ∀ next ∈ cursor.rest.head?, class? next = false := by
  unfold Refuses
  rw [satisfy, run_here_bind]
  split
  next next isNext =>
    rw [isNext]
    split
    next inClass => exact iff_of_false not_refuses_consume (by simp [inClass])
    next notInClass =>
      exact iff_of_true ⟨_, run_fail, rfl⟩ (by simpa using notInClass)
  next isNone => exact iff_of_true ⟨_, run_fail, rfl⟩ (by simp [isNone])

/-- Given characters are read where they stand. -/
theorem run_text_eq_ok_iff :
    (text expected).run cursor = .ok (chars, later) ↔
      chars = expected ∧ cursor.Reads expected later := by
  rw [text, run_here_bind]
  split
  next isNext => exact run_consume_eq_ok_iff (List.isPrefixOf_iff_prefix.1 isNext)
  next notNext =>
    rw [run_fail]
    refine iff_of_false (fun failed => by cases failed) (fun read => notNext ?_)
    exact List.isPrefixOf_iff_prefix.2 ⟨later.rest, read.2.rest.symm⟩

/-- Given characters are refused where others stand. -/
theorem refuses_text_iff : Refuses (text expected) cursor ↔ ¬ expected <+: cursor.rest := by
  unfold Refuses
  rw [text, run_here_bind]
  split
  next isNext =>
    exact iff_of_false not_refuses_consume (not_not_intro (List.isPrefixOf_iff_prefix.1 isNext))
  next notNext =>
    exact iff_of_true ⟨_, run_fail, rfl⟩ (mt List.isPrefixOf_iff_prefix.2 notNext)

/-- The first characters of a class are those up to one that is not in it. -/
theorem takeWhile_eq_iff {rest : List Char} :
    rest.takeWhile class? = chars ↔
      ∃ after, rest = chars ++ after ∧ (∀ char ∈ chars, class? char = true) ∧
        ∀ next ∈ after.head?, class? next = false := by
  constructor
  · rintro rfl
    refine ⟨rest.dropWhile class?, List.takeWhile_append_dropWhile.symm,
      List.all_eq_true.1 List.all_takeWhile, fun next isNext => ?_⟩
    have stops := List.head?_dropWhile_not class? rest
    rw [Option.mem_def.1 isNext] at stops
    exact stops
  · rintro ⟨after, rfl, inClass, stops⟩
    rw [List.takeWhile_append_of_pos inClass]
    cases after with
    | nil => simp
    | cons next after => simp [stops next rfl]

/-- All characters of a class are read. -/
theorem run_charsWhile_eq_ok_iff :
    (charsWhile class?).run cursor = .ok (chars, later) ↔
      cursor.Reads chars later ∧ (∀ char ∈ chars, class? char = true) ∧
        ∀ next ∈ later.rest.head?, class? next = false := by
  rw [charsWhile, run_here_bind, run_consume_eq_ok_iff (List.takeWhile_prefix _)]
  constructor
  · rintro ⟨rfl, reads⟩
    obtain ⟨after, isRest, inClass, stops⟩ :=
      takeWhile_eq_iff.1 (Eq.refl (cursor.rest.takeWhile class?))
    have same : after = later.rest := List.append_cancel_left (isRest.symm.trans reads.rest)
    exact ⟨reads, inClass, same ▸ stops⟩
  · rintro ⟨reads, inClass, stops⟩
    have same := takeWhile_eq_iff.2 ⟨later.rest, reads.rest, inClass, stops⟩
    rw [same]
    exact ⟨rfl, reads⟩

/-- All characters of a class are read, if there are some. -/
theorem run_someChars_eq_ok_iff :
    (someChars class?).run cursor = .ok (chars, later) ↔
      chars ≠ [] ∧ (charsWhile class?).run cursor = .ok (chars, later) := by
  rw [someChars, charsWhile, run_here_bind, run_here_bind]
  split
  next isNone =>
    rw [isNone, run_fail, run_consume_eq_ok_iff List.nil_prefix]
    refine iff_of_false (fun failed => by cases failed) (fun read => read.1 read.2.1)
  next first nonempty =>
    constructor
    · intro isRead
      refine ⟨?_, isRead⟩
      rw [((run_consume_eq_ok_iff (List.takeWhile_prefix _)).1 isRead).1]
      exact nonempty
    · exact fun isRead => isRead.2

/-- Some characters of a class are refused where none stands. -/
theorem refuses_someChars_iff :
    Refuses (someChars class?) cursor ↔ ∀ next ∈ cursor.rest.head?, class? next = false := by
  have isNone : cursor.rest.takeWhile class? = [] ↔
      ∀ next ∈ cursor.rest.head?, class? next = false := by
    rw [takeWhile_eq_iff]
    simp
  rw [← isNone, Refuses, someChars, run_here_bind]
  split
  next isNone => exact iff_of_true ⟨_, run_fail, rfl⟩ isNone
  next nonempty => exact iff_of_false not_refuses_consume nonempty

end Characters

section Recoverable

/-- A parser that never commits: it refuses whatever it does not read. -/
def Recoverable (parser : Parser α) : Prop :=
  ∀ cursor, Refuses parser cursor ∨ ∃ result later, parser.run cursor = .ok (result, later)

variable {parser : Parser α} {next : α → Parser β}

/-- A constant is read everywhere. -/
theorem recoverable_pure (result : α) : Recoverable (pure result : Parser α) :=
  fun cursor => .inr ⟨result, cursor, rfl⟩

/-- A sequence of parsers that never commit does not either. -/
theorem Recoverable.bind (recoverable : Recoverable parser)
    (recoverableNext : ∀ result, Recoverable (next result)) : Recoverable (parser >>= next) := by
  intro cursor
  rcases recoverable cursor with refused | ⟨result, middle, isRead⟩
  · exact .inl (refuses_bind_iff.2 (.inl refused))
  · rcases recoverableNext result middle with refused | ⟨last, later, isNext⟩
    · exact .inl (refuses_bind_iff.2 (.inr ⟨result, middle, isRead, refused⟩))
    · exact .inr ⟨last, later, run_bind_eq_ok_iff.2 ⟨result, middle, isRead, isNext⟩⟩

/-- A choice between parsers that never commit does not either. -/
theorem Recoverable.orElse {second : Parser α} (recoverable : Recoverable parser)
    (recoverableSecond : Recoverable second) : Recoverable (orElse parser second) := by
  intro cursor
  rcases recoverable cursor with refused | ⟨result, later, isRead⟩
  · rcases recoverableSecond cursor with refusedSecond | ⟨result, later, isRead⟩
    · exact .inl (refuses_orElse_iff.2 ⟨refused, refusedSecond⟩)
    · exact .inr ⟨result, later, run_orElse_eq_ok_iff.2 (.inr ⟨refused, isRead⟩)⟩
  · exact .inr ⟨result, later, run_orElse_eq_ok_iff.2 (.inl isRead)⟩

/-- A parser that depends on where it stands never commits if it does not anywhere. -/
theorem recoverable_here_bind {next : Cursor → Parser α}
    (recoverable : ∀ cursor, Recoverable (next cursor)) : Recoverable (here >>= next) :=
  fun cursor => recoverable cursor cursor

/-- A known lexeme is read without commitment. -/
theorem recoverable_consume (lexeme : List Char) : Recoverable (consume lexeme) :=
  fun cursor => .inr ⟨lexeme, cursor.skip lexeme, rfl⟩

/-- Failing is no commitment. -/
theorem recoverable_fail (expected : Option Char) : Recoverable (fail expected : Parser α) :=
  fun _ => .inl ⟨_, run_fail, rfl⟩

/-- Reading a given character is no commitment. -/
theorem recoverable_char (expected : Char) : Recoverable (char expected) := by
  refine recoverable_here_bind fun cursor => ?_
  split
  · exact recoverable_consume _
  · exact recoverable_fail _

/-- Reading given characters is no commitment. -/
theorem recoverable_text (expected : List Char) : Recoverable (text expected) := by
  refine recoverable_here_bind fun cursor => ?_
  split
  · exact recoverable_consume _
  · exact recoverable_fail _

/-- Reading characters of a class is no commitment. -/
theorem recoverable_someChars (class? : Char → Bool) : Recoverable (someChars class?) := by
  refine recoverable_here_bind fun cursor => ?_
  split
  · exact recoverable_fail _
  · exact recoverable_consume _

end Recoverable

section Repetition

variable {parser : Parser α} {cursor middle later : Cursor} {items : List α}

/-- Items read one after the other. -/
inductive Repeats (parser : Parser α) : Cursor → List α → Cursor → Prop where
  | nil (cursor : Cursor) : Repeats parser cursor [] cursor
  | cons {cursor middle later : Cursor} {item : α} {items : List α}
      (isRead : parser.run cursor = .ok (item, middle))
      (others : Repeats parser middle items later) : Repeats parser cursor (item :: items) later

/-- Whatever a parser reads takes some characters. -/
def Advances (parser : Parser α) : Prop :=
  ∀ ⦃cursor item later⦄, parser.run cursor = .ok (item, later) →
    later.rest.length < cursor.rest.length

/-- Some characters take some of the text. -/
theorem length_lt_of_reads {chars : List Char} (reads : cursor.Reads chars later)
    (nonempty : chars ≠ []) : later.rest.length < cursor.rest.length := by
  rw [reads.rest, List.length_append]
  have positive := List.length_pos_iff.2 nonempty
  omega

/-- What is read many times is read one after the other. -/
theorem repeats_of_manyWithin {bound : List Char}
    (isRead : (manyWithin parser bound).run cursor = .ok (items, later)) :
    Repeats parser cursor items later := by
  induction bound generalizing cursor items with
  | nil =>
      obtain ⟨rfl, rfl⟩ := run_pure_eq_ok_iff.1 isRead
      exact .nil cursor
  | cons _ bound inductionHypothesis =>
      obtain ⟨found, middle, isFirst, isRead⟩ := run_bind_eq_ok_iff.1 isRead
      rcases run_optional_eq_ok_iff.1 isFirst with ⟨item, isItem, rfl⟩ | ⟨_, rfl, rfl⟩
      · obtain ⟨others, last, areOthers, isRead⟩ := run_bind_eq_ok_iff.1 isRead
        obtain ⟨rfl, rfl⟩ := run_pure_eq_ok_iff.1 isRead
        exact .cons isItem (inductionHypothesis areOthers)
      · obtain ⟨rfl, rfl⟩ := run_pure_eq_ok_iff.1 isRead
        exact .nil cursor

/-- Items that take some characters each are read up to where the next one is refused. -/
theorem manyWithin_of_repeats (advances : Advances parser) {bound : List Char}
    (enough : cursor.rest.length ≤ bound.length) (repeats : Repeats parser cursor items later)
    (refused : Refuses parser later) :
    (manyWithin parser bound).run cursor = .ok (items, later) := by
  induction repeats generalizing bound with
  | nil =>
      cases bound with
      | nil => exact run_pure_eq_ok_iff.2 ⟨rfl, rfl⟩
      | cons =>
          refine run_bind_eq_ok_iff.2 ⟨none, _, ?_, run_pure_eq_ok_iff.2 ⟨rfl, rfl⟩⟩
          exact run_optional_eq_ok_iff.2 (.inr ⟨refused, rfl, rfl⟩)
  | @cons cursor middle later item items isRead _ inductionHypothesis =>
      have fewer := advances isRead
      cases bound with
      | nil => exact absurd enough (by rw [List.length_nil]; omega)
      | cons char bound =>
          rw [List.length_cons] at enough
          refine run_bind_eq_ok_iff.2 ⟨some item, middle,
            run_optional_eq_ok_iff.2 (.inl ⟨item, isRead, rfl⟩), ?_⟩
          exact run_bind_eq_ok_iff.2 ⟨items, later, inductionHypothesis (by omega) refused,
            run_pure_eq_ok_iff.2 ⟨rfl, rfl⟩⟩

/-- What is read many times is read one after the other. -/
theorem repeats_of_many (isRead : (many parser).run cursor = .ok (items, later)) :
    Repeats parser cursor items later :=
  repeats_of_manyWithin isRead

/-- Items that take some characters each are read up to where the next one is refused. -/
theorem many_of_repeats (advances : Advances parser) (repeats : Repeats parser cursor items later)
    (refused : Refuses parser later) : (many parser).run cursor = .ok (items, later) :=
  manyWithin_of_repeats advances (Nat.le_refl _) repeats refused

/-- A parser that never commits can be repeated. -/
theorem Recoverable.exists_run_many (recoverable : Recoverable parser) (cursor : Cursor) :
    ∃ items later, (many parser).run cursor = .ok (items, later) := by
  suffices ∀ bound cursor, ∃ items later,
      (manyWithin parser bound).run cursor = .ok (items, later) from this cursor.rest cursor
  intro bound
  induction bound with
  | nil => exact fun cursor => ⟨[], cursor, rfl⟩
  | cons _ bound inductionHypothesis =>
      intro cursor
      rcases recoverable cursor with refused | ⟨item, middle, isRead⟩
      · exact ⟨[], cursor, run_bind_eq_ok_iff.2 ⟨none, cursor,
          run_optional_eq_ok_iff.2 (.inr ⟨refused, rfl, rfl⟩), run_pure_eq_ok_iff.2 ⟨rfl, rfl⟩⟩⟩
      · obtain ⟨items, later, areOthers⟩ := inductionHypothesis middle
        exact ⟨item :: items, later, run_bind_eq_ok_iff.2 ⟨some item, middle,
          run_optional_eq_ok_iff.2 (.inl ⟨item, isRead, rfl⟩), run_bind_eq_ok_iff.2
            ⟨items, later, areOthers, run_pure_eq_ok_iff.2 ⟨rfl, rfl⟩⟩⟩⟩

/-- A repetition stops where the repeated parser refuses, if that never commits. -/
theorem Recoverable.refuses_of_many (recoverable : Recoverable parser)
    (advances : Advances parser) (isRead : (many parser).run cursor = .ok (items, later)) :
    Refuses parser later := by
  suffices ∀ (bound : List Char) (cursor : Cursor) (items : List α),
      cursor.rest.length ≤ bound.length →
        (manyWithin parser bound).run cursor = .ok (items, later) → Refuses parser later from
    this cursor.rest cursor items (Nat.le_refl _) isRead
  intro bound
  induction bound with
  | nil =>
      intro cursor items enough isRead
      obtain ⟨_, rfl⟩ := run_pure_eq_ok_iff.1 isRead
      rcases recoverable cursor with refused | ⟨_, _, isItem⟩
      · exact refused
      · exact absurd (advances isItem) (Nat.not_lt_of_le (Nat.le_trans enough (Nat.zero_le _)))
  | cons char bound inductionHypothesis =>
      intro cursor items enough isRead
      rw [List.length_cons] at enough
      obtain ⟨_, _, isFirst, isRead⟩ := run_bind_eq_ok_iff.1 isRead
      rcases run_optional_eq_ok_iff.1 isFirst with ⟨item, isItem, rfl⟩ | ⟨refused, rfl, rfl⟩
      · have fewer := advances isItem
        obtain ⟨others, _, areOthers, isPure⟩ := run_bind_eq_ok_iff.1 isRead
        obtain ⟨_, rfl⟩ := run_pure_eq_ok_iff.1 isPure
        exact inductionHypothesis _ others (by omega) areOthers
      · obtain ⟨_, rfl⟩ := run_pure_eq_ok_iff.1 isRead
        exact refused

end Repetition

end Parser

end Datalog.Source
