import Mathlib.Data.List.Induction
import Datalog.Proofs.Source.Concatenation

/-!
# Positions and offsets

Every character leads to a later position (`Position.Precedes.advance`), so the offsets between
characters are located in order and each position belongs to one of them. Where an offset is
located depends on the text before it: on its line feeds and on what follows the last one.
`Position.locateBySlices?` finds the same by slicing the text at byte offsets, and never
slices inside a character or past the end. `Position.locatesExactly` collects this.
-/

namespace Datalog

namespace Source

/-- An offset between two characters of a text or at one of its ends. -/
def IsBoundary (text : List Char) (offset : Nat) : Prop :=
  ∃ before rest, text = before ++ rest ∧ textSize before = offset

/-- The characters before an offset, and nothing if the offset is inside a character or past
the end. -/
def sliceTo? : List Char → Nat → Option (List Char)
  | [], offset => if offset = 0 then some [] else none
  | char :: rest, offset =>
      if offset = 0 then some []
      else if offset < char.utf8Size then none
      else (sliceTo? rest (offset - char.utf8Size)).map (char :: ·)

/-- The characters from an offset on, and nothing if the offset is inside a character or past
the end. -/
def sliceFrom? : List Char → Nat → Option (List Char)
  | [], offset => if offset = 0 then some [] else none
  | char :: rest, offset =>
      if offset = 0 then some (char :: rest)
      else if offset < char.utf8Size then none
      else sliceFrom? rest (offset - char.utf8Size)

/-- The offset of the last line feed of a text that begins at an offset. -/
def lastLineFeed? : List Char → Nat → Option Nat
  | [], _ => none
  | char :: rest, offset =>
      (lastLineFeed? rest (offset + char.utf8Size)).or
        (if char = '\n' then some offset else none)

/-- The characters of a text behind its last line feed. -/
def lastLine (text : List Char) : List Char :=
  (text.reverse.takeWhile (· != '\n')).reverse

/-- A text is its last line, or it has a line feed in front of that. -/
theorem eq_lastLine_or_exists (text : List Char) :
    lastLine text = text ∧ '\n' ∉ text ∨
      ∃ front, text = front ++ '\n' :: lastLine text ∧ '\n' ∉ lastLine text := by
  induction text using List.reverseRecOn with
  | nil => exact .inl ⟨rfl, List.not_mem_nil⟩
  | append_singleton text char inductionHypothesis =>
      by_cases isLineFeed : char = '\n'
      · subst isLineFeed
        exact .inr ⟨text, by simp [lastLine]⟩
      · have extended : lastLine (text ++ [char]) = lastLine text ++ [char] := by
          simp [lastLine, isLineFeed]
        rw [extended]
        rcases inductionHypothesis with ⟨isLine, noLineFeed⟩ | ⟨front, split, noLineFeed⟩
        · exact .inl ⟨by rw [isLine], by simp [noLineFeed, Ne.symm isLineFeed]⟩
        · refine .inr ⟨front, ?_, by simp [noLineFeed, Ne.symm isLineFeed]⟩
          rw [← List.cons_append, ← List.append_assoc, ← split]

/-- A slice from an offset begins there. -/
theorem sliceFrom?_append (before rest : List Char) :
    sliceFrom? (before ++ rest) (textSize before) = some rest := by
  induction before with
  | nil => cases rest <;> rfl
  | cons char before inductionHypothesis =>
      have positive : 0 < char.utf8Size := char.utf8Size_pos
      have size : textSize (char :: before) = char.utf8Size + textSize before := rfl
      rw [List.cons_append, sliceFrom?, if_neg (by omega), if_neg (by omega), size,
        Nat.add_sub_cancel_left, inductionHypothesis]

/-- A text without line feeds has no last one. -/
theorem lastLineFeed?_of_not_mem {text : List Char} (noLineFeed : '\n' ∉ text) (offset : Nat) :
    lastLineFeed? text offset = none := by
  induction text generalizing offset with
  | nil => rfl
  | cons char text inductionHypothesis =>
      rw [List.mem_cons, not_or] at noLineFeed
      rw [lastLineFeed?, inductionHypothesis noLineFeed.2, Option.none_or,
        if_neg (Ne.symm noLineFeed.1)]

/-- The last line feed is the one behind which there is none. -/
theorem lastLineFeed?_append {front line : List Char} (noLineFeed : '\n' ∉ line) (offset : Nat) :
    lastLineFeed? (front ++ '\n' :: line) offset = some (offset + textSize front) := by
  induction front generalizing offset with
  | nil =>
      rw [List.nil_append, lastLineFeed?, lastLineFeed?_of_not_mem noLineFeed, Option.none_or,
        if_pos rfl]
      rfl
  | cons char front inductionHypothesis =>
      have size : textSize (char :: front) = char.utf8Size + textSize front := rfl
      rw [List.cons_append, lastLineFeed?, inductionHypothesis, Option.some_or, size,
        Nat.add_assoc]

/-- The last line of a text can be sliced off behind its last line feed. -/
theorem sliceFrom?_lastLineFeed? (text : List Char) :
    sliceFrom? text ((lastLineFeed? text 0).elim 0 (· + 1)) = some (lastLine text) := by
  rcases eq_lastLine_or_exists text with ⟨isLine, noLineFeed⟩ | ⟨front, split, noLineFeed⟩
  · rw [lastLineFeed?_of_not_mem noLineFeed, isLine]
    exact sliceFrom?_append [] text
  · have isBehind : textSize (front ++ ['\n']) = 0 + textSize front + 1 := by
      rw [textSize_append, Nat.zero_add]
      rfl
    generalize lastLine text = line at split noLineFeed
    subst split
    rw [lastLineFeed?_append noLineFeed, Option.elim_some, ← isBehind, List.append_cons]
    exact sliceFrom?_append _ _

/-- Of two offsets between characters the smaller one has less text before it. -/
theorem exists_between {text before rest other behind : List Char}
    (isBefore : text = before ++ rest) (isOther : text = other ++ behind)
    (less : textSize before < textSize other) :
    ∃ middle, middle ≠ [] ∧ other = before ++ middle := by
  rcases List.append_eq_append_iff.1 (isBefore.symm.trans isOther) with
    ⟨middle, isLonger, _⟩ | ⟨middle, isLonger, _⟩
  · refine ⟨middle, ?_, isLonger⟩
    rintro rfl
    rw [isLonger, List.append_nil] at less
    exact absurd less (Nat.lt_irrefl _)
  · rw [isLonger, textSize_append] at less
    omega

end Source

namespace Position

open Source (IsBoundary sliceTo? sliceFrom? lastLineFeed? lastLine textSize)

/-- One position comes before another in a text: on an earlier line, or in an earlier column
of the same line. -/
def Precedes (first second : Position) : Prop :=
  first.line < second.line ∨ first.line = second.line ∧ first.column < second.column

/-- Positions come before each other along chains. -/
theorem Precedes.trans {first second third : Position} (isBefore : first.Precedes second)
    (further : second.Precedes third) : first.Precedes third := by
  unfold Precedes at *
  omega

/-- No position comes before itself. -/
theorem Precedes.irrefl (position : Position) : ¬ position.Precedes position := by
  unfold Precedes
  omega

/-- A character leads to a later position. -/
theorem Precedes.advance (position : Position) (char : Char) :
    position.Precedes (position.advance char) := by
  unfold Precedes Position.advance
  split
  next => exact .inl (Nat.lt_succ_self _)
  next => exact .inr ⟨rfl, Nat.lt_succ_self _⟩

/-- Some characters lead to a later position. -/
theorem Precedes.foldl_advance {text : List Char} (nonempty : text ≠ []) (position : Position) :
    position.Precedes (text.foldl Position.advance position) := by
  induction text generalizing position with
  | nil => exact absurd rfl nonempty
  | cons char text inductionHypothesis =>
      rw [List.foldl_cons]
      cases text with
      | nil => exact .advance position char
      | cons next text =>
          exact .trans (.advance position char) (inductionHypothesis (List.cons_ne_nil _ _) _)

/-- Where a text ends is told by its line feeds and its last line. -/
theorem after_eq (text : List Char) :
    after text = ⟨text.count '\n' + 1, (lastLine text).length + 1⟩ := by
  induction text using List.reverseRecOn with
  | nil => rfl
  | append_singleton text char inductionHypothesis =>
      rw [after_append, inductionHypothesis, List.foldl_cons, List.foldl_nil, advance]
      split
      next isLineFeed =>
        subst isLineFeed
        simp [lastLine]
      next isOther => simp [lastLine, isOther]

/-- The offset behind the first part of a text is located where that part ends. -/
theorem locate_textSize {source : String} {before rest : List Char}
    (split : source.toList = before ++ rest) :
    locate source (textSize before) = after before := by
  rw [locate, split, textSize, locateFrom?_append, Option.getD_some, after]

/-- The position that slices of a text tell: the number of line feeds before an offset, which
counts as the end if it is past it and as the whole text if it is inside a character, and the
number of characters behind the last of them. Nothing comes out if a slice does not begin
between two characters. -/
def locateBySlices? (source : String) (offset : Nat) : Option Position :=
  let before := (sliceTo? source.toList (min offset source.utf8ByteSize)).getD source.toList
  let lineStart := (lastLineFeed? before 0).elim 0 (· + 1)
  (sliceFrom? before lineStart).map fun line => ⟨before.count '\n' + 1, line.length + 1⟩

/-- An offset is located where the slice up to it ends. -/
theorem locateFrom?_eq_sliceTo? (position : Position) (text : List Char) (offset : Nat) :
    locateFrom? position text offset =
      (sliceTo? text (min offset (textSize text))).map (·.foldl advance position) := by
  induction text generalizing position offset with
  | nil =>
      have noBytes : min offset (textSize []) = 0 := Nat.min_zero offset
      rw [noBytes]
      rfl
  | cons char text inductionHypothesis =>
      have positive : 0 < char.utf8Size := char.utf8Size_pos
      have size : textSize (char :: text) = char.utf8Size + textSize text := rfl
      rw [locateFrom?, sliceTo?, size]
      by_cases atStart : offset = 0
      · subst atStart
        rfl
      have notAtStart : min offset (char.utf8Size + textSize text) ≠ 0 := by omega
      rw [if_neg atStart, if_neg notAtStart]
      by_cases inside : offset < char.utf8Size
      · have alsoInside : min offset (char.utf8Size + textSize text) < char.utf8Size := by omega
        rw [if_pos inside, if_pos alsoInside]
        rfl
      have notInside : ¬ min offset (char.utf8Size + textSize text) < char.utf8Size := by omega
      have behind : min offset (char.utf8Size + textSize text) - char.utf8Size =
          min (offset - char.utf8Size) (textSize text) := by omega
      rw [if_neg inside, if_neg notInside, inductionHypothesis, behind, Option.map_map]
      rfl

/-- Slices tell the position of every offset. -/
theorem locateBySlices?_eq (source : String) (offset : Nat) :
    locateBySlices? source offset = some (locate source offset) := by
  have located : locate source offset =
      after ((sliceTo? source.toList (min offset source.utf8ByteSize)).getD source.toList) := by
    rw [locate, locateFrom?_eq_sliceTo?, Source.utf8ByteSize_eq_textSize]
    cases sliceTo? source.toList (min offset (textSize source.toList)) <;> rfl
  rw [located, after_eq, locateBySlices?, Source.sliceFrom?_lastLineFeed?, Option.map_some]

/-- Offsets of a text are located exactly and in their order. -/
structure LocatesExactly (source : String) : Prop where
  /-- Larger offsets between characters have later positions. -/
  increasing : ∀ first second, IsBoundary source.toList first →
    IsBoundary source.toList second → first < second →
      (locate source first).Precedes (locate source second)
  /-- A position belongs to one offset between characters. -/
  injective : ∀ first second, IsBoundary source.toList first →
    IsBoundary source.toList second → locate source first = locate source second →
      first = second
  /-- Lines are counted by the line feeds before the offset, and columns by the characters
  behind the last of them. -/
  counts : ∀ before rest, source.toList = before ++ rest →
    locate source (textSize before) = ⟨before.count '\n' + 1, (lastLine before).length + 1⟩
  /-- The text behind the offset does not matter. -/
  independent : ∀ (other : String) before rest otherRest, source.toList = before ++ rest →
    other.toList = before ++ otherRest →
      locate other (textSize before) = locate source (textSize before)
  /-- Every offset at all can be located by slices that exist. -/
  slices : ∀ offset, locateBySlices? source offset = some (locate source offset)

/-- Offsets of every text are located exactly and in their order. -/
theorem locatesExactly (source : String) : LocatesExactly source := by
  have increasing (first second : Nat) (isFirst : IsBoundary source.toList first)
      (isSecond : IsBoundary source.toList second) (less : first < second) :
      (locate source first).Precedes (locate source second) := by
    obtain ⟨before, rest, split, rfl⟩ := isFirst
    obtain ⟨other, behind, otherSplit, rfl⟩ := isSecond
    obtain ⟨middle, nonempty, rfl⟩ := Source.exists_between split otherSplit less
    rw [locate_textSize split, locate_textSize otherSplit, after_append]
    exact .foldl_advance nonempty _
  constructor
  · exact increasing
  · intro first second isFirst isSecond same
    rcases Nat.lt_trichotomy first second with less | equal | greater
    · have precedes := increasing first second isFirst isSecond less
      rw [same] at precedes
      exact absurd precedes (Precedes.irrefl _)
    · exact equal
    · have precedes := increasing second first isSecond isFirst greater
      rw [same] at precedes
      exact absurd precedes (Precedes.irrefl _)
  · intro before rest split
    rw [locate_textSize split, after_eq]
  · intro other before rest otherRest split otherSplit
    rw [locate_textSize split, locate_textSize otherSplit]
  · exact locateBySlices?_eq source

/-- Characters of several bytes take one column each, and an offset inside of one is located
at the end of the text. -/
example : (locate "é\nüx" 2, locate "é\nüx" 5, locate "é\nüx" 4) = (⟨1, 2⟩, ⟨2, 2⟩, ⟨2, 3⟩) := by
  decide +kernel

end Position

end Datalog
