/-!
# Positions in source text

Offsets count bytes of the text's UTF-8 form; a position counts lines and characters.
`locate` turns the one into the other. It depends on the text before the offset alone and is
total: an offset past the end means the end, and one inside a character means the whole
text. By `locateFrom?_append` the offset of a character leads right behind the text before
it.
-/

namespace Datalog

/-- A line and a column, both counted from one; columns count characters. -/
structure Position where
  line : Nat
  column : Nat
  deriving DecidableEq, Inhabited

namespace Position

/-- The position of the first character of every text. -/
def start : Position := ⟨1, 1⟩

/-- The position that follows a character at this one. -/
def advance (position : Position) (char : Char) : Position :=
  if char = '\n' then ⟨position.line + 1, 1⟩ else ⟨position.line, position.column + 1⟩

/-- The position right after a text. -/
def after (text : List Char) : Position :=
  text.foldl advance start

/-- The position `offset` bytes into a text that begins at `position`, and nothing if that
is inside a character. -/
def locateFrom? (position : Position) : List Char → Nat → Option Position
  | [], _ => some position
  | char :: rest, offset =>
      if offset = 0 then some position
      else if offset < char.utf8Size then none
      else locateFrom? (position.advance char) rest (offset - char.utf8Size)

/-- The position `offset` bytes into the source. -/
def locate (source : String) (offset : Nat) : Position :=
  (locateFrom? start source.toList offset).getD (after source.toList)

/-- A position as line and column around a colon. -/
def text (position : Position) : String :=
  toString position.line ++ ":" ++ toString position.column

/-- The position after two texts is reached through the position after the first. -/
theorem after_append (first second : List Char) :
    after (first ++ second) = second.foldl advance (after first) :=
  List.foldl_append

-- Sums start from the numeral zero, also where another zero is in scope.
attribute [local instance (1100)] Zero.ofOfNat0

/-- An offset behind a text is located from the position right after it. -/
theorem locateFrom?_append_add (position : Position) (before rest : List Char) (offset : Nat) :
    locateFrom? position (before ++ rest) ((before.map Char.utf8Size).sum + offset) =
      locateFrom? (before.foldl advance position) rest offset := by
  induction before generalizing position with
  | nil => simp
  | cons char before inductionHypothesis =>
      have positive : 0 < char.utf8Size := char.utf8Size_pos
      have behind : (List.map Char.utf8Size (char :: before)).sum + offset - char.utf8Size =
          (before.map Char.utf8Size).sum + offset := by
        rw [List.map_cons, List.sum_cons]
        omega
      rw [List.cons_append, locateFrom?, behind, if_neg, if_neg, inductionHypothesis]
      · rfl
      all_goals
        rw [List.map_cons, List.sum_cons]
        omega

/-- The offset of a character leads to the position right after the text before it. -/
theorem locateFrom?_append (position : Position) (before rest : List Char) :
    locateFrom? position (before ++ rest) (before.map Char.utf8Size).sum =
      some (before.foldl advance position) := by
  rw [← Nat.add_zero (before.map Char.utf8Size).sum, locateFrom?_append_add]
  cases rest <;> rfl

end Position

end Datalog
