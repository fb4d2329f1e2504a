/-!
# Quoted strings

A string is written between double quotes, with a backslash before a backslash or a quote
and with `\n` and `\t` for a line feed and a tab; every other character stands for itself.
`escape` writes the body between the quotes, `unescape` reads one, in which a line feed or
a tab may also stand for itself, and `splitBody` finds where a body ends.
-/

namespace Datalog.Text.Quoted

/-- The character a backslash and this character stand for. -/
def escaped? : Char → Option Char
  | '\\' => some '\\'
  | '"' => some '"'
  | 'n' => some '\n'
  | 't' => some '\t'
  | _ => none

/-- How one character of a string is written. -/
def escapeChar : Char → List Char
  | '\\' => ['\\', '\\']
  | '"' => ['\\', '"']
  | '\n' => ['\\', 'n']
  | '\t' => ['\\', 't']
  | char => [char]

/-- The body that is written for a string. -/
def escape (string : List Char) : List Char :=
  string.flatMap escapeChar

/-- The string a body stands for; nothing if a backslash is followed by no known escape. -/
def unescape : List Char → Option (List Char)
  | [] => some []
  | '\\' :: char :: rest => do
      let first ← escaped? char
      let others ← unescape rest
      return first :: others
  | ['\\'] => none
  | char :: rest => (unescape rest).map (char :: ·)

/-- The text up to the first quote that no backslash precedes, and the text from that quote
on. -/
def splitBody : List Char → List Char × List Char
  | [] => ([], [])
  | '\\' :: char :: rest =>
      let (body, after) := splitBody rest
      ('\\' :: char :: body, after)
  | '"' :: rest => ([], '"' :: rest)
  | char :: rest =>
      let (body, after) := splitBody rest
      (char :: body, after)

/-- A string with its quotes and escapes. -/
def encode (string : String) : String :=
  String.ofList ('"' :: escape string.toList ++ ['"'])

/-- Each character is written on its own. -/
theorem escape_cons (char : Char) (rest : List Char) :
    escape (char :: rest) = escapeChar char ++ escape rest :=
  List.flatMap_cons

/-- A backslash begins an escape. -/
theorem unescape_backslash (char : Char) (rest : List Char) :
    unescape ('\\' :: char :: rest) =
      (escaped? char).bind fun first => (unescape rest).map (first :: ·) := by
  rw [unescape]
  cases escaped? char <;> cases unescape rest <;> rfl

/-- Any other character stands for itself. -/
theorem unescape_of_ne {char : Char} (plain : char ≠ '\\') (rest : List Char) :
    unescape (char :: rest) = (unescape rest).map (char :: ·) := by
  rw [unescape]
  · exact fun _ _ equal => absurd equal plain
  · exact fun equal => absurd equal plain

/-- Splitting loses nothing. -/
theorem splitBody_append (text : List Char) : (splitBody text).1 ++ (splitBody text).2 = text := by
  fun_induction splitBody text <;> simp_all

end Datalog.Text.Quoted
