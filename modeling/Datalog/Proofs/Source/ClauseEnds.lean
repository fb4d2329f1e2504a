import Datalog.Proofs.Source.Lexemes
import Datalog.Source.Program

/-!
# Where clauses end

A clause ends with a full stop that stands neither inside a string nor inside a comment nor in
front of a digit (`Cursor.clauseEnd?`). Gaps and lexemes lead from clause to clause (`Scans`),
so no full stop inside of them ends one. The scanner that passes over malformed clauses knows
no comments; where none of them holds a quotation mark or a full stop that it could mistake
(`Quiet`), it finds the same end (`Cursor.skipClause_eq`).
-/

namespace Datalog.Source

/-- The ends of lines by their first characters. -/
theorem endsLine_iff {rest : List Char} :
    EndsLine rest ↔ rest = [] ∨ rest.head? = some '\n' ∨ rest.take 2 = ['\r', '\n'] := by
  constructor
  · rintro (_ | rest | rest) <;> simp
  · rintro (rfl | isNext | areNext)
    · exact .endOfText
    · obtain ⟨others, rfl⟩ := List.head?_eq_some_iff.1 isNext
      exact .lineFeed others
    · rw [← List.take_append_drop 2 rest, areNext]
      exact .carriageReturn (rest.drop 2)

instance (rest : List Char) : Decidable (EndsLine rest) :=
  decidable_of_iff' _ endsLine_iff

/-- Whether a digit follows is decided by the next character. -/
theorem endsDigits_iff {rest : List Char} :
    EndsDigits rest ↔ rest.head?.any Char.isDigit = false := by
  cases rest <;> simp [EndsDigits]

instance (rest : List Char) : Decidable (EndsDigits rest) :=
  decidable_of_iff' _ endsDigits_iff

/-- What a place of a source belongs to: a clause, a string in one, there perhaps behind the
backslash of an escape, or a comment. -/
inductive Region where
  | clause
  | string (escaped : Bool)
  | comment
  deriving DecidableEq

namespace Region

/-- A comment goes on up to the end of its line, and the clause behind it. -/
def ofLine (rest : List Char) : Region :=
  if EndsLine rest then clause else comment

/-- The region behind a character that stands in front of a text. -/
def behind (char : Char) (rest : List Char) : Region → Region
  | clause =>
      if char = '"' then string false
      else if char = '%' ∨ char = '/' ∧ rest.head? = some '/' then ofLine rest
      else clause
  | string true => string false
  | string false =>
      if char = '\\' then string true else if char = '"' then clause else string false
  | comment => ofLine rest

/-- A full stop of a clause ends it, unless a digit follows. -/
def Stops (char : Char) (rest : List Char) (region : Region) : Prop :=
  region = clause ∧ char = '.' ∧ EndsDigits rest

instance (char : Char) (rest : List Char) (region : Region) :
    Decidable (region.Stops char rest) :=
  inferInstanceAs (Decidable (_ ∧ _))

end Region

/-- The cursor behind the full stop that ends a clause, if one does. -/
def clauseEnd? (region : Region) : List Char → Nat → Option Cursor
  | [], _ => none
  | char :: rest, offset =>
      if region.Stops char rest then some ⟨rest, offset + char.utf8Size⟩
      else clauseEnd? (region.behind char rest) rest (offset + char.utf8Size)

/-- The cursor behind the clause that begins here, if a full stop ends it. -/
def Cursor.clauseEnd? (cursor : Cursor) : Option Cursor :=
  Source.clauseEnd? .clause cursor.rest cursor.offset

/-- No comment before the end of the clause holds a quotation mark, or a full stop that would
end the clause outside of the comment. -/
def Quiet (region : Region) : List Char → Prop
  | [] => True
  | char :: rest =>
      region.Stops char rest ∨
        (region = .comment → char ≠ '"' ∧ ¬ Region.clause.Stops char rest) ∧
          Quiet (region.behind char rest) rest

/-- Characters in front of a text lead from one region to another, and none of them ends a
clause. -/
inductive Scans : Region → (chars after : List Char) → Region → Prop where
  | nil (region : Region) (after : List Char) : Scans region [] after region
  | cons {region later : Region} {char : Char} {chars after : List Char}
      (goesOn : ¬ region.Stops char (chars ++ after))
      (others : Scans (region.behind char (chars ++ after)) chars after later) :
      Scans region (char :: chars) after later

namespace Scans

variable {region middle later : Region} {first second chars after : List Char}

/-- Scans may follow each other. -/
theorem append (scans : Scans region first (second ++ after) middle)
    (others : Scans middle second after later) : Scans region (first ++ second) after later := by
  generalize isAfter : second ++ after = whole at scans
  induction scans with
  | nil => exact others
  | cons goesOn _ inductionHypothesis =>
      subst isAfter
      rw [← List.append_assoc] at goesOn inductionHypothesis
      exact .cons goesOn (inductionHypothesis others rfl)

/-- What is scanned does not change where the clause ends. -/
theorem clauseEnd? (scans : Scans region chars after later) (offset : Nat) :
    Source.clauseEnd? region (chars ++ after) offset =
      Source.clauseEnd? later after (offset + textSize chars) := by
  induction scans generalizing offset with
  | nil => rfl
  | @cons region later char chars after goesOn _ inductionHypothesis =>
      rw [List.cons_append, Source.clauseEnd?, if_neg goesOn, inductionHypothesis, Nat.add_assoc]
      rfl

/-- Behind what is scanned comments are as quiet as they are from there on. -/
theorem quiet (scans : Scans region chars after later) (isQuiet : Quiet region (chars ++ after)) :
    Quiet later after := by
  induction scans with
  | nil => exact isQuiet
  | cons goesOn _ inductionHypothesis =>
      rcases isQuiet with stops | ⟨_, isQuiet⟩
      · exact absurd stops goesOn
      · exact inductionHypothesis isQuiet

end Scans

/-- A character that neither begins a string or a comment nor ends a clause. -/
def IsInert (char : Char) : Prop :=
  char ∉ ['"', '%', '/', '.']

instance (char : Char) : Decidable (IsInert char) :=
  inferInstanceAs (Decidable (_ ∉ _))

/-- A class of inert characters. -/
def IsInertClass (class? : Char → Bool) : Prop :=
  ∀ char ∈ ['"', '%', '/', '.'], class? char = false

instance (class? : Char → Bool) : Decidable (IsInertClass class?) :=
  inferInstanceAs (Decidable (∀ char ∈ _, _))

/-- The characters of an inert class are inert. -/
theorem IsInertClass.isInert {class? : Char → Bool} (isInert : IsInertClass class?) {char : Char}
    (inClass : class? char = true) : IsInert char := by
  intro member
  rw [isInert char member] at inClass
  cases inClass

/-- Inert characters lead from clause to clause. -/
theorem scans_inert {chars : List Char} (areInert : ∀ char ∈ chars, IsInert char)
    (after : List Char) : Scans .clause chars after .clause := by
  induction chars with
  | nil => exact .nil .clause after
  | cons char chars inductionHypothesis =>
      obtain ⟨isInert, areInert⟩ := List.forall_mem_cons.1 areInert
      simp only [IsInert, List.mem_cons, List.not_mem_nil, or_false, not_or] at isInert
      obtain ⟨noQuote, noPercent, noSlash, noStop⟩ := isInert
      refine .cons (fun stops => noStop stops.2.1) ?_
      rw [Region.behind, if_neg noQuote, if_neg (by simp [noPercent, noSlash])]
      exact inductionHypothesis areInert

/-- Characters of an inert class lead from clause to clause. -/
theorem scans_class {class? : Char → Bool} {chars : List Char} (isInert : IsInertClass class?)
    (inClass : ∀ char ∈ chars, class? char = true) (after : List Char) :
    Scans .clause chars after .clause :=
  scans_inert (fun char member => isInert.isInert (inClass char member)) after

/-- A line of a comment leads into the clause behind it. -/
theorem scans_line {line after : List Char}
    (inLine : ∀ char ∈ line, Parser.isLineBreak char = false) (ends : EndsLine after) :
    Scans (.ofLine (line ++ after)) line after .clause := by
  induction line with
  | nil =>
      rw [Region.ofLine, List.nil_append, if_pos ends]
      exact .nil .clause after
  | cons char line inductionHypothesis =>
      obtain ⟨noBreak, inLine⟩ := List.forall_mem_cons.1 inLine
      have goesOn : ¬ EndsLine (char :: line ++ after) := by
        intro ends
        rw [ends.isLineBreak char rfl] at noBreak
        cases noBreak
      rw [Region.ofLine, if_neg goesOn]
      exact .cons (fun stops => by cases stops.1) (inductionHypothesis inLine)

/-- A comment leads from clause to clause. -/
theorem scans_comment {mark line after : List Char} (isMark : IsCommentMark mark)
    (inLine : ∀ char ∈ line, Parser.isLineBreak char = false) (ends : EndsLine after) :
    Scans .clause (mark ++ line) after .clause := by
  have scansLine := scans_line inLine ends
  cases isMark with
  | percent => exact .cons (fun stops => by cases stops.2.1) scansLine
  | slashes =>
      -- In front of the second slash the line of the comment has not ended.
      refine .cons (fun stops => by cases stops.2.1) ?_
      exact .cons (fun stops => by cases stops.1) scansLine

/-- A gap leads from clause to clause. -/
theorem Gap.scans {gap after : List Char} (isGap : Gap gap after) :
    Scans .clause gap after .clause := by
  induction isGap with
  | nil after => exact .nil .clause after
  | @blank char gap after isBlank _ inductionHypothesis =>
      have scansBlank := @scans_class Text.isBlank [char] (by decide)
        (List.forall_mem_singleton.2 isBlank) (gap ++ after)
      exact scansBlank.append inductionHypothesis
  | comment isMark inLine ends _ inductionHypothesis =>
      exact (scans_comment isMark inLine ends).append inductionHypothesis

/-- The body of a string stays in the string. -/
theorem Quotes.scans {body text : List Char} (quotes : Quotes body text) (after : List Char) :
    Scans (.string false) body after (.string false) := by
  have noStop {escaped : Bool} {char : Char} {rest : List Char} :
      ¬ (Region.string escaped).Stops char rest := fun stops => by cases stops.1
  induction quotes with
  | nil => exact .nil _ after
  | plain noQuote noBackslash _ inductionHypothesis =>
      refine .cons noStop ?_
      rw [Region.behind, if_neg noBackslash, if_neg noQuote]
      exact inductionHypothesis
  | escape _ _ inductionHypothesis => exact .cons noStop (.cons noStop inductionHypothesis)

/-- A string leads from clause to clause. -/
theorem scans_string {body text : List Char} (quotes : Quotes body text) (after : List Char) :
    Scans .clause (['"'] ++ body ++ ['"']) after .clause := by
  have scansClosing : Scans (.string false) ['"'] after .clause :=
    .cons (fun stops => by cases stops.1) (.nil .clause after)
  refine .cons (fun stops => by cases stops.2.1) ?_
  exact (quotes.scans (['"'] ++ after)).append scansClosing

/-- Digits lead from clause to clause. -/
theorem IsDigits.scans {digits : List Char} (areDigits : IsDigits digits) (after : List Char) :
    Scans .clause digits after .clause :=
  scans_class (by decide) areDigits.areDigits after

/-- A sign leads from clause to clause. -/
theorem IsSign.scans {sign : List Char} (isSign : IsSign sign) (after : List Char) :
    Scans .clause sign after .clause :=
  scans_inert (by cases isSign <;> decide) after

/-- An exponent leads from clause to clause. -/
theorem IsExponent.scans {exponent : List Char} {power : Int}
    (isExponent : IsExponent exponent power) (after : List Char) :
    Scans .clause exponent after .clause := by
  have scansMark {mark : Char} (isMark : mark = 'e' ∨ mark = 'E') (after : List Char) :
      Scans .clause [mark] after .clause :=
    scans_inert (List.forall_mem_singleton.2 (by rcases isMark with rfl | rfl <;> decide)) after
  have scansSign {sign : Char} (isSign : IsInert sign) (after : List Char) :
      Scans .clause [sign] after .clause :=
    scans_inert (List.forall_mem_singleton.2 isSign) after
  cases isExponent with
  | none => exact .nil .clause after
  | unsigned isMark areDigits => exact (scansMark isMark _).append (areDigits.scans after)
  | plus isMark areDigits =>
      exact (scansMark isMark _).append ((scansSign (by decide) _).append (areDigits.scans after))
  | minus isMark areDigits =>
      exact (scansMark isMark _).append ((scansSign (by decide) _).append (areDigits.scans after))

/-- The fraction of a float leads from clause to clause, since a digit follows its point. -/
theorem scans_fraction {fraction : List Char} (areDigits : IsDigits fraction)
    (after : List Char) : Scans .clause (['.'] ++ fraction) after .clause := by
  refine .cons (fun stops => ?_) (areDigits.scans after)
  obtain ⟨digit, others, rfl⟩ := List.exists_cons_of_ne_nil areDigits.nonempty
  have isDigit := areDigits.areDigits digit List.mem_cons_self
  rw [stops.2.2 digit rfl] at isDigit
  cases isDigit

/-- A name leads from clause to clause. -/
theorem IsName.scans {name : List Char} (isName : IsName name) (after : List Char) :
    Scans .clause name after .clause :=
  scans_class (by decide) isName.isNameChar after

/-- A literal leads from clause to clause. -/
theorem Denotes.scans {lexeme : List Char} {value : Value} (denotes : Denotes lexeme value)
    (after : List Char) : Scans .clause lexeme after .clause := by
  cases denotes with
  | null => exact scans_inert (by decide) after
  | truth => exact scans_inert (by decide) after
  | falsehood => exact scans_inert (by decide) after
  | integer isSign areDigits _ => exact (isSign.scans _).append (areDigits.scans after)
  | @float sign whole fraction exponent _ _ isSign isWhole isFraction isExponent _ =>
      rw [List.append_assoc (sign ++ whole)]
      refine .append (.append ?_ (scans_fraction isFraction _)) (isExponent.scans after)
      exact (isSign.scans _).append (isWhole.scans _)
  | string quotes => exact scans_string quotes after
  | keyword isName =>
      exact (scans_inert (List.forall_mem_singleton.2 (by decide)) _).append (isName.scans after)

/-- A place is led to from a cursor of a clause if the clause does not end in front of it. -/
def Cursor.Leads (cursor place : Cursor) (region : Region) : Prop :=
  ∃ chars, cursor.Reads chars place ∧ Scans .clause chars place.rest region

namespace Cursor.Leads

variable {cursor middle place : Cursor} {region : Region}

/-- A cursor of a clause leads to itself. -/
theorem refl (cursor : Cursor) : cursor.Leads cursor .clause :=
  ⟨[], .nil cursor, .nil .clause cursor.rest⟩

/-- A place of the clause leads on to what it leads to. -/
theorem trans (leads : cursor.Leads middle .clause) (others : middle.Leads place region) :
    cursor.Leads place region := by
  obtain ⟨first, readsFirst, scansFirst⟩ := leads
  obtain ⟨second, readsSecond, scansSecond⟩ := others
  rw [readsSecond.rest] at scansFirst
  exact ⟨first ++ second, readsFirst.append readsSecond, scansFirst.append scansSecond⟩

/-- The clause ends where it ends from any place that it leads to. -/
theorem clauseEnd? (leads : cursor.Leads place region) :
    cursor.clauseEnd? = Source.clauseEnd? region place.rest place.offset := by
  obtain ⟨chars, reads, scans⟩ := leads
  rw [Cursor.clauseEnd?, reads.rest, reads.offset]
  exact scans.clauseEnd? cursor.offset

/-- Comments are as quiet from any place that the clause leads to. -/
theorem quiet (leads : cursor.Leads place region) (isQuiet : Quiet .clause cursor.rest) :
    Quiet region place.rest := by
  obtain ⟨chars, reads, scans⟩ := leads
  rw [reads.rest] at isQuiet
  exact scans.quiet isQuiet

end Cursor.Leads

/-- A clause ends behind some characters and in front of no digit. -/
theorem exists_reads_of_clauseEnd? {region : Region} {rest : List Char} {offset : Nat}
    {stop : Cursor} (ends : clauseEnd? region rest offset = some stop) :
    ∃ chars, chars ≠ [] ∧ Cursor.Reads ⟨rest, offset⟩ chars stop ∧ EndsDigits stop.rest := by
  induction rest generalizing region offset with
  | nil => cases ends
  | cons char rest inductionHypothesis =>
      have readsFirst : Cursor.Reads ⟨char :: rest, offset⟩ [char]
          ⟨rest, offset + char.utf8Size⟩ := ⟨rfl, rfl⟩
      rw [clauseEnd?] at ends
      split at ends
      next stops =>
        cases ends
        exact ⟨[char], List.cons_ne_nil char [], readsFirst, stops.2.2⟩
      next =>
        obtain ⟨chars, _, reads, endsDigits⟩ := inductionHypothesis ends
        exact ⟨char :: chars, List.cons_ne_nil char chars, readsFirst.append reads, endsDigits⟩

namespace Region

/-- Whether a region belongs to a string. -/
def inString : Region → Bool
  | string _ => true
  | clause | comment => false

/-- Whether the next character belongs to an escape. -/
def isEscaped : Region → Bool
  | string escaped => escaped
  | clause | comment => false

/-- No string goes on behind the end of a line of a comment. -/
@[simp] theorem inString_ofLine (rest : List Char) : (ofLine rest).inString = false := by
  unfold ofLine
  split <;> rfl

/-- No escape goes on behind the end of a line of a comment. -/
@[simp] theorem isEscaped_ofLine (rest : List Char) : (ofLine rest).isEscaped = false := by
  unfold ofLine
  split <;> rfl

end Region

/-- Outside of strings the scanner passes over what neither begins one nor ends the clause. -/
theorem skipClause_of_ne {char : Char} {rest : List Char} {offset : Nat} (noQuote : char ≠ '"')
    (goesOn : ¬ Region.clause.Stops char rest) :
    skipClause false false (char :: rest) offset =
      skipClause false false rest (offset + char.utf8Size) := by
  have noStop : ¬ (char = '.' ∧ rest.head?.any Char.isDigit = false) :=
    fun stops => goesOn ⟨rfl, stops.1, endsDigits_iff.2 stops.2⟩
  rw [skipClause]
  simp [noQuote, noStop]

/-- The scanner that knows no comments follows the regions of a clause, except into a comment
with a quotation mark or a full stop. -/
theorem skipClause_cons {region : Region} {char : Char} {rest : List Char} {offset : Nat}
    (goesOn : ¬ region.Stops char rest)
    (isQuiet : region = .comment → char ≠ '"' ∧ ¬ Region.clause.Stops char rest) :
    skipClause region.inString region.isEscaped (char :: rest) offset =
      skipClause (region.behind char rest).inString (region.behind char rest).isEscaped rest
        (offset + char.utf8Size) := by
  cases region with
  | clause =>
      by_cases isQuote : char = '"'
      · subst isQuote
        rfl
      · rw [Region.behind, if_neg isQuote]
        split
        · rw [Region.inString_ofLine, Region.isEscaped_ofLine]
          exact skipClause_of_ne isQuote goesOn
        · exact skipClause_of_ne isQuote goesOn
  | string escaped =>
      cases escaped with
      | true => rfl
      | false =>
          by_cases isBackslash : char = '\\'
          · subst isBackslash
            rfl
          · by_cases isQuote : char = '"' <;>
              simp [skipClause, Region.behind, Region.inString, Region.isEscaped, isBackslash,
                isQuote]
  | comment =>
      obtain ⟨noQuote, goesOn⟩ := isQuiet rfl
      rw [Region.behind, Region.inString_ofLine, Region.isEscaped_ofLine]
      exact skipClause_of_ne noQuote goesOn

/-- Where comments are quiet, the scanner that knows none finds the end of the clause, or else
the end of the text. -/
theorem skipClause_eq {region : Region} {rest : List Char} {offset : Nat}
    (isQuiet : Quiet region rest) :
    skipClause region.inString region.isEscaped rest offset =
      (clauseEnd? region rest offset).getD ⟨[], offset + textSize rest⟩ := by
  induction rest generalizing region offset with
  | nil => rfl
  | cons char rest inductionHypothesis =>
      rw [clauseEnd?]
      split
      next stops =>
        obtain ⟨rfl, rfl, endsDigits⟩ := stops
        rw [endsDigits_iff] at endsDigits
        simp [skipClause, Region.inString, Region.isEscaped, endsDigits]
      next goesOn =>
        obtain stops | ⟨isQuietHere, isQuiet⟩ := isQuiet
        · exact absurd stops goesOn
        · rw [skipClause_cons goesOn isQuietHere, inductionHypothesis isQuiet, Nat.add_assoc]
          rfl

/-- Where comments are quiet, a malformed clause is passed over up to its end. -/
theorem Cursor.skipClause_eq {cursor : Cursor} (isQuiet : Quiet .clause cursor.rest) :
    cursor.skipClause = cursor.clauseEnd?.getD (cursor.skip cursor.rest) := by
  rw [Cursor.skip, List.drop_length]
  exact Source.skipClause_eq isQuiet

end Datalog.Source
