import Datalog.Proofs.Except
import Datalog.Proofs.Source.Lexemes
import Datalog.Proofs.Source.Literals

/-!
# Strings

What a string literal says is what was to be said: the text of a string is read back as this
string, whatever follows it, and a string is read wherever a quoted text stands and nowhere
else (`decodesStrings`).

The parser splits the body off at the quote that ends it and then resolves the escapes. The
same body can be read in turns, without looking ahead for the quote: each turn takes a run of
characters that stand for themselves, or one escape. `Parser.string_eq_stringInTurns` says
that both ways agree on every text, well formed or not.
-/

namespace Datalog

namespace Text.Quoted

/-- Whether a character stands for itself between the quotes of a string. -/
def isPlain (char : Char) : Bool :=
  char != '"' && char != '\\'

/-- Read a body in turns: the text it stands for and what is left, from the quote on. There is
none if an escape is unknown or not finished, or if no turn has begun where it ends. -/
def readInTurns (begun : Bool) (rest : List Char) : Option (List Char × List Char) :=
  match rest with
  | [] => if begun then some ([], []) else none
  | first :: others =>
      if isPlain first then
        (readInTurns true (others.dropWhile isPlain)).map fun read =>
          (first :: others.takeWhile isPlain ++ read.1, read.2)
      else if first = '\\' then
        match others with
        | [] => none
        | char :: others => do
            let meaning ← escaped? char
            let (text, after) ← readInTurns true others
            return (meaning :: text, after)
      else if begun then some ([], first :: others) else none
termination_by rest.length
decreasing_by
  · exact Nat.lt_succ_of_le (List.dropWhile_sublist _).length_le
  · simp only [List.length_cons]
    omega

/-- A character that stands for itself is neither a quote nor a backslash. -/
theorem isPlain_iff {char : Char} : isPlain char = true ↔ char ≠ '"' ∧ char ≠ '\\' := by
  simp [isPlain]

/-- A body is not split between characters that stand for themselves. -/
theorem splitBody_plain {run : List Char} (arePlain : ∀ char ∈ run, isPlain char = true)
    (rest : List Char) :
    splitBody (run ++ rest) = (run ++ (splitBody rest).1, (splitBody rest).2) := by
  induction run with
  | nil => rfl
  | cons char run inductionHypothesis =>
      obtain ⟨isFirst, areOthers⟩ := List.forall_mem_cons.1 arePlain
      obtain ⟨noQuote, noBackslash⟩ := isPlain_iff.1 isFirst
      rw [List.cons_append, splitBody, inductionHypothesis areOthers]
      · rfl
      · exact fun _ _ isBackslash => absurd isBackslash noBackslash
      · exact noQuote

/-- Characters that stand for themselves are taken as they are. -/
theorem unescape_plain {run : List Char} (arePlain : ∀ char ∈ run, isPlain char = true)
    (body : List Char) : unescape (run ++ body) = (unescape body).map (run ++ ·) := by
  induction run with
  | nil => simp
  | cons char run inductionHypothesis =>
      obtain ⟨isFirst, areOthers⟩ := List.forall_mem_cons.1 arePlain
      rw [List.cons_append, unescape_of_ne (isPlain_iff.1 isFirst).2,
        inductionHypothesis areOthers, Option.map_map]
      rfl

/-- A backslash and the character behind it are not split from each other. -/
theorem splitBody_backslash (char : Char) (rest : List Char) :
    splitBody ('\\' :: char :: rest) =
      ('\\' :: char :: (splitBody rest).1, (splitBody rest).2) :=
  rfl

/-- In turns a body is read as it is when it is split off first, unless it is empty and no turn
has begun. -/
theorem readInTurns_eq (begun : Bool) (rest : List Char) :
    readInTurns begun rest =
      if begun = true ∨ (splitBody rest).1 ≠ [] then
        (unescape (splitBody rest).1).map fun text => (text, (splitBody rest).2)
      else none := by
  fun_induction readInTurns begun rest with
  | case1 => rfl
  | case2 begun notBegun =>
      exact (if_neg (not_or_intro notBegun (not_not_intro rfl))).symm
  | case3 begun first others isFirst inductionHypothesis =>
      have arePlain : ∀ char ∈ first :: others.takeWhile isPlain, isPlain char = true :=
        List.forall_mem_cons.2 ⟨isFirst, List.all_eq_true.1 List.all_takeWhile⟩
      have parts : first :: others =
          (first :: others.takeWhile isPlain) ++ others.dropWhile isPlain := by
        rw [List.cons_append, List.takeWhile_append_dropWhile]
      rw [inductionHypothesis, parts, splitBody_plain arePlain, unescape_plain arePlain,
        if_pos (.inl rfl), if_pos (.inr (List.cons_ne_nil _ _)), Option.map_map, Option.map_map]
      rfl
  | case4 begun => simp [splitBody, unescape]
  | case5 begun char others _ inductionHypothesis =>
      rw [splitBody_backslash, unescape_backslash, inductionHypothesis, if_pos (.inl rfl),
        if_pos (.inr (List.cons_ne_nil _ _))]
      cases escaped? char <;> cases unescape (splitBody others).1 <;> rfl
  | case6 first others noPlain noBackslash =>
      obtain rfl : first = '"' := by simpa [isPlain, noBackslash] using noPlain
      rfl
  | case7 begun first others noPlain noBackslash notBegun =>
      obtain rfl : first = '"' := by simpa [isPlain, noBackslash] using noPlain
      exact (if_neg (not_or_intro notBegun (not_not_intro rfl))).symm

/-- A body that is not read in turns is taken to be empty, and so is one that is split off but
has no meaning. -/
theorem getD_readInTurns (rest : List Char) :
    (readInTurns false rest).getD ([], rest) =
      ((unescape (splitBody rest).1).map fun text => (text, (splitBody rest).2)).getD
        ([], rest) := by
  rw [readInTurns_eq]
  by_cases isEmpty : (splitBody rest).1 = []
  · have rest_eq : (splitBody rest).2 = rest := by
      have parts := splitBody_append rest
      rwa [isEmpty] at parts
    rw [if_neg (by simp [isEmpty]), isEmpty, rest_eq]
    rfl
  · rw [if_pos (.inr isEmpty)]

end Text.Quoted

namespace Source

namespace Parser

/-- Read a string in quotes, its body in turns. A body that cannot be read so is taken to be
empty, and then the quote that ends it is missing. -/
def stringInTurns : Parser (List Char × List Char) := do
  let opening ← char '"'
  let rest := (← here).rest
  let (text, after) := (Text.Quoted.readInTurns false rest).getD ([], rest)
  let body ← consume (rest.take (rest.length - after.length))
  let closing ← commit (within "string literal" (char '"'))
  return (opening ++ body ++ closing, text)

/-- No characters are read where nothing stands. -/
theorem consume_nil : consume [] = pure [] :=
  rfl

/-- A string is read in turns as it is read at once, with the same failures. -/
theorem string_eq_stringInTurns : string = stringInTurns := by
  unfold string stringInTurns stringBody
  refine bind_congr fun opening => ?_
  simp only [bind_assoc]
  refine bind_congr fun cursor => ?_
  rw [Text.Quoted.getD_readInTurns]
  have parts := Text.Quoted.splitBody_append cursor.rest
  generalize Text.Quoted.splitBody cursor.rest = split at parts ⊢
  cases Text.Quoted.unescape split.1 with
  | none =>
      rw [Option.map_none, Option.getD_none, Nat.sub_self, List.take_zero, consume_nil]
      simp only [pure_bind]
  | some text =>
      have isBody : cursor.rest.take (cursor.rest.length - split.2.length) = split.1 := by
        rw [← parts, List.length_append, Nat.add_sub_cancel, List.take_left]
      rw [Option.map_some, Option.getD_some, isBody]
      simp only [bind_assoc, pure_bind]

end Parser

/-- Strings are decoded exactly. -/
structure DecodesStrings : Prop where
  /-- The text of a string is read as this string, and what follows it is left. -/
  run_text : ∀ (string : String) (rest : List Char) (offset : Nat),
    Parser.string.run ⟨(Value.string string).text.toList ++ rest, offset⟩ =
      .ok (((Value.string string).text.toList, string.toList),
        ⟨rest, offset + textSize (Value.string string).text.toList⟩)
  /-- A string is read where a quoted text stands between two quotes, and nowhere else. -/
  isOk_run_iff : ∀ cursor, (Parser.string.run cursor).isOk = true ↔
    ∃ body text after, Quotes body text ∧ cursor.rest = '"' :: body ++ '"' :: after
  /-- The result is then what the quoted text stands for, and what follows the closing quote is
  left. -/
  run_eq : ∀ cursor body text after, Quotes body text →
    cursor.rest = '"' :: body ++ '"' :: after →
      Parser.string.run cursor = .ok (('"' :: body ++ ['"'], text),
        ⟨after, cursor.offset + textSize ('"' :: body ++ ['"'])⟩)
  /-- Reading the body in turns, runs of plain characters and single escapes, makes no
  difference. -/
  inTurns : Parser.string = Parser.stringInTurns

/-- What is written for a string is read as it, and what is read as a string is written for
it. -/
theorem decodesStrings : DecodesStrings := by
  have run_eq (cursor : Cursor) (body text after : List Char) (quotes : Quotes body text)
      (isNext : cursor.rest = '"' :: body ++ '"' :: after) :
      Parser.string.run cursor = .ok (('"' :: body ++ ['"'], text),
        ⟨after, cursor.offset + textSize ('"' :: body ++ ['"'])⟩) := by
    refine Parser.run_string_eq_ok_iff.2 ⟨body, rfl, quotes, ?_, rfl⟩
    simpa using isNext
  constructor
  · intro string rest offset
    have isText : (Value.string string).text.toList =
        '"' :: Text.Quoted.escape string.toList ++ ['"'] := by
      rw [Value.text, Text.Quoted.encode, String.toList_ofList]
    rw [isText]
    refine run_eq _ _ _ rest (quotes_escape string.toList) ?_
    simp
  · intro cursor
    constructor
    · intro succeeds
      obtain ⟨⟨⟨lexeme, text⟩, later⟩, isRead⟩ := exists_eq_ok_of_isOk succeeds
      obtain ⟨body, rfl, quotes, reads⟩ := Parser.run_string_eq_ok_iff.1 isRead
      exact ⟨body, text, later.rest, quotes, by simpa using reads.rest⟩
    · rintro ⟨body, text, after, quotes, isNext⟩
      rw [run_eq cursor body text after quotes isNext]
      rfl
  · exact run_eq
  · exact Parser.string_eq_stringInTurns

/-- The string `a"b%` with a line feed in it is followed by what looks like another quote. -/
example : Parser.string.run ⟨['"', 'a', '\\', '"', 'b', '%', '\n', '"', '"'], 3⟩ =
    .ok ((['"', 'a', '\\', '"', 'b', '%', '\n', '"'], ['a', '"', 'b', '%', '\n']),
      ⟨['"'], 11⟩) := by
  decide

end Source

end Datalog
