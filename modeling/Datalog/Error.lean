import Datalog.Rule.Printer
import Datalog.Rule.Safety
import Datalog.Text.Position

/-!
# Errors

What can go wrong between a source text and its facts, as causes: a clause that is
malformed, a clause or rule set that breaks a rule of the language, and a limit of
evaluation that is reached. Each cause has one wording. `Error.diagnostics` gives one
message for each problem, with its position where one is known.
-/

namespace Datalog

/-- Why and where a clause is not well formed: the construct that was being read, the
character that had to follow, and the one that was found instead, if the text does not end
there. -/
structure Malformation where
  position : Position
  construct : Option String
  expected : Option Char
  found : Option Char
  deriving DecidableEq

/-- A rule of the language that is broken. -/
inductive Fault where
  | nonConstantFact (term : String)
  | unknownOperator (lexeme : String)
  | leftOperandNotVariable (lexeme : String)
  | misplacedWildcard (wildcard : String) (place : Place)
  | duplicateField (relation field : String)
  | unsafeVariable (name : String) (place : Place)
  | shapeMismatch (relation : String) (declared used : Shape)
  | unstratifiable (relation : String)
  deriving DecidableEq

/-- A limit of evaluation that is reached. -/
inductive Exhaustion where
  | facts (limit : Nat) (relation : String)
  | passes (limit : Nat) (stratum : Nat)
  deriving DecidableEq

/-- Anything that keeps a source text or a rule set from being evaluated. -/
inductive Error where
  | malformed (clauses : List Malformation)
  | faulty (fault : Fault) (position : Option Position)
  | exhausted (exhaustion : Exhaustion)
  deriving DecidableEq

/-- A message with the position it is about. -/
structure Diagnostic where
  message : String
  position : Option Position
  deriving DecidableEq

/-- A diagnostic with its position in front. -/
def Diagnostic.text (diagnostic : Diagnostic) : String :=
  match diagnostic.position with
  | some position => position.text ++ ": " ++ diagnostic.message
  | none => diagnostic.message

/-- Text between backquotes. -/
def quoted (text : String) : String :=
  "`" ++ text ++ "`"

/-- The message of a malformed clause. -/
def Malformation.message (malformation : Malformation) : String :=
  let found := match malformation.found with
    | some char => quoted char.toString
    | none => "end of input"
  let complaint := match malformation.expected with
    | some char => "expected " ++ quoted char.toString ++ ", found " ++ found
    | none => "unexpected " ++ found
  match malformation.construct with
  | some construct => construct ++ ": " ++ complaint
  | none => complaint

/-- The message of a broken rule. -/
def Fault.message : Fault → String
  | nonConstantFact term => "fact contains non-constant term " ++ quoted term
  | unknownOperator lexeme => "unrecognized comparison operator " ++ quoted lexeme
  | leftOperandNotVariable lexeme => "left operand must be a variable, found " ++ quoted lexeme
  | misplacedWildcard wildcard place =>
      "wildcard " ++ quoted wildcard ++ " is not allowed in " ++ place.description
  | duplicateField relation field =>
      "duplicate field " ++ quoted field ++ " in atom of relation " ++ quoted relation
  | unsafeVariable name place =>
      "unsafe variable " ++ quoted name ++ ": occurs in " ++ place.description ++
        " but in no positive body atom"
  | shapeMismatch relation declared used =>
      "relation shape mismatch for " ++ quoted relation ++ ": declared " ++ declared.text ++
        ", used as " ++ used.text
  | unstratifiable relation =>
      "relation " ++ quoted relation ++ " participates in a negative cycle; unstratifiable"

/-- The message of a limit that is reached. -/
def Exhaustion.message : Exhaustion → String
  | facts limit relation =>
      "fact limit of " ++ toString limit ++ " exceeded while adding to " ++ quoted relation
  | passes limit stratum =>
      "iteration limit of " ++ toString limit ++ " passes exceeded in stratum " ++ toString stratum

namespace Error

/-- One diagnostic for each problem. -/
def diagnostics : Error → List Diagnostic
  | malformed clauses => clauses.map fun clause => ⟨clause.message, some clause.position⟩
  | faulty fault position => [⟨fault.message, position⟩]
  | exhausted exhaustion => [⟨exhaustion.message, none⟩]

/-- The position of the first problem that has one. -/
def position? (error : Error) : Option Position :=
  error.diagnostics.findSome? Diagnostic.position

/-- All problems in one line. -/
def message : Error → String
  | error@(malformed _) =>
      "syntax error: " ++ "; ".intercalate (error.diagnostics.map Diagnostic.text)
  | faulty fault (some position) => "compile error at " ++ position.text ++ ": " ++ fault.message
  | faulty fault none => "compile error " ++ fault.message
  | exhausted exhaustion => "resource error: " ++ exhaustion.message

end Error

end Datalog
