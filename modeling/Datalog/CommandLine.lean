import Datalog.CommandLine.Files
import Datalog.Evaluation.Basic
import Datalog.FactStore.Printer
import Datalog.RuleSet.Compile
import Datalog.Stratification.Report

/-!
# The command line

The command evaluates one program and prints the facts it implies. This module says what it
prints and how it exits, as a function of its options and of the source; reading and writing
are left to the caller. `runIn` also says which source that is, given all files.
-/

namespace Datalog.CommandLine

/-- What the arguments ask for. -/
structure Options where
  file : Option String
  limits : Limits
  relations : List String
  showStrata : Bool
  deriving DecidableEq

namespace Options

/-- The options in force without arguments. -/
def standard : Options := ⟨none, .standard, [], false⟩

/-- A bound as it is written in an argument: decimal digits, perhaps behind a plus sign. -/
def bound? (argument : String) : Option Nat :=
  let digits := match argument.toList with
    | '+' :: digits => digits
    | digits => digits
  let bound := Nat.ofDigitChars 10 digits 0
  if digits.isEmpty || digits.any (!·.isDigit) || 2 ^ 64 ≤ bound then none else some bound

/-- Set the option of a given name. -/
def setNamed? (options : Options) (name value : String) : Option Options :=
  match name with
  | "--max-facts" => (bound? value).map fun bound =>
      { options with limits := { options.limits with maxFacts := bound } }
  | "--max-iterations" => (bound? value).map fun bound =>
      { options with limits := { options.limits with maxPasses := bound } }
  | "--relation" => some { options with relations := options.relations ++ [value] }
  | _ => none

/-- Set the file, which can be given once. -/
def setFile? (options : Options) (name : String) : Option Options :=
  if options.file.isSome then none else some { options with file := some name }

/-- An argument cut at its first equals sign. -/
def splitArgument (argument : String) : String × Option String :=
  let chars := argument.toList
  match chars.dropWhile (· != '=') with
  | _ :: value => (String.ofList (chars.takeWhile (· != '=')), some (String.ofList value))
  | [] => (argument, none)

/-- Add arguments to options; nothing if they are not understood. After a bare `--` every
argument is a file. -/
def addArguments? (options : Options) : List String → Option Options
  | [] => some options
  | "--" :: files => files.foldlM setFile? options
  | "--strata" :: rest => addArguments? { options with showStrata := true } rest
  | argument :: rest =>
      if argument.startsWith "--" then
        match splitArgument argument, rest with
        | (name, some value), rest => do addArguments? (← options.setNamed? name value) rest
        | (name, none), value :: rest => do addArguments? (← options.setNamed? name value) rest
        | (_, none), [] => none
      else if argument.startsWith "-" && argument != "-" then none
      else do addArguments? (← options.setFile? argument) rest

/-- The options that arguments ask for. -/
def ofArguments? (arguments : List String) : Option Options :=
  standard.addArguments? arguments

/-- The name by which messages call the source. -/
def sourceName (options : Options) : String :=
  options.file.getD "<stdin>"

end Options

/-- What a run of the command writes to its two streams, and its exit status. -/
structure Outcome where
  status : UInt8
  output : String
  errors : String
  deriving DecidableEq

/-- A diagnostic about a named source. -/
def located (name : String) (diagnostic : Diagnostic) : String :=
  match diagnostic.position with
  | some position => name ++ ":" ++ position.text ++ ": " ++ diagnostic.message
  | none => name ++ ": " ++ diagnostic.message

/-- A run that ends with diagnostics after some output. -/
def failing (options : Options) (output : String) (diagnostics : List Diagnostic) : Outcome :=
  ⟨1, output, lines (diagnostics.map (located options.sourceName))⟩

/-- The report of the strata, followed by an empty line, if it is asked for. -/
def strataOutput (options : Options) (ruleSet : RuleSet) : String :=
  if options.showStrata then
    match stratify ruleSet with
    | .ok stratification => stratification.report ruleSet ++ "\n"
    | .error _ => ""
  else ""

/-- The facts that are asked for: all of them unless relations are given. -/
def factsOutput (options : Options) (store : FactStore) : String :=
  if options.relations.isEmpty then store.text
  else String.join (options.relations.map store.relationText)

/-- What the command does with its source, if that can be read. -/
def run (options : Options) (source? : Except Unreadable String) : Outcome :=
  match source? with
  | .error reason => failing options "" [⟨reason.message, none⟩]
  | .ok source =>
      match RuleSet.compile source with
      | .error error => failing options "" error.diagnostics
      | .ok ruleSet =>
          let strata := strataOutput options ruleSet
          match ruleSet.evaluate options.limits with
          | .error error => failing options strata error.diagnostics
          | .ok store => ⟨0, strata ++ factsOutput options store, ""⟩

/-- What the command does with some text on standard input and some files around it. -/
def runIn (options : Options) (input : String) (files : FileTree) : Outcome :=
  run options <| match options.file with
    | none => .ok input
    | some path => files.read path

end Datalog.CommandLine
