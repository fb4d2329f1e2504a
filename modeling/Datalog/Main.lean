import Datalog.CommandLine

/-!
# The command

Reads the program from the file that is named, or from standard input, and prints the facts
it implies.
-/

namespace Datalog.CommandLine

/-- How the command is called. -/
def usage : String :=
  "usage: datalog [--max-facts N] [--max-iterations N] [--relation NAME]... [--strata] [FILE]\n"

/-- The number of an error; some calls report it with its sign turned. -/
def errorNumber (code : UInt32) : UInt32 :=
  min code (0 - code)

/-- The reason behind a failure to read, if it is one that the command reports. -/
def unreadable? : IO.Error → Option Unreadable
  | .noFileOrDirectory .. => some .missing
  | .permissionDenied .. => some .forbidden
  | .inappropriateType _ code _ =>
      some (if errorNumber code = 21 then .isDirectory else .notDirectory)
  | .invalidArgument _ code _ =>
      if errorNumber code = 36 then some .nameTooLong else none
  | .userError _ => some .notText
  | _ => none

/-- Read the source that the options name. -/
def readSource (options : Options) : IO (Except Unreadable String) := do
  try
    match options.file with
    | none => return .ok (← (← IO.getStdin).readToEnd)
    | some file => return .ok (← IO.FS.readFile file)
  catch error =>
    match unreadable? error with
    | some reason => return .error reason
    | none => throw error

end Datalog.CommandLine

open Datalog.CommandLine in
/-- Evaluate the program that the arguments name. -/
def main (arguments : List String) : IO UInt32 := do
  match Options.ofArguments? arguments with
  | none =>
      (← IO.getStderr).putStr usage
      return 2
  | some options =>
      let outcome := run options (← readSource options)
      (← IO.getStdout).putStr outcome.output
      (← IO.getStderr).putStr outcome.errors
      return outcome.status.toUInt32
