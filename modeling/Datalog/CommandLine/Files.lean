/-!
# Files

The command reads its program from a file that a path names. A `FileTree` says which files
there are, so that what a path leads to is a function of the path: its parts are followed
one after the other from the working directory, or from the root behind a slash. An empty
part and `.` stay in place, `..` goes up, and all of them need a directory to start from.
-/

namespace Datalog.CommandLine

/-- Why a path leads to no text. -/
inductive Unreadable where
  | missing
  | forbidden
  | notDirectory
  | isDirectory
  | nameTooLong
  | notText
  deriving DecidableEq, Inhabited

/-- The reason in the words of the operating system. -/
def Unreadable.message : Unreadable → String
  | missing => "No such file or directory (os error 2)"
  | forbidden => "Permission denied (os error 13)"
  | notDirectory => "Not a directory (os error 20)"
  | isDirectory => "Is a directory (os error 21)"
  | nameTooLong => "File name too long (os error 36)"
  | notText => "stream did not contain valid UTF-8"

/-- Something in a tree of files. -/
inductive Entry where
  | file (text : String)
  | directory
  deriving DecidableEq

/-- The files and directories below a root, given by the names that lead to them, and the
directory from which relative paths start. Whatever leads to an entry is a directory. -/
structure FileTree where
  entries : List (List String × Entry)
  workingDirectory : List String

namespace FileTree

/-- The parts of a path around its slashes. -/
def parts : List Char → List (List Char)
  | [] => [[]]
  | char :: rest =>
      match parts rest with
      | [] => []
      | first :: others => if char = '/' then [] :: first :: others else (char :: first) :: others

/-- The place that a path starts from. -/
def origin (tree : FileTree) (path : String) : List String :=
  if path.toList.head? = some '/' then [] else tree.workingDirectory

/-- The place that one part of a path leads to. -/
def step (place : List String) (part : String) : List String :=
  if part = "" ∨ part = "." then place
  else if part = ".." then place.dropLast
  else place ++ [part]

/-- What is at a place. -/
def find? (tree : FileTree) (place : List String) : Option Entry :=
  match tree.entries.lookup place with
  | some entry => some entry
  | none =>
      if tree.entries.any fun entry => place.isPrefixOf entry.1 then some .directory else none

/-- Follow parts of a path to the text of a file. -/
def follow (tree : FileTree) (place : List String) : List String → Except Unreadable String
  | [] =>
      match tree.find? place with
      | some (.file text) => .ok text
      | some .directory => .error .isDirectory
      | none => .error .missing
  | part :: rest =>
      match tree.find? place with
      | some (.file _) => .error .notDirectory
      | some .directory =>
          if 255 < part.utf8ByteSize then .error .nameTooLong
          else tree.follow (step place part) rest
      | none => .error .missing

/-- The text that a path leads to. A path has a bounded length, and the empty one leads
nowhere. -/
def read (tree : FileTree) (path : String) : Except Unreadable String :=
  if path.isEmpty then .error .missing
  else if 4096 ≤ path.utf8ByteSize then .error .nameTooLong
  else tree.follow (tree.origin path) ((parts path.toList).map String.ofList)

/-- The tree with a file at the place that a path leads to. -/
def withFile (tree : FileTree) (path text : String) : FileTree :=
  let place := ((parts path.toList).map String.ofList).foldl step (tree.origin path)
  { tree with entries := (place, .file text) :: tree.entries }

/-- The tree of a command that starts in an empty directory. Standard input is a file as
well, and so is the one that is always empty. -/
def fresh (input : String) : FileTree where
  entries := [
    (["tmp", "work"], .directory),
    (["dev", "stdin"], .file input),
    (["dev", "fd", "0"], .file input),
    (["dev", "null"], .file "")]
  workingDirectory := ["tmp", "work"]

end FileTree

end Datalog.CommandLine
