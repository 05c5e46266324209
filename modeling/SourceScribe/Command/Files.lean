/-
  Files and the paths that lead to them.

  A path is read part by part from the working directory: a part names a file, a directory
  with files in it, the directory itself, or the one above.  What is above the working
  directory is not known, but it is a directory.

  `findFile_self`: a name that is the path of a file leads to that file.
-/
import SourceScribe.Text.Basic

namespace SourceScribe.Command

/-- Why no file is found. -/
inductive FileFault where
  | missing
  | isDirectory
  /-- A part before the last one is a file. -/
  | notDirectory
  /-- The name has a character that no name may have. -/
  | badName
  | nameTooLong
deriving DecidableEq

/-- The parts of a path. -/
def pathParts (path : String) : List String :=
  Text.splitOn "/" path

/-- Whether a part leads nowhere else. -/
def isIdlePart (part : String) : Bool :=
  part = "" || part = "."

/-- The longest name of a file, in bytes. -/
def longestName : Nat := 255

/-- Where the parts lead, outside the working directory: only directories above it are
    known. -/
def findAbove (parts : List String) : FileFault :=
  if parts.all fun p => isIdlePart p || p = ".." then .isDirectory else .missing

/-- The text of the file to which the parts lead from the directory `here`. -/
def findFrom (files : List (List String × String)) :
    (here : List String) → List String → Except FileFault String
  | _, [] => .error .isDirectory
  | here, part :: parts =>
    if isIdlePart part then findFrom files here parts
    else if part = ".." then
      if here.isEmpty then .error (findAbove parts) else findFrom files here.dropLast parts
    else if part.utf8ByteSize > longestName then .error .nameTooLong
    else
      let there := here ++ [part]
      match files.lookup there with
      | some content => if parts.isEmpty then .ok content else .error .notDirectory
      | none =>
        if files.any fun f => there.isPrefixOf f.1 then findFrom files there parts
        else .error .missing

/-- The text of the file to which a path leads. -/
def findFile (files : List (String × String)) (path : String) : Except FileFault String :=
  match files.lookup path with
  | some content => .ok content
  | none =>
    if path = "" then .error .missing
    else if path.toList.contains '\x00' then .error .badName
    else if path.toList.head? = some '/' then .error (findAbove (pathParts path))
    else findFrom (files.map fun f => ((pathParts f.1).filter (!isIdlePart ·), f.2)) [] (pathParts path)

theorem findFile_self (files : List (String × String)) (path content : String) :
    findFile ((path, content) :: files) path = .ok content := by
  simp [findFile]

end SourceScribe.Command
