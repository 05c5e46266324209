/-
  Files that match a pattern: all names in one directory that end in the same way.

  `matching` leaves out names that begin with a full stop, as a shell does.
-/
import SourceScribe.Text.Basic

namespace SourceScribe.Tasks

/-- The names on the way to a file.  A full stop stands for the directory itself. -/
def components (path : String) : List String :=
  (Text.splitOn "/" path).filter fun c => c ≠ "" && c ≠ "."

/-- What lies in a directory on the way to a file. -/
def entryIn (directory path : List String) : Option String :=
  if directory.isPrefixOf path then path[directory.length]? else none

/-- All that lies in a directory, each once: files, and directories that hold files. -/
def entriesIn (directory : List String) (files : List String) : List String :=
  (files.filterMap fun f => entryIn directory (components f)).eraseDups

/-- Whether a name ends in this way. -/
def endsIn (suffix name : String) : Bool :=
  suffix.toList.isSuffixOf name.toList

/-- The names in a directory that end in this way and do not begin with a full stop. -/
def matching (directory : List String) (suffix : String) (files : List String) : List String :=
  (entriesIn directory files).filter fun n => endsIn suffix n && n.toList.head? ≠ some '.'

/-- A name without its last characters. -/
def dropEnd (n : Nat) (name : String) : String :=
  String.ofList (name.toList.take (name.length - n))

end SourceScribe.Tasks
