/-
  Tasks of a build: what they run, what they need and what they make.
-/
import SourceScribe.Entries

namespace SourceScribe.Tasks

/-- A task.  Only its name and the commands that it runs are always there. -/
structure Task where
  /-- The group that the task belongs to. -/
  basename : Option String := none
  name : String
  actions : List String
  /-- The files that the task reads. -/
  needs : Option (List String) := none
  /-- The files that the task writes. -/
  makes : Option (List String) := none
  /-- How much of what the commands write is shown. -/
  verbosity : Option Nat := none
  doc : Option String := none
deriving DecidableEq

/-- A command that works on one file and writes another one. -/
def redirect (command source target : String) : String :=
  command ++ " " ++ source ++ " > " ++ target

/-- Fields with further ones stored in them, each under its name.  The fields themselves are
    given as `d`, so none can be stored under that name. -/
def amend? {α : Type} (fields more : List (String × α)) : Option (List (String × α)) :=
  if more.any (·.1 = "d") then none else some (Entries.update fields more)

/-- Tasks in the order of their names; tasks of one name stay as they are. -/
def sortTasks (tasks : List Task) : List Task :=
  tasks.mergeSort fun a b => decide (a.name ≤ b.name)

end SourceScribe.Tasks
