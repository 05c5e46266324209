/-
  The command line.

  The first argument names the job, the others are its own.  Programs that work on a
  module need the tree and the tokens that the language's own parser makes of it; the
  command line has no parser, so it runs only what needs none: showing a grammar, and
  writing the module that a document holds.
-/
import SourceScribe.Command.Programs

namespace SourceScribe.Command

/-- Whether these arguments of the converter ask for what needs no parser. -/
def needsNoParser (args : List String) : Bool :=
  match converterUsage.read args with
  | .ok g => g.has "reverse" && !g.has "check"
  | .error _ => true

/-- The text of a file, none if it cannot be read. -/
def readFile? (name : String) : IO (Option String) := do
  try
    return some (← IO.FS.readFile name)
  catch _ =>
    return none

/-- What is around a program that works on the file named in these arguments, or on what
    comes in if none is named. -/
def World.gather (usage : Usage) (args : List String) : IO World := do
  match usage.read args with
  | .error _ => return ⟨[], "", [], .leaf .none, []⟩
  | .ok g =>
    match named g.argument with
    | some name =>
      let text ← readFile? name
      return ⟨(text.map fun t => (name, t)).toList, "", [], .leaf .none, []⟩
    | none => return ⟨[], ← (← IO.getStdin).readToEnd, [], .leaf .none, []⟩

/-- Writes what a program wrote, and gives its code. -/
def Outcome.perform (o : Outcome) : IO UInt32 := do
  IO.print o.output
  match o.result with
  | .ok code => return code.toUInt32
  | .error f =>
    IO.eprintln f.message
    return 1

/-- Runs a program. -/
def run (usage : Usage) (program : World → List String → Outcome) (args : List String) :
    IO UInt32 := do
  (program (← World.gather usage args) args).perform

end SourceScribe.Command

open SourceScribe.Command in
/-- Does the job that the first argument names. -/
def main (args : List String) : IO UInt32 := do
  match args with
  | "grammar" :: args => run grammarViewerUsage grammarViewer args
  | "convert" :: args =>
    if needsNoParser args then run converterUsage converter args
    else
      IO.eprintln "a module needs a parser, and none is linked"
      return 1
  | _ =>
    IO.eprintln "usage: grammar [-f FORMAT] [ASDL] | convert -r [MODULE]"
    return 2
