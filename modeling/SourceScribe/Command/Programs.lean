/-
  The three programs, as functions of their arguments and of what is around them.

  A program writes a text and ends with a code, or fails; what it had written before it
  failed stays written.
-/
import SourceScribe.Asdl.Json
import SourceScribe.Asdl.Page
import SourceScribe.Asdl.Parser
import SourceScribe.Command.Arguments
import SourceScribe.Command.Files
import SourceScribe.Conversion.Source
import SourceScribe.Diff.Unified
import SourceScribe.Markup.Document
import SourceScribe.Page.Viewer

namespace SourceScribe.Command

/-- What is around a program: files by name, what comes in, the version of the language, and
    what the language's own parser makes of the module that the program works on. -/
structure World where
  files : List (String × String)
  input : String
  version : List String
  tree : Tree
  tokens : List Token

/-- Why a program fails. -/
inductive Fault where
  /-- A file is not found. -/
  | file (f : FileFault)
  /-- A file is needed and none was named. -/
  | noFileNamed
  /-- A document cannot be read. -/
  | document (f : Markup.Fault)
  /-- A tree has a list that holds a scalar. -/
  | unlistable
  | conversion (c : Conversion.Cause)
  | page (f : Page.Fault)
  | grammar (f : Asdl.Fault)

/-- A fault in words. -/
def Fault.message : Fault → String
  | .file _ => "no such file"
  | .noFileNamed => "no file named"
  | .document _ => "document cannot be read"
  | .unlistable => "list of scalars in the tree"
  | .conversion _ => "module cannot be converted"
  | .page _ => "tree cannot be shown"
  | .grammar _ => "grammar cannot be read or shown"

/-- How a program ends: with a code, or not at all well; and what it wrote. -/
structure Outcome where
  result : Except Fault Nat
  output : String

namespace Outcome

/-- A program that ends well. -/
def done (output : String) : Outcome := ⟨.ok 0, output⟩

/-- A program that fails and has written nothing. -/
def failed (f : Fault) : Outcome := ⟨.error f, ""⟩

end Outcome

/-- Lines, each with a line feed. -/
def printed (lines : List String) : String :=
  String.join (lines.map (· ++ "\n"))

/-- The text of a file, with its newlines as they are. -/
def World.rawFile (w : World) (name : String) : Except Fault String :=
  (findFile w.files name).mapError .file

/-- The text of a file. -/
def World.file (w : World) (name : String) : Except Fault String :=
  (w.rawFile name).map Text.unifyNewlines

/-- Ends a program as its arguments ask for. -/
def refused (help : String) : Refusal → Outcome
  | .misuse => ⟨.ok 2, ""⟩
  | .help => .done help

/-- A named file; an empty name counts as none. -/
def named : Option String → Option String
  | some "" => none
  | name => name

/-! ## Modules to markup and back -/

/-- The options of the converter. -/
def converterUsage : Usage :=
  ⟨[⟨'r', "reverse", .nothing⟩, ⟨'c', "check", .nothing⟩]⟩

/-- How to use the converter. -/
def converterHelp : String :=
  printed
    ["usage: py2xml [-h] [-r] [-c] [MODULE]",
     "",
     "convert python module to XML representation",
     "",
     "positional arguments:",
     "  MODULE         python module, if not specified uses stdin.",
     "",
     "options:",
     "  -h, --help     show this help message and exit",
     "  -r, --reverse  reverse - convert XML back to python code",
     "  -c, --check    display the diff between original file and the roundtrip",
     "                 version"]

/-- The markup of the module in a file, or of what comes in. -/
def convertNamed (w : World) (file : Option String) : Except Outcome String := do
  let (origin, text) ← match file with
    | some name =>
      match w.rawFile name with
      | .ok text => .ok (Conversion.Origin.file, text)
      | .error f => .error (.failed f)
    | none => .ok (Conversion.Origin.memory, w.input)
  match Conversion.convertSource w.version origin ⟨text, w.tree, w.tokens⟩ with
  | .ok m => .ok m.render
  | .error f => .error ⟨.error (.conversion f.cause), printed f.log⟩

/-- Turns what an intermediate step gave into how the program ends. -/
def finish : Except Outcome Outcome → Outcome
  | .ok o => o
  | .error o => o

/-- Shows how a module differs from what is left of it after conversion and back. -/
def checkModule (w : World) : Option String → Outcome
  | none => .failed .noFileNamed
  | some name => finish do
    match w.file name with
    | .error f => .error (.failed f)
    | .ok text =>
      let markup ← convertNamed w (some name)
      match Markup.characterData .text markup with
      | .error f => .error (.failed (.document f))
      | .ok back =>
        let diff := Diff.unified "args.py_file" "" (Text.bareLines text) (Text.bareLines back)
        .ok ⟨.ok (if diff.isEmpty then 0 else 1), printed diff⟩

/-- Writes the module that a document holds. -/
def restoreModule (w : World) (file : Option String) : Outcome :=
  let read (form : Markup.Form) (text : String) : Outcome :=
    match Markup.characterData form text with
    | .ok s => .done s
    | .error f => .failed (.document f)
  match named file with
  | none => read .bytes w.input
  | some name =>
    match w.rawFile name with
    | .ok text => read .file text
    | .error f => .failed f

/-- The converter: a module to markup, a document back to a module, or the difference
    between a module and its conversion there and back. -/
def converter (w : World) (args : List String) : Outcome :=
  match converterUsage.read args with
  | .error r => refused converterHelp r
  | .ok g =>
    if g.has "check" then checkModule w g.argument
    else if g.has "reverse" then restoreModule w g.argument
    else finish ((convertNamed w (named g.argument)).map .done)

/-! ## Views of a syntax tree -/

/-- The options of the tree viewer. -/
def treeViewerUsage : Usage :=
  ⟨[⟨'f', "format", .oneOf ["html", "map", "txt"]⟩]⟩

/-- How to use the tree viewer. -/
def treeViewerHelp : String :=
  printed
    ["usage: astview [-h] [-f FORMAT] [MODULE]",
     "",
     "Super pretty-printer for python modules's AST(abstract syntax tree).",
     "",
     "positional arguments:",
     "  MODULE                python module, if not specified uses stdin.",
     "",
     "options:",
     "  -h, --help            show this help message and exit",
     "  -f FORMAT, --format FORMAT",
     "                        output format one of [html, map, txt], default=html"]

/-- Shows a tree in a format. -/
def showTree (w : World) (format name : String) (lines : List String) : Outcome :=
  if !w.tree.isPlaced then .failed (.conversion .rowWithoutColumn)
  else if format = "map" then
    match w.tree.fullListing with
    | some ls => .done (printed ls)
    | none => .failed .unlistable
  else if format = "txt" then .done (printed [w.tree.dump])
  else
    match ((Page.Viewer.of w.tree lines w.version).page name).1 with
    | .ok page => .done page
    | .error f => .failed (.page f)

/-- The tree viewer: the tree of a module as a page, a listing or a text. -/
def treeViewer (w : World) (args : List String) : Outcome :=
  match treeViewerUsage.read args with
  | .error r => refused treeViewerHelp r
  | .ok g =>
    let format := (g.value? "format").getD "html"
    match named g.argument with
    | none => showTree w format "<stdin>" (Text.physicalLines w.input)
    | some name =>
      match w.file name with
      | .ok text => showTree w format name (Text.physicalLines text)
      | .error f => .failed f

/-! ## Views of a grammar -/

/-- The options of the grammar viewer. -/
def grammarViewerUsage : Usage :=
  ⟨[⟨'f', "format", .oneOf ["html", "json"]⟩]⟩

/-- How to use the grammar viewer. -/
def grammarViewerHelp : String :=
  printed
    ["usage: asdlview [-h] [-f FORMAT] [ASDL]",
     "",
     "ASDL viewer",
     "",
     "positional arguments:",
     "  ASDL                  ASDL file",
     "",
     "options:",
     "  -h, --help            show this help message and exit",
     "  -f FORMAT, --format FORMAT",
     "                        output format one of [html, json], default=html"]

/-- Shows a grammar in a format. -/
def showGrammar (format text : String) : Except Asdl.Fault String := do
  let g ← Asdl.Grammar.read text
  if format = "json" then return g.json else g.page

/-- The grammar viewer: a grammar as a page or as JSON. -/
def grammarViewer (w : World) (args : List String) : Outcome :=
  match grammarViewerUsage.read args with
  | .error r => refused grammarViewerHelp r
  | .ok g =>
    match g.argument with
    | none => .failed .noFileNamed
    | some name =>
      match w.rawFile name with
      | .error f => .failed f
      | .ok text =>
        match showGrammar ((g.value? "format").getD "html") text with
        | .ok shown => .done (printed [shown])
        | .error f => .failed (.grammar f)

end SourceScribe.Command
