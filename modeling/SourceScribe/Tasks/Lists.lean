/-
  The tasks of this project's build.

  Some tasks are always there: tests and samples for the documentation.  Others are made
  for every file that matches a pattern: pages and objects of grammars, pages of sample
  modules, and conversions of sample modules there and back.
-/
import SourceScribe.Tasks.Basic
import SourceScribe.Tasks.Pattern

namespace SourceScribe.Tasks

/-! ## Tasks that are always there -/

/-- Tests. -/
def tests : List Task :=
  let module := "pyreg/asdlview.py"
  [{ name := "unit", actions := ["py.test tests"], verbosity := some 2 },
   { name := "doctest:" ++ module
     needs := some [module]
     actions := ["py.test --doctest-modules --color=yes " ++ module]
     verbosity := some 2 }]

/-- A task that makes one file of the documentation out of another file. -/
def documentationSample (name action source target : String) : Task :=
  { name := name, actions := [action], needs := some [source], makes := some [target] }

/-- Samples for the documentation. -/
def documentationSamples : List Task :=
  let viaTool (tool : String) := tool ++ " %(dependencies)s > %(targets)s"
  let viaScript := "cd doc; python ../%(dependencies)s > ../%(targets)s"
  [documentationSample "asdl" (viaTool "asdlview") "pyreg/asdl/python34.asdl"
     "doc/_sample/python34.asdl.html",
   documentationSample "ast" (viaTool "astview") "doc/sample.py" "doc/_sample/sample.py.html",
   documentationSample "py2xml" (viaTool "py2xml") "doc/sample.py" "doc/_sample/sample.py.xml",
   documentationSample "query" viaScript "doc/query_class.py" "doc/_sample/query_result.txt",
   documentationSample "change" viaScript "doc/change_version.py" "doc/_sample/new_sample.py"]

/-! ## Tasks for grammars -/

/-- The names of the grammars. -/
def grammars (files : List String) : List String :=
  matching ["pyreg", "asdl"] ".asdl" files

/-- The file of a grammar. -/
def grammarFile (name : String) : String :=
  "pyreg/asdl/" ++ name

/-- Makes the page of a grammar. -/
def grammarPage (name : String) : Task :=
  let target := "_output/" ++ name ++ ".html"
  { name := name ++ ".html"
    actions := [redirect "asdlview" (grammarFile name) target]
    needs := some ["pyreg/asdlview.py", "pyreg/templates/asdl.html", grammarFile name]
    makes := some [target] }

/-- Makes the pages of all grammars. -/
def grammarPages (files : List String) : List Task :=
  sortTasks ((grammars files).map grammarPage)

/-- Makes the JSON object of a grammar. -/
def grammarObject (name : String) : Task :=
  let target := grammarFile name ++ ".json"
  { basename := some "asdl_json"
    name := name ++ ".json"
    actions := [redirect "asdlview --format json" (grammarFile name) target]
    needs := some ["pyreg/asdlview.py", "pyreg/templates/ast.html",
      "pyreg/templates/ast_node.html", grammarFile name]
    makes := some [target] }

/-- Makes the JSON objects of all grammars. -/
def grammarObjects (files : List String) : List Task :=
  sortTasks ((grammars files).map grammarObject)

/-! ## Tasks for sample modules -/

/-- The names of the sample modules, without what they all end in. -/
def samples (files : List String) : List String :=
  (matching ["samples"] ".py" files).map (dropEnd 3)

/-- The file of a sample module. -/
def sampleFile (stem : String) : String :=
  "samples/" ++ stem ++ ".py"

/-- Makes the page of a sample module. -/
def treePage (stem : String) : Task :=
  let target := "_output/" ++ stem ++ ".html"
  { basename := some "ast2html"
    name := sampleFile stem
    actions := [redirect "astview" (sampleFile stem) target]
    needs := some ["pyreg/astview.py", sampleFile stem]
    makes := some [target] }

/-- Makes the pages of all sample modules. -/
def treePages (files : List String) : List Task :=
  sortTasks ((samples files).map treePage)

/-- Converts a sample module, converts it back, and compares. -/
def conversion (stem : String) : List Task :=
  let source := sampleFile stem
  let markup := "_output/" ++ stem ++ ".xml"
  let back := "_output/" ++ stem ++ ".py"
  [{ basename := some "py2xml"
     name := source
     actions := [redirect "py2xml" source markup]
     needs := some ["pyreg/py2xml.py", source]
     makes := some [markup]
     doc := some "convert python to XML" },
   { basename := some "xml2py"
     name := source
     actions := [redirect "py2xml --reverse" markup back]
     needs := some ["pyreg/py2xml.py", markup]
     makes := some [back]
     doc := some "convert XML to python" },
   { basename := some "check"
     name := source
     actions := ["diff " ++ source ++ " " ++ back]
     needs := some [source, back]
     doc := some "check roundtrip python version is the same as original" }]

/-- Converts all sample modules. -/
def conversions (files : List String) : List Task :=
  sortTasks ((samples files).flatMap conversion)

/-! ## Round trips -/

/-- The directory with the modules that are checked. -/
def checkedDirectory : String :=
  "/home/eduardo/work/third_party/cpython/Lib"

/-- Whether a module of the checked directory is left out. -/
def isLeftOut (name : String) : Bool :=
  "email".toList.isPrefixOf name.toList

/-- Whether a name is that of a module in the checked directory itself. -/
def isChecked (name : String) : Bool :=
  endsIn ".py" name && !name.toList.contains '/' && !isLeftOut name

/-- Checks that a module comes back unchanged. -/
def roundTrip (name : String) : Task :=
  let file := checkedDirectory ++ "/" ++ name
  { name := name, actions := ["py2xml --check " ++ file], needs := some [file] }

/-- Checks all modules in a directory of these names. -/
def roundTrips (names : List String) : List Task :=
  (names.filter isChecked).map roundTrip

end SourceScribe.Tasks
