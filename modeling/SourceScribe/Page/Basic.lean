/-
  The page of a syntax tree.

  Every node becomes a table with its class and its fields; a statement shows, above
  them, the source lines recorded for it.  A node adds its line to the record of the
  nearest statement around it before its own table is written, so a statement shows the
  lines of its descendants only on a page written later.

  `treePage` writes the table of a tree, `filePage` the whole page.
-/
import SourceScribe.Language.Classes
import SourceScribe.Page.Record
import SourceScribe.Text.Basic
import SourceScribe.Text.Columns
import SourceScribe.Tree.Dump

namespace SourceScribe.Page

/-- Why a page cannot be written. -/
inductive Fault where
  /-- The classes of the language were not loaded. -/
  | notLoaded
  /-- The layout of tables was not loaded. -/
  | noLayout
  /-- The language has no such class. -/
  | unknownClass (cls : String)
  /-- The search for the start of a string left the source. -/
  | leftSource
  /-- A node lacks a field that its class has. -/
  | missingField (name : String)
  /-- A recorded line is not in the source. -/
  | noSuchLine (line : Int)
  /-- There are no classes for this version of the language. -/
  | version (f : Language.VersionFault)
deriving DecidableEq

/-- A step of writing a page. -/
abbrev Writing (α : Type) := EStateM Fault Record α

/-- What is needed to write a page. -/
structure Press where
  /-- The lines of the source. -/
  lines : List String
  /-- The classes of the language, once loaded. -/
  classes : Option (List Language.ClassInfo)
  /-- Whether the layout of tables is loaded. -/
  layout : Bool

/-! ## Source lines of a statement -/

/-- The line at a number, which counts from the end of the source if it is not
    positive. -/
def lineAt? (lines : List String) (number : Int) : Option String :=
  Text.signedGet? lines (number - 1)

/-- Whether a line begins with a triple quote. -/
def opensString (line : String) : Bool :=
  "\"\"\"".toList.isPrefixOf (Text.strip line).toList

/-- Adds a line to the record of a statement. -/
def note (statement : Path) (line : Int) : Writing Unit :=
  modify fun r => r.add statement line

/-- Goes up from line `number` to a line that begins with a triple quote, and adds every
    line it comes to after the first. -/
def climb (lines : List String) (statement : Path) (number : Int) : Writing Unit := do
  if _h : number - 1 < -(lines.length : Int) then throw .leftSource
  else
    match lineAt? lines number with
    | none => throw .leftSource
    | some line =>
      if opensString line then return ()
      else
        note statement (number - 1)
        climb lines statement (number - 1)
termination_by (number + lines.length).toNat
decreasing_by omega

/-- Adds the lines of a string that ends on line `number`.  If that line has nothing but
    the closing quotes, the line above it is added first. -/
def noteString (lines : List String) (statement : Path) (number : Int) : Writing Unit := do
  match lineAt? lines number with
  | none => throw .leftSource
  | some line =>
    if (Text.strip line).length = 3 then
      note statement (number - 1)
      climb lines statement (number - 1)
    else climb lines statement number

/-! ## Tables -/

/-- Position numbers in brackets. -/
def numbers (places : List Int) : String :=
  "[" ++ ", ".intercalate (places.map toString) ++ "]"

/-- The first rows of a node's table. -/
def tableHead (category cls : String) (places : List Int) : String :=
  "     <div class=\"" ++ category ++ " node_tbl\">\n       <table>\n"
    ++ "         <th colspan=\"10\">\n           <span class=\"node_type\">" ++ cls
    ++ "</span>\n           <span class=\"att\">(" ++ numbers places ++ ")</span>\n"
    ++ "         </th>\n\n          "

/-- The row of a source line. -/
def lineRow (number : Int) (line : String) : String :=
  "               <tr class=\"code\"><td colspan=\"10\">\n                 <pre>"
    ++ toString number ++ ": " ++ line ++ "</pre>\n               </td></tr>\n            "

/-- The rows of source lines. -/
def lineRows (lines : List String) : List Int → Writing String
  | [] => pure ""
  | number :: more => do
    match lineAt? lines number with
    | none => throw (.noSuchLine number)
    | some line =>
      let rows ← lineRows lines more
      return lineRow number line ++ rows

/-- The source lines recorded for a statement, in its table. -/
def statementLines (lines : List String) (statement : Path) : Writing String := do
  let rows ← lineRows lines ((← get).lines statement)
  return "            " ++ rows ++ "          "

/-- The row of a field. -/
def fieldRow (name value : String) : String :=
  "            <tr>\n              <td class=\"field_name\">" ++ name
    ++ "</td>\n              <td>" ++ value ++ "</td>\n            </tr>\n         "

/-- The rows of the fields in `order`; `owner` is the statement around them. -/
def fieldRows (owner : Option Path) (fields : List (String × (Option Path → Writing String))) :
    List String → Writing String
  | [] => pure ""
  | name :: names => do
    match fields.lookup name with
    | none => throw (.missingField name)
    | some write =>
      let value ← write owner
      let rows ← fieldRows owner fields names
      return fieldRow name value ++ rows

/-- What is known of a class. -/
def classInfo (press : Press) (cls : String) : Writing Language.ClassInfo :=
  match press.classes with
  | none => throw .notLoaded
  | some classes =>
    match classes.find? (·.name = cls) with
    | none => throw (.unknownClass cls)
    | some info => pure info

/-- A scalar in its cell.  A line feed in a text is followed by a break tag. -/
def scalarCell (v : Scalar) : String :=
  let shown := match v with
    | .str s => Text.quote (String.ofList (s.toList.flatMap fun c =>
        if c = '\n' then "\n<br/>".toList else [c]))
    | v => v.text
  "<span class=\"final\">" ++ shown ++ "</span>"

/-- The items of a list, one in a row. -/
def itemTable (items : List String) : String :=
  "<table class=\"field_list\">"
    ++ String.join (items.map fun i => "<tr><td>" ++ i ++ "</td></tr>") ++ "</table>"

/-- Adds the lines of a node to the record. -/
def noteNode (press : Press) (path : Path) (owner : Option Path) (isStatement : Bool) :
    (places : List Int) → Writing Unit
  | [] => pure ()
  | line :: places => do
    match owner with
    | some statement => note statement line
    | none => pure ()
    if isStatement && places.head? = some (-1) then noteString press.lines path line

/-- The table of a node, given how its fields are written. -/
def nodeTable (press : Press) (path : Path) (cls : String) (places : List Int)
    (fields : List (String × (Option Path → Writing String))) (owner : Option Path) :
    Writing String := do
  let info ← classInfo press cls
  let isStatement := info.category = "stmt"
  let owner := if isStatement then some path else owner
  noteNode press path owner isStatement places
  if !press.layout then throw .noLayout
  let source ← if isStatement then statementLines press.lines path else pure ""
  let rows ← fieldRows owner fields info.order
  return tableHead info.category cls places ++ source ++ "       </table>\n       <table>\n         "
    ++ rows ++ "       </table>\n     </div>\n"

mutual

/-- The table of the tree at `path`; `owner` is the statement around it. -/
def treePage (press : Press) (path : Path) : Tree → Option Path → Writing String
  | .leaf v => fun _ => pure (scalarCell v)
  | .list items => fun owner => do
    let cells ← itemPages press path owner 0 items
    return itemTable cells
  | .node cls places fields =>
    nodeTable press path cls places (fieldPages press path fields)

/-- How each field is written. -/
def fieldPages (press : Press) (path : Path) :
    List (String × Tree) → List (String × (Option Path → Writing String))
  | [] => []
  | (name, t) :: fields =>
    (name, treePage press (path.field name) t) :: fieldPages press path fields

/-- The items from index `i` on.  A list inside a list is written on one line. -/
def itemPages (press : Press) (path : Path) (owner : Option Path) (i : Nat) :
    List Tree → Writing (List String)
  | [] => pure []
  | .list inner :: items => do
    let more ← itemPages press path owner (i + 1) items
    return ("<span class=\"final\">" ++ (Tree.list inner).dump ++ "</span>") :: more
  | t :: items => do
    let cell ← treePage press (path.item i) t owner
    let more ← itemPages press path owner (i + 1) items
    return cell :: more

end

/-- The table of a whole tree. -/
def wholeTree (press : Press) (t : Tree) : Writing String :=
  treePage press .root t none

/-! ## The page -/

/-- The style rules of the page, and all before the name of the file. -/
def pageHead : String :=
  "<html>\n  <head>\n    <style type=\"text/css\">\n"
    ++ "    * \x7bfont-size:small;\x7d\n"
    ++ "    .att\x7bfont-size:x-small;\x7d\n"
    ++ "    .node_tbl\x7bborder: 1px solid #66B;\x7d\n"
    ++ "    .node_tbl th\x7btext-align:left;\x7d\n"
    ++ "    .node_tbl td\x7bvertical-align:top;\x7d\n"
    ++ "    .stmt\x7bborder-top: 2px solid #ff8800;\x7d\n"
    ++ "    .mod\x7bborder: hidden;\x7d\n"
    ++ "    .field_list\x7bborder: 2px solid #eef;\x7d\n"
    ++ "    .field_name\x7bbackground-color:#eef;\x7d\n"
    ++ "    .node_type\x7bbackground-color:#99B;\x7d\n"
    ++ "    .final\x7bbackground-color:#A88;\x7d\n"
    ++ "    .code\x7bbackground-color:#ff8800;\x7d\n"
    ++ "    pre\x7bfont-size:13px;margin-bottom:0;\x7d\n"
    ++ "    </style>\n  </head>\n\n  <body>\n    <h4>"

/-- The page of a file. -/
def filePage (press : Press) (name : String) (t : Tree) : Writing String := do
  let table ← wholeTree press t
  return pageHead ++ name ++ "</h4>\n    " ++ table ++ "\n  </body>\n</html>"

end SourceScribe.Page
