/-
  A grammar as JSON: an object with all types by name, indented by four, names in order,
  and only ASCII characters.
-/
import SourceScribe.Asdl.Basic
import SourceScribe.Text.Quoted

namespace SourceScribe.Asdl

open Entries

/-! ## JSON -/

/-- A value of JSON, as far as grammars need it. -/
inductive Json where
  | str (s : String)
  | arr (items : List Json)
  | obj (entries : List (String × Json))

namespace Json

/-- A 16-bit unit as an escape. -/
def unitEscape (n : Nat) : List Char :=
  '\\' :: 'u' :: Text.hexDigits 4 n

/-- How a character is written in a string. -/
def escapeChar (c : Char) : List Char :=
  let n := c.toNat
  if c = '"' || c = '\\' then ['\\', c]
  else if c = '\n' then ['\\', 'n']
  else if c = '\r' then ['\\', 'r']
  else if c = '\t' then ['\\', 't']
  else if n = 0x08 then ['\\', 'b']
  else if n = 0x0C then ['\\', 'f']
  else if 0x20 ≤ n && n ≤ 0x7E then [c]
  else if n < 0x10000 then unitEscape n
  else
    unitEscape (0xD800 + (n - 0x10000) / 0x400) ++ unitEscape (0xDC00 + (n - 0x10000) % 0x400)

/-- A string of JSON. -/
def quote (s : String) : String :=
  String.ofList ('"' :: s.toList.flatMap escapeChar ++ ['"'])

/-- A new line, indented `depth` times. -/
def newLine (depth : Nat) : String :=
  String.ofList ('\n' :: List.replicate (4 * depth) ' ')

/-- Texts one to a line between brackets; just the brackets if there are none. -/
def bracketed (left right : String) (depth : Nat) (texts : List String) : String :=
  if texts.isEmpty then left ++ right
  else left ++ newLine (depth + 1) ++ ("," ++ newLine (depth + 1)).intercalate texts
    ++ newLine depth ++ right

mutual

/-- A value inside `depth` brackets. -/
def render (depth : Nat) : Json → String
  | str s => quote s
  | arr items => bracketed "[" "]" depth (renderItems (depth + 1) items)
  | obj entries =>
    bracketed "\x7b" "\x7d" depth
      ((sortByName (renderEntries (depth + 1) entries)).map fun e => quote e.1 ++ ": " ++ e.2)

/-- The items of a list. -/
def renderItems (depth : Nat) : List Json → List String
  | [] => []
  | j :: js => j.render depth :: renderItems depth js

/-- The values of an object under their names. -/
def renderEntries (depth : Nat) : List (String × Json) → List (String × String)
  | [] => []
  | (name, j) :: entries => (name, j.render depth) :: renderEntries depth entries

end

end Json

/-! ## Types as JSON -/

/-- The fields of a type by name: category and qualifier. -/
def NodeType.fieldMap (t : NodeType) : List (String × Field) :=
  t.fields.foldl (fun m f => store m f.name f) []

/-- The names of a type's fields in order. -/
def NodeType.order (t : NodeType) : List String :=
  t.fields.map (·.name)

/-- A type as JSON. -/
def NodeType.toJson (t : NodeType) : Json :=
  .obj [("category", .str t.category),
    ("order", .arr (t.order.map .str)),
    ("fields", .obj (t.fieldMap.map fun f =>
      (f.1, .obj [("cat", .str f.2.category), ("q", .str f.2.qualifier)])))]

/-- All types of a grammar as JSON. -/
def Grammar.json (g : Grammar) : String :=
  (Json.obj (g.types.map fun t => (t.1, t.2.toJson))).render 0

end SourceScribe.Asdl
