/-
  The page of a grammar.

  The types are shown in groups, in two columns: modules, statements and expressions on one
  side, all other sums, the products and the built-in types on the other.  Every group but
  the first three has a colour of its own, taken from the end of a palette.

  `Layout.of` makes the groups and gives out the colours, `Layout.page` writes the page.
-/
import SourceScribe.Asdl.Basic
import SourceScribe.Text.Lower

namespace SourceScribe.Asdl

open Entries

/-! ## Groups and colours -/

/-- The colours of the built-in types. -/
def softColours : List String :=
  ["#CFD0D2", "#E9D4A7", "#C1D18A", "#B296C7", "#55BEED", "#F384AE", "#F1753F"]

/-- The colours that only other groups get. -/
def strongColours : List String :=
  ["#FFE617", "#E8272F", "#E5185D", "#5F3577", "#238ACC", "#143B86", "#799155", "#09811C",
   "#C05C20", "#474D4D", "#003F2E", "#FDB717", "#EF4638"]

/-- A grammar with its groups and its colours. -/
structure Layout where
  grammar : Grammar
  /-- The built-in types. -/
  builtins : List String
  /-- The types of categories that have just one. -/
  products : List String
  /-- The categories of several types. -/
  sums : List String
  /-- Style rules by name. -/
  rules : List (String × String)

/-- Names in order. -/
def sortNames (names : List String) : List String :=
  names.mergeSort fun a b => decide (a ≤ b)

/-- The categories that have a place and a colour of their own. -/
def isMain (name : String) : Bool :=
  name ∈ ["mod", "stmt", "expr"]

/-- The style rule of a built-in type. -/
def builtinRule (colour : String) : String :=
  "\x7bbackground-color:" ++ colour ++ "; border: 2px solid black;\x7d"

/-- The style rule of any other group. -/
def groupRule (colour : String) : String :=
  "\x7bbackground-color:" ++ colour ++ ";\x7d"

/-- Gives every name a rule with the next colour. -/
def colourAll (rule : String → String) :
    (rules : List (String × String)) → (colours names : List String) →
    Except Fault (List (String × String))
  | rules, _, [] => .ok rules
  | _, [], _ :: _ => .error .outOfColours
  | rules, colour :: colours, name :: names =>
    colourAll rule (store rules name (rule colour)) colours names

/-- Makes the groups of a grammar and gives out the colours. -/
def Layout.of (g : Grammar) : Except Fault Layout := do
  let others := (g.categories.map (·.2)).filter fun c => !isMain c.name
  let own (c : Category) : String := c.types.headD ""
  let builtins := sortNames ((others.filter (·.builtin)).map own)
  let defined := others.filter fun c => !c.builtin
  let products := sortNames ((defined.filter fun c => c.types.length = 1).map own)
  let sums := sortNames ((defined.filter fun c => c.types.length ≠ 1).map (·.name))
  let rules ← colourAll builtinRule [] softColours.reverse builtins
  let rules ← colourAll groupRule rules (softColours ++ strongColours).reverse (products ++ sums)
  return ⟨g, builtins, products, sums, rules⟩

/-- The types shown together under a name, and the heading over them. -/
def Layout.group (l : Layout) (name : String) : Except Fault (String × List String) :=
  if name = "builtin" then .ok ("", l.builtins)
  else if name = "product_types" then .ok ("", l.products)
  else
    match l.grammar.categories.lookup name with
    | some c => .ok (c.name, c.types)
    | none => .error (.unknownCategory name)

/-! ## The page -/

/-- All before the style rules of the groups. -/
def pageHead : String :=
  "<html>\n  <head>\n    <style type=\"text/css\">\n"
    ++ "      body\x7b\n      background-color:#b0c4de;\n      \x7d\n\n"
    ++ "      .mod \x7bbackground-color: #8F5E46\x7d\n"
    ++ "      .stmt \x7bbackground-color: #9F8759\x7d\n"
    ++ "      .expr \x7bbackground-color: #96A1A9\x7d\n\n"
    ++ "      .category\x7b\n      clear: both;\n      \x7d\n\n"
    ++ "      .type\x7b\n      border: 1px solid #666666;\n      margin: 2px;\n"
    ++ "      float: left;\n      padding: 3px;\n      \x7d\n\n"
    ++ "      .field\x7b\n      border:2px dashed black;\n      padding: 2px;\n"
    ++ "      font-size:small;\n      display: inline-block;\n      \x7d\n\n"
    ++ "      .col1\x7b\n      position: absolute;\n      width: 48%;\n      \x7d\n\n"
    ++ "      .col2\x7b\n      position: absolute;\n      width: 48%;\n      left: 50%;\n      \x7d\n\n"
    ++ "      /* category colors */\n      "

/-- The style rule of a group, on a line of its own. -/
def ruleLine (r : String × String) : String :=
  "        ." ++ r.1 ++ r.2 ++ "\n      "

/-- A field in the box of its type. -/
def fieldBox (f : Field) : String :=
  "          <span title=\"" ++ f.category ++ "\" class=\"field " ++ f.category ++ "\">"
    ++ f.qualifier ++ f.name ++ "</span>\n        "

/-- The box of a type. -/
def typeBox (t : NodeType) : String :=
  "<div class=\"type " ++ t.category ++ "\">\n        <div>" ++ t.name ++ "</div>\n        "
    ++ String.join (t.fields.map fieldBox) ++ "    </div>"

/-- Names in order, capitals and small letters being the same. -/
def sortFolded (names : List String) : List String :=
  ((names.map fun n => (Text.lower n, n)).mergeSort fun a b => decide (a.1 ≤ b.1)).map (·.2)

/-- The box of a group. -/
def Layout.groupBox (l : Layout) (name : String) : Except Fault String := do
  let (heading, types) ← l.group name
  let boxes := (sortFolded types).filterMap fun n => l.grammar.types.lookup n
  return "          " ++ "          <div class=\"category " ++ heading ++ "\"><span>" ++ heading
    ++ "</span><div>\n            "
    ++ String.join (boxes.map fun t => "            " ++ typeBox t ++ "\n            ")
    ++ "          </div></div>\n        "

/-- The boxes of groups, one after the other. -/
def Layout.groupBoxes (l : Layout) : List String → Except Fault String
  | [] => .ok ""
  | name :: names => do
    let box ← l.groupBox name
    let boxes ← l.groupBoxes names
    return box ++ boxes

/-- A column of groups. -/
def Layout.column (l : Layout) (number : Nat) (groups : List String) : Except Fault String := do
  let boxes ← l.groupBoxes groups
  return "      <div class=\"col" ++ toString number ++ "\">\n        " ++ boxes
    ++ "      </div>\n    "

/-- The page. -/
def Layout.page (l : Layout) : Except Fault String := do
  let left ← l.column 1 ["mod", "stmt", "expr"]
  let right ← l.column 2 (l.sums ++ ["product_types", "builtin"])
  return pageHead ++ String.join ((sortByName l.rules).map ruleLine)
    ++ "    </style>\n  </head>\n\n\n  <body>\n    " ++ left ++ right ++ "  </body>\n</html>"

/-- The page of a grammar. -/
def Grammar.page (g : Grammar) : Except Fault String := do
  (← Layout.of g).page

end SourceScribe.Asdl
