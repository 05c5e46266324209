/-
  Reading a grammar from its text.

  The first line lists the built-in types.  Comments reach from two hyphens to the end of
  the line.  The definitions stand between braces; a definition begins on a line with an
  equals sign and goes on up to the next such line.  It names a category and, between bars,
  its types, each with its fields in parentheses, and perhaps at the end the attributes
  that all of them have.

  `Grammar.read` reads a whole text, `definitions` cuts it into definitions, and `define`
  adds one definition to a grammar; what `define` has stored when it fails stays stored.
-/
import SourceScribe.Asdl.Basic
import SourceScribe.Text.Basic
import SourceScribe.Text.Lines

namespace SourceScribe.Asdl

/-- A step of reading a grammar. -/
abbrev Reading (α : Type) := EStateM Fault Grammar α

/-! ## Fields and types -/

/-- A field from its name and its category with its qualifier. -/
def Field.ofWords (name category : String) : Except Fault Field :=
  let cs := (Text.strip category).toList
  match cs.getLast? with
  | none => .error .fieldWithoutCategory
  | some q =>
    if q = '*' || q = '?' then
      .ok ⟨Text.strip name, String.ofList cs.dropLast, String.singleton q⟩
    else .ok ⟨Text.strip name, String.ofList cs, ""⟩

/-- A field from its text: a category, a blank and a name. -/
def Field.ofText (s : String) : Except Fault Field :=
  match Text.splitOn " " (Text.strip s) with
  | category :: name :: _ => Field.ofWords name category
  | _ => .error .fieldWithoutName

/-- Fields from their texts. -/
def fieldsOf : List String → Except Fault (List Field)
  | [] => .ok []
  | s :: ss => do
    let f ← Field.ofText s
    let fs ← fieldsOf ss
    return f :: fs

/-- A type from the texts of its fields. -/
def NodeType.ofTexts (name category : String) (fields attributes : List String) :
    Except Fault NodeType := do
  return ⟨name, category, ← fieldsOf fields, attributes⟩

/-! ## Definitions -/

/-- The pieces between commas in the first pair of parentheses; none without one. -/
def inParentheses (s : String) : List String :=
  match Text.splitOn "(" s with
  | _ :: inside :: _ => Text.splitOn "," (Text.before ")" inside)
  | _ => []

/-- Puts lines together to definitions.  `current` is the definition being put together. -/
def gather : Option String → List String → Except Fault (List (Option String))
  | current, [] => .ok [current]
  | current, line :: lines =>
    if (Text.strip line).isEmpty then gather current lines
    else if line.toList.contains '=' then
      match current with
      | none => gather (some line) lines
      | some d => do return some d :: (← gather (some line) lines)
    else
      match current with
      | none => .error .noEqualsSign
      | some d => gather (some (d ++ line)) lines

/-- The text between the braces, if there is just one pair of them. -/
def betweenBraces (s : String) : Except Fault String :=
  match Text.splitOn "\x7b" s with
  | [_, right] =>
    match Text.splitOn "\x7d" right with
    | [content, _] => .ok content
    | _ => .error .badBraces
  | _ => .error .badBraces

/-- The definitions in the lines of a text.  With no definition, there is one that is
    missing. -/
def definitions (lines : List String) : Except Fault (List (Option String)) := do
  let content ← betweenBraces (String.join (lines.map (Text.before "--")))
  gather none (Text.logicalLines content)

/-- Adds the types of a sum one after the other, and gives their names. -/
def addConstructors (category : String) (attributes : List String) :
    List String → Reading (List String)
  | [] => pure []
  | c :: cs => do
    let name := Text.strip (Text.before "(" c)
    match NodeType.ofTexts name category (inParentheses c) attributes with
    | .error f => throw f
    | .ok t =>
      modify fun g => g.addType t
      let names ← addConstructors category attributes cs
      return name :: names

/-- Adds the only type of a product, and gives its name: that of the category if it has
    none. -/
def addProduct (category : String) (attributes : List String) (c : String) :
    Reading (List String) := do
  let own := Text.strip (Text.before "(" c)
  let name := if own = "" then category else own
  match NodeType.ofTexts name category (inParentheses c) attributes with
  | .error f => throw f
  | .ok t =>
    modify fun g => g.addType t
    return [name]

/-- Adds a definition. -/
def define (definition : String) : Reading Unit := do
  match Text.splitOn "=" definition with
  | [left, right] =>
    let category := Text.strip left
    let parts := Text.splitOn "attributes" right
    if parts.length ≥ 3 then throw .severalAttributeLists
    let attributes := match parts with
      | [_, list] => inParentheses list
      | _ => []
    let constructors := (Text.splitOn "|" (parts.headD "")).map Text.strip
    let names ← match constructors with
      | [c] => addProduct category attributes c
      | cs => addConstructors category attributes cs
    modify fun g => g.addCategory category ⟨category, names, false⟩
  | _ => throw .severalEqualsSigns

/-- Adds definitions one after the other. -/
def defineAll : List (Option String) → Reading Unit
  | [] => pure ()
  | none :: _ => throw .noDefinition
  | some d :: ds => do
    define d
    defineAll ds

/-! ## Whole grammars -/

/-- Adds a built-in type from its piece of the first line: the type is the last word of the
    piece, and the category is the whole piece. -/
def addBuiltin (g : Grammar) (piece : String) : Grammar :=
  let name := (Text.splitOn " " piece).getLastD ""
  (g.addCategory piece ⟨piece, [name], true⟩).addType ⟨name, piece, [], []⟩

/-- The grammar of the built-in types on the first line. -/
def builtins (line : String) : Grammar :=
  (Text.splitOn "," line).foldl addBuiltin .empty

/-- Reads a grammar. -/
def Grammar.read (s : String) : Except Fault Grammar := do
  let lines := Text.physicalLines (Text.unifyNewlines s)
  match lines with
  | [] => .error .noFirstLine
  | first :: _ =>
    let ds ← definitions lines
    match defineAll ds (builtins first) with
    | .ok _ g => .ok g
    | .error f _ => .error f

end SourceScribe.Asdl
