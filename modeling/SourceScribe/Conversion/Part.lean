/-
  Parts: the pieces of a syntax tree together with how each is converted.

  The rule for a class of node uses what its fields hold.  So that a rule is a plain
  function, it is given its fields as parts: a part that is a node knows where it
  starts and how it adds its markup to the children of an element.

  The operations on parts are the questions a rule asks.  A part that cannot answer is
  a failure of its own kind: asked for a field, a class or its markup, a scalar is of
  the wrong sort; asked for its items, a node is not a list.
-/
import SourceScribe.Conversion.Cursor
import SourceScribe.Markup.Basic

namespace SourceScribe.Conversion

/-- A step that adds to the children of an element: it is given those that are there, and
    gives those that are there then. -/
abbrev Into := List Markup → Scan (List Markup)

/-- A piece of a syntax tree as a rule sees it.  `letter` is one letter of a text that
    is gone through like a list. -/
inductive Part where
  | leaf (value : Scalar)
  | letter
  | list (items : List Part)
  | node (ref : NodeRef) (fields : List (String × Part)) (start : Except Cause Position)
      (add : Into)

/-- Looks up a field. -/
def fieldOf (fields : List (String × Part)) (name : String) : Scan Part :=
  Scan.orFail (.missingField name) (fields.lookup name)

namespace Part

/-- Adds the part's markup to the children of an element. -/
def addTo : Part → Into
  | node _ _ _ add => add
  | _ => fun _ => Scan.fail .wrongSort

/-- The part's markup in an element of its own. -/
def write (p : Part) : Scan (List Markup) :=
  p.addTo []

/-- The class of the part. -/
def cls : Part → Scan String
  | node ref .. => pure ref.cls
  | _ => Scan.fail .wrongSort

/-- What the part holds in a field. -/
def field (p : Part) (name : String) : Scan Part :=
  match p with
  | node _ fields _ _ => fieldOf fields name
  | _ => Scan.fail .wrongSort

/-- The position that the part is recorded at. -/
def place : Part → Scan Position
  | node ref .. => Scan.orFail .noPosition ref.start?
  | _ => Scan.fail .wrongSort

/-- Where the text of the part starts. -/
def start : Part → Except Cause Position
  | node _ _ s _ => s
  | _ => .error .wrongSort

/-- Whether an optional part is there. -/
def isPresent : Part → Bool
  | leaf v => !v.isEmpty
  | list items => !items.isEmpty
  | letter | node .. => true

/-- Whether the part is a node. -/
def isNode : Part → Bool
  | node .. => true
  | _ => false

/-- The items of the part.  A text or a byte string has its letters for items. -/
def items : Part → Scan (List Part)
  | list items => pure items
  | leaf (.str s) => pure (s.toList.map fun _ => letter)
  | leaf (.bytes bs) => pure (bs.map fun _ => letter)
  | _ => Scan.fail .notAList

/-- The first item of the part. -/
def first (p : Part) : Scan Part := do
  Scan.orFail .outOfSource (← p.items).head?

/-- The part as a text. -/
def asText : Part → Scan String
  | leaf (.str s) => pure s
  | _ => Scan.fail .notAText

/-- The part as the text inside an element: none if the part is absent. -/
def caption (p : Part) : Scan (List Markup) :=
  if p.isPresent then return [.text (← p.asText)] else return []

/-- The part as the value of an attribute: empty if the part is absent. -/
def attrValue : Part → String
  | leaf (.str s) => s
  | _ => ""

/-- A scalar item of a list. -/
def itemValue : Part → Scan Part
  | leaf v => pure (leaf v)
  | list items => pure (list items)
  | letter | node .. => Scan.fail .wrongSort

/-- The plain text of any part. -/
def plain : Part → String
  | leaf v => v.plain
  | letter => ""
  | node ref .. => ref.inConversion
  | list items => "[" ++ ", ".intercalate (items.map fun
      | node ref .. => ref.inConversion
      | leaf v => v.text
      | _ => "") ++ "]"

end Part

/-- A node whose rule is being followed. -/
structure Site where
  ref : NodeRef
  fields : List (String × Part)

namespace Site

/-- What the node holds in a field. -/
def field (n : Site) (name : String) : Scan Part :=
  fieldOf n.fields name

/-- Whether the node has a field. -/
def has (n : Site) (name : String) : Bool :=
  n.fields.any (·.1 = name)

/-- Adds the markup of a field to the children of an element. -/
def addField (n : Site) (name : String) : Into := fun parent => do
  (← n.field name).addTo parent

/-- The markup of a field in an element of its own. -/
def writeField (n : Site) (name : String) : Scan (List Markup) := do
  (← n.field name).write

/-- The class of what a field holds. -/
def fieldCls (n : Site) (name : String) : Scan String := do
  (← n.field name).cls

/-- The items of what a field holds. -/
def fieldItems (n : Site) (name : String) : Scan (List Part) := do
  (← n.field name).items

end Site

/-- Runs a step if it is asked for; if not, nothing is written. -/
def onlyIf (asked : Bool) (m : Scan (List Markup)) : Scan (List Markup) :=
  if asked then m else pure []

/-- Runs a step if it is asked for; if not, nothing is added. -/
def addIf (asked : Bool) (m : Into) : Into := fun parent =>
  if asked then m parent else pure parent

/-- Runs a step for a part that the gap is written for already; if the part is not there,
    nothing more is added. -/
def orIdle (there : Bool) (m : Into) : Into := fun parent =>
  if there then m parent else do
    Scan.idle
    return parent

/-- Runs a step for every item and puts the markup together. -/
def forEach {α : Type} (f : α → Scan (List Markup)) : List α → Scan (List Markup)
  | [] => pure []
  | a :: as => do
    let x ← f a
    let xs ← forEach f as
    return x ++ xs

/-- Runs a step for every item, each of which adds to the children of one element. -/
def addEach {α : Type} (f : α → Into) : List α → Into
  | [], parent => pure parent
  | a :: as, parent => do
    let inside ← f a parent
    addEach f as inside

end SourceScribe.Conversion
