/-
  Sorts of syntax trees.

  A class of node belongs to a category, and each of its fields has a slot: what
  category it holds, and how often.  A tree fits a slot if every field in it, at any
  depth, holds what its slot says.  The classes are those whose tokens are all written
  out: no imports, deletions, declarations or subscripts.

  A field that its slot allows to be absent or empty may still be required; a list of
  such fields, by class and name, is a parameter of `fits`.  So is whether parameters that
  can only be given by keyword have to come after a starred one.
-/
import SourceScribe.Tree.Basic

namespace SourceScribe.Tree

/-- What a tree stands for. -/
inductive Category where
  | module | statement | handler | expression
  | comprehension | arguments | arg | keyword | withItem
  | context | boolOperator | operator | unaryOperator | comparison
  | identifier | number | string | bytes | singleton
deriving DecidableEq

/-- How often a field holds something.  In a sparse list, items may be absent. -/
inductive Count where
  | one | optional | many | sparse
deriving DecidableEq

/-- What a field holds. -/
structure Slot where
  category : Category
  count : Count
deriving DecidableEq

/-- Fields with what they hold. -/
abbrev Slots := List (String × Slot)

/-! ## Classes -/

/-- The fields of a class of statement. -/
def statementSlots : String → Option Slots
  | "FunctionDef" => some
    [("name", ⟨.identifier, .one⟩), ("args", ⟨.arguments, .one⟩), ("body", ⟨.statement, .many⟩),
      ("decorator_list", ⟨.expression, .many⟩), ("returns", ⟨.expression, .optional⟩)]
  | "ClassDef" => some
    [("name", ⟨.identifier, .one⟩), ("bases", ⟨.expression, .many⟩), ("keywords", ⟨.keyword, .many⟩),
      ("starargs", ⟨.expression, .optional⟩), ("kwargs", ⟨.expression, .optional⟩),
      ("body", ⟨.statement, .many⟩), ("decorator_list", ⟨.expression, .many⟩)]
  | "Return" => some [("value", ⟨.expression, .optional⟩)]
  | "Assign" => some [("targets", ⟨.expression, .many⟩), ("value", ⟨.expression, .one⟩)]
  | "AugAssign" => some
    [("target", ⟨.expression, .one⟩), ("op", ⟨.operator, .one⟩), ("value", ⟨.expression, .one⟩)]
  | "For" => some
    [("target", ⟨.expression, .one⟩), ("iter", ⟨.expression, .one⟩), ("body", ⟨.statement, .many⟩),
      ("orelse", ⟨.statement, .many⟩)]
  | "While" | "If" => some
    [("test", ⟨.expression, .one⟩), ("body", ⟨.statement, .many⟩), ("orelse", ⟨.statement, .many⟩)]
  | "With" => some [("items", ⟨.withItem, .many⟩), ("body", ⟨.statement, .many⟩)]
  | "Raise" => some [("exc", ⟨.expression, .optional⟩), ("cause", ⟨.expression, .optional⟩)]
  | "Try" => some
    [("body", ⟨.statement, .many⟩), ("handlers", ⟨.handler, .many⟩), ("orelse", ⟨.statement, .many⟩),
      ("finalbody", ⟨.statement, .many⟩)]
  | "Assert" => some [("test", ⟨.expression, .one⟩), ("msg", ⟨.expression, .optional⟩)]
  | "Expr" => some [("value", ⟨.expression, .one⟩)]
  | "Pass" | "Break" | "Continue" => some []
  | _ => none

/-- The fields of a class of expression. -/
def expressionSlots : String → Option Slots
  | "BoolOp" => some [("op", ⟨.boolOperator, .one⟩), ("values", ⟨.expression, .many⟩)]
  | "BinOp" => some
    [("left", ⟨.expression, .one⟩), ("op", ⟨.operator, .one⟩), ("right", ⟨.expression, .one⟩)]
  | "UnaryOp" => some [("op", ⟨.unaryOperator, .one⟩), ("operand", ⟨.expression, .one⟩)]
  | "Lambda" => some [("args", ⟨.arguments, .one⟩), ("body", ⟨.expression, .one⟩)]
  | "IfExp" => some
    [("test", ⟨.expression, .one⟩), ("body", ⟨.expression, .one⟩), ("orelse", ⟨.expression, .one⟩)]
  | "Dict" => some [("keys", ⟨.expression, .many⟩), ("values", ⟨.expression, .many⟩)]
  | "Set" => some [("elts", ⟨.expression, .many⟩)]
  | "ListComp" | "SetComp" | "GeneratorExp" => some
    [("elt", ⟨.expression, .one⟩), ("generators", ⟨.comprehension, .many⟩)]
  | "DictComp" => some
    [("key", ⟨.expression, .one⟩), ("value", ⟨.expression, .one⟩),
      ("generators", ⟨.comprehension, .many⟩)]
  | "Yield" => some [("value", ⟨.expression, .optional⟩)]
  | "YieldFrom" => some [("value", ⟨.expression, .one⟩)]
  | "Compare" => some
    [("left", ⟨.expression, .one⟩), ("ops", ⟨.comparison, .many⟩),
      ("comparators", ⟨.expression, .many⟩)]
  | "Call" => some
    [("func", ⟨.expression, .one⟩), ("args", ⟨.expression, .many⟩), ("keywords", ⟨.keyword, .many⟩),
      ("starargs", ⟨.expression, .optional⟩), ("kwargs", ⟨.expression, .optional⟩)]
  | "Num" => some [("n", ⟨.number, .one⟩)]
  | "Str" => some [("s", ⟨.string, .one⟩)]
  | "Bytes" => some [("s", ⟨.bytes, .one⟩)]
  | "NameConstant" => some [("value", ⟨.singleton, .one⟩)]
  | "Ellipsis" => some []
  | "Attribute" => some
    [("value", ⟨.expression, .one⟩), ("attr", ⟨.identifier, .one⟩), ("ctx", ⟨.context, .one⟩)]
  | "Starred" => some [("value", ⟨.expression, .one⟩), ("ctx", ⟨.context, .one⟩)]
  | "Name" => some [("id", ⟨.identifier, .one⟩), ("ctx", ⟨.context, .one⟩)]
  | "List" | "Tuple" => some [("elts", ⟨.expression, .many⟩), ("ctx", ⟨.context, .one⟩)]
  | _ => none

/-- The name of the only class of a category, and its fields. -/
def soleClass : Category → Option (String × Slots)
  | .module => some ("Module", [("body", ⟨.statement, .many⟩)])
  | .handler => some ("ExceptHandler",
    [("type", ⟨.expression, .optional⟩), ("name", ⟨.identifier, .optional⟩),
      ("body", ⟨.statement, .many⟩)])
  | .comprehension => some ("comprehension",
    [("target", ⟨.expression, .one⟩), ("iter", ⟨.expression, .one⟩), ("ifs", ⟨.expression, .many⟩)])
  | .arguments => some ("arguments",
    [("args", ⟨.arg, .many⟩), ("vararg", ⟨.arg, .optional⟩), ("kwonlyargs", ⟨.arg, .many⟩),
      ("kw_defaults", ⟨.expression, .sparse⟩), ("kwarg", ⟨.arg, .optional⟩),
      ("defaults", ⟨.expression, .many⟩)])
  | .arg => some ("arg", [("arg", ⟨.identifier, .one⟩), ("annotation", ⟨.expression, .optional⟩)])
  | .keyword => some ("keyword", [("arg", ⟨.identifier, .one⟩), ("value", ⟨.expression, .one⟩)])
  | .withItem => some ("withitem",
    [("context_expr", ⟨.expression, .one⟩), ("optional_vars", ⟨.expression, .optional⟩)])
  | _ => none

/-- The classes of a category whose classes have no fields. -/
def bareClasses : Category → List String
  | .context => ["Load", "Store", "Del", "AugLoad", "AugStore", "Param"]
  | .boolOperator => ["And", "Or"]
  | .operator =>
    ["Add", "Sub", "Mult", "Div", "Mod", "Pow", "LShift", "RShift", "BitOr", "BitXor", "BitAnd",
      "FloorDiv"]
  | .unaryOperator => ["Invert", "Not", "UAdd", "USub"]
  | .comparison => ["Eq", "NotEq", "Lt", "LtE", "Gt", "GtE", "Is", "IsNot", "In", "NotIn"]
  | _ => []

/-- The fields of a class of a category, if there is such a class. -/
def slots? (k : Category) (cls : String) : Option Slots :=
  match k with
  | .statement => statementSlots cls
  | .expression => expressionSlots cls
  | _ =>
    match soleClass k with
    | some (name, slots) => if cls = name then some slots else none
    | none => if cls ∈ bareClasses k then some [] else none

/-! ## Trees that fit -/

/-- Whether a scalar is of a category. -/
def Category.holds : Category → Scalar → Bool
  | .identifier, .str _ | .string, .str _ | .bytes, .bytes _ => true
  | .number, .int _ | .number, .real _ | .number, .complex _ => true
  | .singleton, .none | .singleton, .bool _ => true
  | _, _ => false

namespace Slot

/-- Whether the slot holds a list. -/
def isMany (s : Slot) : Bool :=
  s.count = .many || s.count = .sparse

/-- The slot of an item of the list that the slot holds. -/
def item (s : Slot) : Slot :=
  ⟨s.category, if s.count = .sparse then .optional else .one⟩

/-- Whether the slot holds the scalar. -/
def admits (s : Slot) (v : Scalar) : Bool :=
  !s.isMany && (s.category.holds v || s.count = .optional && v = .none)

end Slot

/-- Whether a tree stands for anything: not for an absent part or an empty list. -/
def isThere : Tree → Bool
  | leaf v => !v.isEmpty
  | list items => !items.isEmpty
  | node .. => true

/-- Whether a node of the class has the fields that are required. -/
def hasRequired (required : List (String × String)) (cls : String)
    (fields : List (String × Tree)) : Bool :=
  required.all fun r => r.1 ≠ cls || (fields.lookup r.2).all isThere

/-- Whether there is a starred parameter, if there are parameters given by keyword
    only. -/
def isStarred (fields : List (String × Tree)) : Bool :=
  !(fields.lookup "kwonlyargs").any isThere || (fields.lookup "vararg").all isThere

mutual

/-- Whether the tree is what the slot holds. -/
def fits (required : List (String × String)) (starred : Bool) (s : Slot) : Tree → Bool
  | leaf v => s.admits v
  | list items => s.isMany && fitsItems required starred s.item items
  | node cls _ fields =>
    match slots? s.category cls with
    | none => false
    | some slots =>
      !s.isMany && fitsFields required starred slots fields && hasRequired required cls fields
        && (!starred || cls ≠ "arguments" || isStarred fields)

/-- Whether every item is what the slot holds. -/
def fitsItems (required : List (String × String)) (starred : Bool) (s : Slot) :
    List Tree → Bool
  | [] => true
  | t :: items => t.fits required starred s && fitsItems required starred s items

/-- Whether every field is one of the slots and holds what that slot says. -/
def fitsFields (required : List (String × String)) (starred : Bool) (slots : Slots) :
    List (String × Tree) → Bool
  | [] => true
  | (name, t) :: fields =>
    (match slots.lookup name with
      | none => false
      | some s => t.fits required starred s) && fitsFields required starred slots fields

end

/-- What is optional by its slot, but has to be there for the tokens to be written out. -/
def valued : List (String × String) :=
  [("Yield", "value"), ("ExceptHandler", "type")]

/-- As `valued`; and a boolean operation has an operand. -/
def operated : List (String × String) :=
  ("BoolOp", "values") :: valued

/-- Whether the tree is a module that fits. -/
def isModule (required : List (String × String)) (t : Tree) : Bool :=
  t.fits required true ⟨.module, .one⟩

/-- Whether the tree is a statement with all that the tokens need to be written out. -/
def isWhole (t : Tree) : Bool :=
  t.fits operated true ⟨.statement, .one⟩

/-- Whether the tree is a statement, where a `yield` may have no value, an `except` no type,
    and the parameters a star alone. -/
def isStatement (t : Tree) : Bool :=
  t.fits [("BoolOp", "values")] false ⟨.statement, .one⟩

end SourceScribe.Tree
