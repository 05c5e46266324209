/-
  Classes of syntax-tree nodes, by edition of the language.

  A class has a category and its fields in order.  A class that differs between editions
  has one entry for every span of editions.  An edition is named by the digits of its
  version.

  `classesOf` gives the classes of a version, or why there are none.
-/
namespace SourceScribe.Language

/-! ## Editions -/

/-- The editions whose classes are known. -/
inductive Edition where
  | v25 | v26 | v27 | v30 | v31 | v32 | v33 | v34
deriving DecidableEq

namespace Edition

/-- All editions, the oldest first. -/
def all : List Edition :=
  [v25, v26, v27, v30, v31, v32, v33, v34]

/-- The digits that name an edition. -/
def digits : Edition → String
  | v25 => "25"
  | v26 => "26"
  | v27 => "27"
  | v30 => "30"
  | v31 => "31"
  | v32 => "32"
  | v33 => "33"
  | v34 => "34"

/-- The age of an edition. -/
def rank : Edition → Nat
  | v25 => 0
  | v26 => 1
  | v27 => 2
  | v30 => 3
  | v31 => 4
  | v32 => 5
  | v33 => 6
  | v34 => 7

end Edition

/-- Why a version number has no edition. -/
inductive VersionFault where
  /-- It has no minor number. -/
  | incomplete
  /-- There is no such edition. -/
  | unknown
deriving DecidableEq

/-- The edition of a version number, which is a major and a minor number; further parts of
    it do not matter. -/
def Edition.ofVersion : List String → Except VersionFault Edition
  | major :: minor :: _ =>
    match all.find? fun e => e.digits = major ++ minor with
    | some e => .ok e
    | none => .error .unknown
  | _ => .error .incomplete

/-! ## Classes -/

/-- What is known of a class of nodes: its name, its category and its fields in order. -/
structure ClassInfo where
  name : String
  category : String
  order : List String
deriving DecidableEq

/-- A class with the editions in which it is so. -/
structure Entry where
  info : ClassInfo
  first : Edition
  last : Edition

/-- Whether the entry holds for an edition. -/
def Entry.covers (e : Entry) (v : Edition) : Bool :=
  e.first.rank ≤ v.rank && v.rank ≤ e.last.rank

/-- Classes of whole modules. -/
def moduleClasses : List Entry :=
  [⟨⟨"Expression", "mod", ["body"]⟩, .v25, .v34⟩,
   ⟨⟨"Interactive", "mod", ["body"]⟩, .v25, .v34⟩,
   ⟨⟨"Module", "mod", ["body"]⟩, .v25, .v34⟩,
   ⟨⟨"Suite", "mod", ["body"]⟩, .v25, .v34⟩]

/-- Classes of statements. -/
def statementClasses : List Entry :=
  [⟨⟨"Assert", "stmt", ["test", "msg"]⟩, .v25, .v34⟩,
   ⟨⟨"Assign", "stmt", ["targets", "value"]⟩, .v25, .v34⟩,
   ⟨⟨"AugAssign", "stmt", ["target", "op", "value"]⟩, .v25, .v34⟩,
   ⟨⟨"Break", "stmt", []⟩, .v25, .v34⟩,
   ⟨⟨"ClassDef", "stmt", ["name", "bases", "body"]⟩, .v25, .v25⟩,
   ⟨⟨"ClassDef", "stmt", ["name", "bases", "body", "*decorator_list"]⟩, .v26, .v26⟩,
   ⟨⟨"ClassDef", "stmt", ["name", "bases", "body", "decorator_list"]⟩, .v27, .v27⟩,
   ⟨⟨"ClassDef", "stmt",
     ["name", "bases", "keywords", "starargs", "kwargs", "body", "*decorator_list"]⟩, .v30, .v31⟩,
   ⟨⟨"ClassDef", "stmt",
     ["name", "bases", "keywords", "starargs", "kwargs", "body", "decorator_list"]⟩, .v32, .v34⟩,
   ⟨⟨"Continue", "stmt", []⟩, .v25, .v34⟩,
   ⟨⟨"Delete", "stmt", ["targets"]⟩, .v25, .v34⟩,
   ⟨⟨"Exec", "stmt", ["body", "globals", "locals"]⟩, .v25, .v27⟩,
   ⟨⟨"Expr", "stmt", ["value"]⟩, .v25, .v34⟩,
   ⟨⟨"For", "stmt", ["target", "iter", "body", "orelse"]⟩, .v25, .v34⟩,
   ⟨⟨"FunctionDef", "stmt", ["name", "args", "body", "decorator_list"]⟩, .v26, .v27⟩,
   ⟨⟨"FunctionDef", "stmt", ["name", "args", "body", "decorator_list", "returns"]⟩, .v30, .v34⟩,
   ⟨⟨"FunctionDef", "stmt", ["name", "args", "body", "decorators"]⟩, .v25, .v25⟩,
   ⟨⟨"Global", "stmt", ["names"]⟩, .v25, .v34⟩,
   ⟨⟨"If", "stmt", ["test", "body", "orelse"]⟩, .v25, .v34⟩,
   ⟨⟨"Import", "stmt", ["names"]⟩, .v25, .v34⟩,
   ⟨⟨"ImportFrom", "stmt", ["module", "names", "level"]⟩, .v25, .v34⟩,
   ⟨⟨"Nonlocal", "stmt", ["names"]⟩, .v30, .v34⟩,
   ⟨⟨"Pass", "stmt", []⟩, .v25, .v34⟩,
   ⟨⟨"Print", "stmt", ["dest", "values", "nl"]⟩, .v25, .v27⟩,
   ⟨⟨"Raise", "stmt", ["exc", "cause"]⟩, .v30, .v34⟩,
   ⟨⟨"Raise", "stmt", ["type", "inst", "tback"]⟩, .v25, .v27⟩,
   ⟨⟨"Return", "stmt", ["value"]⟩, .v25, .v34⟩,
   ⟨⟨"Try", "stmt", ["body", "handlers", "orelse", "finalbody"]⟩, .v33, .v34⟩,
   ⟨⟨"TryExcept", "stmt", ["body", "handlers", "orelse"]⟩, .v25, .v32⟩,
   ⟨⟨"TryFinally", "stmt", ["body", "finalbody"]⟩, .v25, .v32⟩,
   ⟨⟨"While", "stmt", ["test", "body", "orelse"]⟩, .v25, .v34⟩,
   ⟨⟨"With", "stmt", ["context_expr", "optional_vars", "body"]⟩, .v25, .v32⟩,
   ⟨⟨"With", "stmt", ["items", "body"]⟩, .v33, .v34⟩]

/-- Classes of expressions. -/
def expressionClasses : List Entry :=
  [⟨⟨"Attribute", "expr", ["value", "attr", "ctx"]⟩, .v25, .v34⟩,
   ⟨⟨"BinOp", "expr", ["left", "op", "right"]⟩, .v25, .v34⟩,
   ⟨⟨"BoolOp", "expr", ["op", "values"]⟩, .v25, .v34⟩,
   ⟨⟨"Bytes", "expr", ["s"]⟩, .v30, .v34⟩,
   ⟨⟨"Call", "expr", ["func", "args", "keywords", "starargs", "kwargs"]⟩, .v25, .v34⟩,
   ⟨⟨"Compare", "expr", ["left", "ops", "comparators"]⟩, .v25, .v34⟩,
   ⟨⟨"Dict", "expr", ["keys", "values"]⟩, .v25, .v34⟩,
   ⟨⟨"DictComp", "expr", ["key", "value", "generators"]⟩, .v27, .v34⟩,
   ⟨⟨"Ellipsis", "expr", []⟩, .v30, .v34⟩,
   ⟨⟨"GeneratorExp", "expr", ["elt", "generators"]⟩, .v25, .v34⟩,
   ⟨⟨"IfExp", "expr", ["test", "body", "orelse"]⟩, .v25, .v34⟩,
   ⟨⟨"Lambda", "expr", ["args", "body"]⟩, .v25, .v34⟩,
   ⟨⟨"List", "expr", ["elts", "ctx"]⟩, .v25, .v34⟩,
   ⟨⟨"ListComp", "expr", ["elt", "generators"]⟩, .v25, .v34⟩,
   ⟨⟨"Name", "expr", ["id", "ctx"]⟩, .v25, .v34⟩,
   ⟨⟨"NameConstant", "expr", ["value"]⟩, .v34, .v34⟩,
   ⟨⟨"Num", "expr", ["n"]⟩, .v25, .v34⟩,
   ⟨⟨"Repr", "expr", ["value"]⟩, .v25, .v27⟩,
   ⟨⟨"Set", "expr", ["elts"]⟩, .v27, .v34⟩,
   ⟨⟨"SetComp", "expr", ["elt", "generators"]⟩, .v27, .v34⟩,
   ⟨⟨"Starred", "expr", ["value", "ctx"]⟩, .v30, .v34⟩,
   ⟨⟨"Str", "expr", ["s"]⟩, .v25, .v34⟩,
   ⟨⟨"Subscript", "expr", ["value", "slice", "ctx"]⟩, .v25, .v34⟩,
   ⟨⟨"Tuple", "expr", ["*elts", "ctx"]⟩, .v25, .v25⟩,
   ⟨⟨"Tuple", "expr", ["elts", "ctx"]⟩, .v26, .v34⟩,
   ⟨⟨"UnaryOp", "expr", ["op", "operand"]⟩, .v25, .v34⟩,
   ⟨⟨"Yield", "expr", ["value"]⟩, .v25, .v34⟩,
   ⟨⟨"YieldFrom", "expr", ["value"]⟩, .v33, .v34⟩]

/-- What an expression is there for. -/
def contextClasses : List Entry :=
  [⟨⟨"AugLoad", "expr_context", []⟩, .v25, .v34⟩,
   ⟨⟨"AugStore", "expr_context", []⟩, .v25, .v34⟩,
   ⟨⟨"Del", "expr_context", []⟩, .v25, .v34⟩,
   ⟨⟨"Load", "expr_context", []⟩, .v25, .v34⟩,
   ⟨⟨"Param", "expr_context", []⟩, .v25, .v34⟩,
   ⟨⟨"Store", "expr_context", []⟩, .v25, .v34⟩]

/-- Classes of slices. -/
def sliceClasses : List Entry :=
  [⟨⟨"Ellipsis", "slice", []⟩, .v25, .v27⟩,
   ⟨⟨"ExtSlice", "slice", ["dims"]⟩, .v25, .v34⟩,
   ⟨⟨"Index", "slice", ["value"]⟩, .v25, .v34⟩,
   ⟨⟨"Slice", "slice", ["lower", "upper", "step"]⟩, .v25, .v34⟩]

/-- The operators that join conditions. -/
def boolOperators : List Entry :=
  [⟨⟨"And", "boolop", []⟩, .v25, .v34⟩,
   ⟨⟨"Or", "boolop", []⟩, .v25, .v34⟩]

/-- Binary operators. -/
def binaryOperators : List Entry :=
  [⟨⟨"Add", "operator", []⟩, .v25, .v34⟩,
   ⟨⟨"BitAnd", "operator", []⟩, .v25, .v34⟩,
   ⟨⟨"BitOr", "operator", []⟩, .v25, .v34⟩,
   ⟨⟨"BitXor", "operator", []⟩, .v25, .v34⟩,
   ⟨⟨"Div", "operator", []⟩, .v25, .v34⟩,
   ⟨⟨"FloorDiv", "operator", []⟩, .v25, .v34⟩,
   ⟨⟨"LShift", "operator", []⟩, .v25, .v34⟩,
   ⟨⟨"Mod", "operator", []⟩, .v25, .v34⟩,
   ⟨⟨"Mult", "operator", []⟩, .v25, .v34⟩,
   ⟨⟨"Pow", "operator", []⟩, .v25, .v34⟩,
   ⟨⟨"RShift", "operator", []⟩, .v25, .v34⟩,
   ⟨⟨"Sub", "operator", []⟩, .v25, .v34⟩]

/-- Operators with one operand. -/
def unaryOperators : List Entry :=
  [⟨⟨"Invert", "unaryop", []⟩, .v25, .v34⟩,
   ⟨⟨"Not", "unaryop", []⟩, .v25, .v34⟩,
   ⟨⟨"UAdd", "unaryop", []⟩, .v25, .v34⟩,
   ⟨⟨"USub", "unaryop", []⟩, .v25, .v34⟩]

/-- Comparison operators. -/
def comparisonOperators : List Entry :=
  [⟨⟨"Eq", "cmpop", []⟩, .v25, .v34⟩,
   ⟨⟨"Gt", "cmpop", []⟩, .v25, .v34⟩,
   ⟨⟨"GtE", "cmpop", []⟩, .v25, .v34⟩,
   ⟨⟨"In", "cmpop", []⟩, .v25, .v34⟩,
   ⟨⟨"Is", "cmpop", []⟩, .v25, .v34⟩,
   ⟨⟨"IsNot", "cmpop", []⟩, .v25, .v34⟩,
   ⟨⟨"Lt", "cmpop", []⟩, .v25, .v34⟩,
   ⟨⟨"LtE", "cmpop", []⟩, .v25, .v34⟩,
   ⟨⟨"NotEq", "cmpop", []⟩, .v25, .v34⟩,
   ⟨⟨"NotIn", "cmpop", []⟩, .v25, .v34⟩]

/-- Classes that are the only one of their category. -/
def singleClasses : List Entry :=
  [⟨⟨"ExceptHandler", "excepthandler", ["type", "name", "body"]⟩, .v26, .v34⟩,
   ⟨⟨"alias", "alias", ["name", "asname"]⟩, .v25, .v34⟩,
   ⟨⟨"arg", "arg", ["arg", "annotation"]⟩, .v30, .v34⟩,
   ⟨⟨"arguments", "arguments", ["args", "vararg", "kwarg", "defaults"]⟩, .v25, .v27⟩,
   ⟨⟨"arguments", "arguments",
     ["args", "vararg", "kwonlyargs", "kw_defaults", "kwarg", "defaults"]⟩, .v34, .v34⟩,
   ⟨⟨"arguments", "arguments",
     ["args", "vararg", "varargannotation", "kwonlyargs", "kwarg", "kwargannotation",
      "defaults", "kw_defaults"]⟩, .v30, .v33⟩,
   ⟨⟨"comprehension", "comprehension", ["target", "iter", "ifs"]⟩, .v25, .v34⟩,
   ⟨⟨"excepthandler", "excepthandler",
     ["type", "name", "body", "lineno", "col_offset"]⟩, .v25, .v25⟩,
   ⟨⟨"keyword", "keyword", ["arg", "value"]⟩, .v25, .v34⟩,
   ⟨⟨"withitem", "withitem", ["context_expr", "optional_vars"]⟩, .v33, .v34⟩]

/-- The types of scalars.  Name and category are the pieces of the line that lists them,
    with its blanks and its line feed. -/
def builtinClasses : List Entry :=
  [⟨⟨"bool\n", " bool\n", []⟩, .v25, .v27⟩,
   ⟨⟨"bytes", " bytes", []⟩, .v33, .v34⟩,
   ⟨⟨"identifier", "-- ASDL's five builtin types are identifier", []⟩, .v25, .v27⟩,
   ⟨⟨"identifier", "-- ASDL's five builtin types are identifier", []⟩, .v33, .v33⟩,
   ⟨⟨"identifier", "-- ASDL's four builtin types are identifier", []⟩, .v30, .v32⟩,
   ⟨⟨"identifier", "-- ASDL's six builtin types are identifier", []⟩, .v34, .v34⟩,
   ⟨⟨"int", " int", []⟩, .v25, .v34⟩,
   ⟨⟨"object", " object", []⟩, .v25, .v27⟩,
   ⟨⟨"object", " object", []⟩, .v34, .v34⟩,
   ⟨⟨"object\n", " object\n", []⟩, .v30, .v33⟩,
   ⟨⟨"singleton\n", " singleton\n", []⟩, .v34, .v34⟩,
   ⟨⟨"string", " string", []⟩, .v25, .v34⟩]

/-- All entries. -/
def entries : List Entry :=
  moduleClasses ++ statementClasses ++ expressionClasses ++ contextClasses ++ sliceClasses
    ++ boolOperators ++ binaryOperators ++ unaryOperators ++ comparisonOperators
    ++ singleClasses ++ builtinClasses

/-- The classes of an edition. -/
def classes (v : Edition) : List ClassInfo :=
  (entries.filter fun e => e.covers v).map (·.info)

/-- The classes of a version. -/
def classesOf (version : List String) : Except VersionFault (List ClassInfo) :=
  (Edition.ofVersion version).map classes

end SourceScribe.Language
