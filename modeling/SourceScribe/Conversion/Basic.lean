/-
  Conversion of a module to markup.

  Every class of node has a rule.  `Tree.toPart` goes through a tree from the leaves up
  and gives every node the step that follows its rule with what its fields hold, so that
  a rule is never more than a function of its parts.

  `convert` is the whole conversion: the markup of the module, with what stands after
  the last statement.  `run` also gives the cursor as it is then.
-/
import SourceScribe.Conversion.Statements
import SourceScribe.Text.Columns
import SourceScribe.Text.Lines

namespace SourceScribe.Conversion

open Markup

/-! ## Where an expression starts -/

/-- Where a node of any other class starts: its recorded place, with the column in
    characters. -/
def recordedStart (lines : List String) (r : NodeRef) : Except Cause Position :=
  match r.start? with
  | none => .error .noPosition
  | some p =>
    match Text.signedGet? lines (p.row - 1) with
    | none => .error .outOfSource
    | some line =>
      match Text.characterColumn? line p.column with
      | none => .error .outOfSource
      | some column => .ok ⟨p.row, column⟩

/-- The start of what a field holds. -/
def startOfField (fields : List (String × Part)) (name : String) : Except Cause Position :=
  match fields.lookup name with
  | none => .error (.missingField name)
  | some p => p.start

/-- Where the text of a node starts.  The recorded place of an expression that begins with
    another expression is not reliable, so that one is asked instead. -/
def startOfNode (lines : List String) (r : NodeRef) (fields : List (String × Part)) :
    Except Cause Position :=
  if r.cls = "Attribute" ∨ r.cls = "Subscript" then startOfField fields "value"
  else if r.cls = "Call" then startOfField fields "func"
  else if r.cls = "BinOp" then
    match fields.lookup "left", r.start? with
    | none, _ => .error (.missingField "left")
    | some _, none => .error .noPosition
    | some left, some p =>
      match left.start with
      | .error c => .error c
      | .ok q => .ok (p.earlier q)
  else recordedStart lines r

/-! ## The rules -/

/-- The rule for an expression, if the class is one. -/
def expressionRule? (n : Site) : Option Into :=
  match n.ref.cls with
  | "Num" => some numberRule
  | "Str" | "Bytes" => some (stringRule n)
  | "Tuple" => some (tupleRule n)
  | "List" | "Set" => some (listRule n)
  | "Dict" => some (dictRule n)
  | "Name" => some (nameRule n)
  | "NameConstant" => some nameConstantRule
  | "Ellipsis" => some ellipsisRule
  | "Starred" => some (starredRule n)
  | "Attribute" => some (attributeRule n)
  | "Subscript" => some (subscriptRule n)
  | "Yield" | "YieldFrom" => some (yieldRule n)
  | "BinOp" => some (binOpRule n)
  | "BoolOp" => some (boolOpRule n)
  | "UnaryOp" => some (unaryOpRule n)
  | "Compare" => some (compareRule n)
  | "Call" => some (callRule n)
  | "IfExp" => some (ifExpRule n)
  | "GeneratorExp" | "ListComp" | "SetComp" | "DictComp" => some (comprehensionRule n)
  | "Lambda" => some (lambdaRule n)
  | _ => none

/-- The rule for a statement, if the class is one. -/
def statementRule? (n : Site) : Option (Scan Markup) :=
  match n.ref.cls with
  | "Expr" => some (exprRule n)
  | "Pass" | "Break" | "Continue" => some (wordRule n)
  | "Assert" => some (assertRule n)
  | "Assign" => some (assignRule n)
  | "Delete" => some (deleteRule n)
  | "Global" | "Nonlocal" => some (declareRule n)
  | "AugAssign" => some (augAssignRule n)
  | "Import" => some (importRule n)
  | "ImportFrom" => some (importFromRule n)
  | "Return" => some (returnRule n)
  | "FunctionDef" => some (functionDefRule n)
  | "ClassDef" => some (classDefRule n)
  | "While" | "If" => some (conditionRule n)
  | "For" => some (forRule n)
  | "Raise" => some (raiseRule n)
  | "Try" => some (tryRule n)
  | "With" => some (withRule n)
  | _ => none

/-- The statements of a module. -/
def moduleRule (n : Site) : Scan (List Markup) := do
  addEach Part.addTo (← n.fieldItems "body") []

/-- The rule for a class that is neither expression nor statement, if there is one.  A
    module inside a tree adds nothing to what is around it. -/
def otherRule? (n : Site) : Option Into :=
  match n.ref.cls with
  | "Module" => some fun parent => do
    let _ ← moduleRule n
    return parent
  | "Index" => some (indexRule n)
  | "Slice" => some (sliceRule n)
  | "ExtSlice" => some (extSliceRule n)
  | "ExceptHandler" => some (exceptHandlerRule n)
  | _ => none

/-- Follows the rule of a node. -/
def addNode (start : Except Cause Position) (n : Site) : Into := fun parent =>
  match expressionRule? n, statementRule? n, otherRule? n with
  | some rule, _, _ => Scan.within n.ref (enclose n.ref start rule parent)
  | none, some rule, _ => Scan.within n.ref (afterGap rule parent)
  | none, none, some rule => Scan.within n.ref (rule parent)
  | none, none, none => Scan.fail (.noRule n.ref.cls)

/-! ## From trees to parts -/

mutual

/-- The tree at `path` as a part. -/
def toPart (lines : List String) (path : Path) : Tree → Part
  | .leaf v => .leaf v
  | .list items => .list (toItems lines path 0 items)
  | .node cls places fields =>
    let ref : NodeRef := ⟨path, cls, places⟩
    let parts := toFields lines path fields
    let start := startOfNode lines ref parts
    .node ref parts start (addNode start ⟨ref, parts⟩)

/-- The fields of the node at `path` as parts. -/
def toFields (lines : List String) (path : Path) : List (String × Tree) → List (String × Part)
  | [] => []
  | (name, t) :: fields => (name, toPart lines (path.field name) t) :: toFields lines path fields

/-- The items from index `i` on of the list at `path` as parts. -/
def toItems (lines : List String) (path : Path) (i : Nat) : List Tree → List Part
  | [] => []
  | t :: items => toPart lines (path.item i) t :: toItems lines path (i + 1) items

end

/-! ## Whole modules -/

/-- The statements of a module and what stands after the last one. -/
def wholeModule (n : Site) : Scan Markup := do
  let statements ← Scan.within n.ref (moduleRule n)
  let after ← Scan.betweenStatements true
  return element "Module" [] (statements ++ [text after])

/-- Converts a tree that is no module, only to fail. -/
def noModule (p : Part) : Scan Markup := do
  let _ ← p.write
  let _ ← Scan.betweenStatements true
  Scan.fail .notAModule

/-- The conversion of a whole tree. -/
def rootRule : Part → Scan Markup
  | .node ref fields start add =>
    if ref.cls = "Module" then wholeModule ⟨ref, fields⟩
    else noModule (.node ref fields start add)
  | p => noModule p

/-- Converts a tree with its tokens, over the lines of its source, and tells where the
    cursor is after that. -/
def run (lines : List String) (tree : Tree) (tokens : List Token) :
    Except Failure (Markup × Cursor) :=
  if !tree.isPlaced then .error (.of .rowWithoutColumn)
  else
    match Cursor.start? tokens with
    | none => .error (.of .outOfTokens)
    | some c =>
      match rootRule (toPart lines .root tree) c with
      | .ok m c' => .ok (m, c')
      | .error f _ => .error f

/-- Converts a tree with its tokens, over the lines of its source. -/
def convert (lines : List String) (tree : Tree) (tokens : List Token) :
    Except Failure Markup :=
  (run lines tree tokens).map (·.1)

end SourceScribe.Conversion
