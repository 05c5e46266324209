/-
  Rules for statements.

  A rule first writes what stands between the statement before and this one, then one
  element.  The gap after the last token of the statement is left to the next one.
-/
import SourceScribe.Conversion.Expressions

namespace SourceScribe.Conversion

open Scan Markup

/-- Converts a statement: what stands before it, then its element. -/
def afterGap (rule : Scan Markup) : Into := fun parent => do
  let before ← betweenStatements true
  let e ← rule
  return parent ++ [text before, e]

/-- A field that holds a list of statements, in an element of the field's name, after a
    text. -/
def block (n : Site) (field : String) (lead : String) : Scan Markup := do
  let items ← n.fieldItems field
  let inside ← addEach Part.addTo items (caption lead)
  return element field [] inside

/-- A colon with the gap before it. -/
def colon : Scan String := do
  let _ ← expect (·.isOp .colon)
  let before ← gapBefore
  return before ++ ":"

/-- A block after a keyword of its own. -/
def keywordBlock (n : Site) (field keyword : String) : Scan Markup := do
  let _ ← expectShown (·.text = keyword)
  let lead ← withGaps
  let _ ← expect (·.isOp .colon)
  block n field (lead ++ ":")

/-- A block after a keyword of its own, if the field is there, with what stands before
    it. -/
def optionalBlock (n : Site) (field keyword : String) : Scan (List Markup) := do
  if (← n.field field).isPresent then
    let before ← betweenStatements false
    let b ← keywordBlock n field keyword
    return [text before, b]
  else return []

/-! ## Simple statements -/

/-- An expression that is a statement. -/
def exprRule (n : Site) : Scan Markup := do
  let value ← n.writeField "value"
  return element "Expr" [] value

/-- A statement of one word. -/
def wordRule (n : Site) : Scan Markup := do
  let t ← expect (·.kind = .name)
  return labelled n.ref.cls t.text

/-- `assert`. -/
def assertRule (n : Site) : Scan Markup := do
  let _ ← expect (·.text = "assert")
  let after ← gapAfter
  let test ← n.writeField "test"
  let msg ← n.field "msg"
  let msgPart ← onlyIf msg.isPresent do
    let _ ← expect (·.isOp .comma)
    let comma ← withGaps
    let inside ← msg.write
    return [text comma, element "msg" [] inside]
  return element "Assert" [] (text ("assert" ++ after) :: element "test" [] test :: msgPart)

/-- A target of an assignment with the sign after it. -/
def assignTarget (target : Part) : Into := fun parent => do
  let inside ← target.addTo parent
  let _ ← expect (·.isOp .equal)
  let equal ← withGaps
  return inside ++ [text equal]

/-- An assignment. -/
def assignRule (n : Site) : Scan Markup := do
  let targets ← addEach assignTarget (← n.fieldItems "targets") []
  let inside ← n.addField "value" [element "targets" [] targets]
  return element "Assign" [] inside

/-- An assignment by an operator. -/
def augAssignRule (n : Site) : Scan Markup := do
  let target ← n.writeField "target"
  let _ ← expect (·.kind = .operator)
  let op ← n.field "op"
  let cls ← op.cls
  let sign ← withGaps
  let value ← n.writeField "value"
  return element "AugAssign" []
    [element "target" [] target, element "op" [] [labelled cls sign], element "value" [] value]

/-- `del`. -/
def deleteRule (n : Site) : Scan Markup := do
  let _ ← expect (·.text = "del")
  let after ← gapAfter
  let targets ← addEach delimitedItem (← n.fieldItems "targets") []
  return element "Delete" [] [text ("del" ++ after), element "targets" [] targets]

/-- A name of a `global` or `nonlocal` statement, with the comma after it. -/
def declaredName (name : Part) : Scan (List Markup) := do
  let t ← expect (·.kind = .name)
  let inside ← (← name.itemValue).caption
  inPlaceOf t.text (contents inside)
  let comma ← delimiter
  return [element "name" [] inside, text comma]

/-- `global` and `nonlocal`. -/
def declareRule (n : Site) : Scan Markup := do
  let t ← expect (·.kind = .name)
  let after ← gapAfter
  let names ← forEach declaredName (← n.fieldItems "names")
  return element n.ref.cls [] (caption (t.text ++ after) ++ [element "names" [] names])

/-- What is returned, after the gap before it. -/
def returnValue (value : Part) : Into := fun parent => do
  let after ← gapAfter
  value.addTo (parent ++ [text after])

/-- `return`. -/
def returnRule (n : Site) : Scan Markup := do
  let _ ← expect (·.text = "return")
  let value ← n.field "value"
  let inside ← addIf value.isPresent (returnValue value) [text "return"]
  return element "Return" [] inside

/-- `raise`. -/
def raiseRule (n : Site) : Scan Markup := do
  let _ ← expect (·.text = "raise")
  let exc ← n.field "exc"
  let excPart ← onlyIf exc.isPresent do
    let after ← gapAfter
    let inside ← exc.write
    return [text after, element "exc" [] inside]
  let cause ← n.field "cause"
  let causePart ← onlyIf cause.isPresent do
    let _ ← expect (·.text = "from")
    let between ← withGaps
    let inside ← cause.write
    return [text between, element "cause" [] inside]
  return element "Raise" [] (text "raise" :: excPart ++ causePart)

/-! ## Imports -/

/-- An imported name, with the name it gets and the comma after it. -/
def importedName (item : Part) : Scan (List Markup) := do
  let dotted ← dottedName
  let name ← (← item.field "name").caption
  inPlaceOf dotted (contents name)
  let asname ←
    match item with
    | .node _ fields _ _ => orFail .wrongSort (fields.lookup "asname")
    | _ => fail .wrongSort
  let asPart ← onlyIf asname.isPresent do
    let _ ← expect (·.text = "as")
    let between ← withGaps
    let t ← expect (·.kind = .name)
    let inside ← asname.caption
    inPlaceOf t.text (contents inside)
    return [text between, element "asname" [] inside]
  let comma ← delimiter
  return [element "alias" [] (element "name" [] name :: asPart), text comma]

/-- `import`. -/
def importRule (n : Site) : Scan Markup := do
  let _ ← expect (·.text = "import")
  let after ← gapAfter
  let names ← forEach importedName (← n.fieldItems "names")
  return element "Import" [] (text ("import" ++ after) :: names)

/-- The module that names are imported from, if one stands before `import`. -/
def moduleName : Scan String := do
  let next ← peek
  if next.text ≠ "import" then dottedName else return ""

/-- `from ... import`. -/
def importFromRule (n : Site) : Scan Markup := do
  let level ← n.field "level"
  let _ ← expect (·.text = "from")
  let after ← gapAfter
  let up ← dots
  let name ← moduleName
  let _ ← expect (·.text = "import")
  let between ← withGaps
  let paren ← peek
  let left ← onlyIf (paren.isOp .lpar) do return [text (← enclosed false true)]
  let names ← forEach importedName (← n.fieldItems "names")
  let right ← onlyIf (paren.isOp .lpar) do return [text (← enclosed false true)]
  return element "ImportFrom" [("level", level.plain)]
    (text ("from" ++ after ++ up) :: labelled "module" name :: text between
      :: left ++ element "names" [] names :: right)

/-! ## Definitions -/

/-- A decorator, with what stands after it. -/
def decorator (deco : Part) : Scan (List Markup) := do
  let _ ← expect (·.isOp .atSign)
  let after ← gapAfter
  let inside ← deco.addTo [text ("@" ++ after)]
  let between ← betweenStatements true
  return [element "decorator" [] inside, text between]

/-- What a function is annotated to return. -/
def returnsPart (n : Site) : Scan (List Markup) := do
  let returns ← n.field "returns"
  if returns.isPresent then
    let t ← expect (·.kind = .operator)
    inPlaceOf t.text "->"
    let arrow ← gapAfter
    let inside ← returns.addTo [text ("->" ++ arrow)]
    let after ← gapAfter
    return [element "returns" [] (inside ++ [text after])]
  else return []

/-- A function definition. -/
def functionDefRule (n : Site) : Scan Markup := do
  let decorators ← forEach decorator (← n.fieldItems "decorator_list")
  let _ ← expect (·.text = "def")
  let afterDef ← gapAfter
  let t ← expect (·.kind = .name)
  let name ← (← n.field "name").asText
  inPlaceOf t.text name
  let left ← enclosed true true
  let arguments ← parameters n
  let _ ← expect (·.isOp .rpar)
  let afterArgs ← gapAfter
  let returns ← returnsPart n
  let _ ← expect (·.isOp .colon)
  let body ← block n "body" ""
  return element "FunctionDef" [("name", name)]
    (decorators ++ text ("def" ++ afterDef) :: text name
      :: element "arguments" []
        (caption left ++ arguments ++ text (")" ++ afterArgs) :: returns ++ [text ":"])
      :: [body])

/-- A base of a class, with the comma after it. -/
def classBase (base : Part) : Scan (List Markup) := do
  let inside ← base.write
  let comma ← delimiter
  return [element "base" [] inside, text comma]

/-- The arguments of a class definition, if it has parentheses. -/
def classArguments (n : Site) : Scan (List Markup) := do
  let next ← peek
  if next.isOp .lpar then
    let left ← enclosed true true
    let bases ← forEach classBase (← n.fieldItems "bases")
    let named ← keywordsAndStar n
    let kwargs ← n.field "kwargs"
    let kwargsPart ← onlyIf kwargs.isPresent (starArgument "kwargs" kwargs)
    let _ ← expect (·.isOp .rpar)
    return [element "arguments" [] (caption left ++ bases ++ named ++ kwargsPart ++ [text ")"])]
  else return []

/-- A class definition. -/
def classDefRule (n : Site) : Scan Markup := do
  let decorators ← forEach decorator (← n.fieldItems "decorator_list")
  let _ ← expect (·.text = "class")
  let t ← expect (·.kind = .name)
  let nameField ← n.field "name"
  let before ← gapBefore
  let name ← nameField.asText
  inPlaceOf t.text name
  let arguments ← classArguments n
  let end_ ← colon
  let body ← block n "body" ""
  return element "ClassDef" [("name", name)]
    (decorators ++ text "class" :: text (before ++ name) :: arguments ++ [text end_, body])

/-! ## Compound statements -/

/-- The rest of an `if` or `while`: nothing, a further condition, or a block. -/
def elsePart (n : Site) : Scan (List Markup) := do
  let orelse ← n.field "orelse"
  if orelse.isPresent then
    let before ← betweenStatements false
    let next ← peek
    if next.text = "elif" then
      let inside ← (← orelse.first).write
      return [text before, element "orelse" [] inside]
    else
      let b ← keywordBlock n "orelse" "else"
      return [text before, b]
  else return []

/-- `if` and `while`. -/
def conditionRule (n : Site) : Scan Markup := do
  let t ← expect (·.kind = .name)
  let after ← gapAfter
  let test ← n.writeField "test"
  let end_ ← colon
  let body ← block n "body" ""
  let orelse ← elsePart n
  return element n.ref.cls []
    (caption (t.text ++ after) ++ element "test" [] test :: text end_ :: body :: orelse)

/-- `for`. -/
def forRule (n : Site) : Scan Markup := do
  let t ← expect (·.text = "for")
  let after ← gapAfter
  let target ← n.writeField "target"
  let _ ← expect (·.text = "in")
  let between ← withGaps
  let iter ← n.writeField "iter"
  let end_ ← colon
  let body ← block n "body" ""
  let orelse ← optionalBlock n "orelse" "else"
  return element n.ref.cls []
    (text (t.text ++ after) :: element "target" [] target :: text between
      :: element "iter" [] iter :: text end_ :: body :: orelse)

/-- The type that an exception handler names, and the name the exception gets. -/
def namedType (n : Site) (type : Part) : Into := fun parent => do
  let inside ← type.write
  let name ← n.field "name"
  let namePart ← onlyIf name.isPresent do
    let _ ← expect (·.text = "as")
    let between ← withGaps
    let t ← expect (·.kind = .name)
    let caption ← name.caption
    inPlaceOf t.text (contents caption)
    return [text between, element "name" [] caption]
  return parent ++ element "type" [] inside :: namePart

/-- The type of an exception handler, if it names one. -/
def handlerType (n : Site) : Into := fun parent => do
  let type ← n.field "type"
  orIdle type.isPresent (namedType n type) parent

/-- An exception handler. -/
def exceptHandlerRule (n : Site) : Into := fun parent => do
  let before ← betweenStatements true
  let _ ← expectShown (·.text = "except")
  let after ← gapAfter
  let head ← handlerType n [text before, text ("except" ++ after)]
  let end_ ← colon
  let body ← block n "body" ""
  return parent ++ [element "ExceptHandler" [] (head ++ [text end_, body])]

/-- `try`. -/
def tryRule (n : Site) : Scan Markup := do
  let _ ← expectShown (·.text = "try")
  let after ← gapAfter
  let _ ← expect (·.isOp .colon)
  let body ← block n "body" ""
  let handlers ← n.field "handlers"
  let handlersPart ← onlyIf handlers.isPresent do
    let inside ← addEach Part.addTo (← handlers.items) []
    return [element "handlers" [] inside]
  let orelse ← optionalBlock n "orelse" "else"
  let final ← optionalBlock n "finalbody" "finally"
  return element "Try" []
    (text ("try" ++ after ++ ":") :: body :: handlersPart ++ orelse ++ final)

/-- The target that a context is bound to, after `as`. -/
def withTarget (vars : Part) : Into := fun parent => do
  let _ ← expect (·.text = "as")
  let between ← withGaps
  vars.addTo (parent ++ [text between])

/-- A context of a `with` statement, with the comma after it. -/
def withItem (item : Part) : Scan (List Markup) := do
  let context ← (← item.field "context_expr").write
  let vars ← item.field "optional_vars"
  let inside ← addIf vars.isPresent (withTarget vars) context
  let comma ← delimiter
  return [element "withitem" [] inside, text comma]

/-- `with`. -/
def withRule (n : Site) : Scan Markup := do
  let _ ← expect (·.text = "with")
  let after ← gapAfter
  let items ← forEach withItem (← n.fieldItems "items")
  let _ ← expect (·.isOp .colon)
  let body ← block n "body" ""
  return element n.ref.cls [] [text ("with" ++ after), element "items" [] items, text ":", body]

end SourceScribe.Conversion
