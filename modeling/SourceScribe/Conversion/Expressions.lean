/-
  Rules for expressions.

  A rule takes the tokens of its expression and adds to a fragment.  It starts with the
  gap before its first token written already, and leaves the gap after its last token to
  whoever comes next.
-/
import SourceScribe.Conversion.Arguments

namespace SourceScribe.Conversion

open Scan Markup

/-! ## Literals and names -/

/-- A number. -/
def numberRule : Into := fun fragment => do
  let t ← expectShown (·.kind = .number)
  return fragment ++ [labelled "Num" t.text]

/-- How many string literals follow in `ts`, with only line breaks and comments between
    them; nothing if no other token ends the run. -/
def furtherStrings : List Token → Option Nat
  | [] => none
  | t :: ts =>
    if t.kind = .string then (furtherStrings ts).map (· + 1)
    else if t.isFiller then furtherStrings ts
    else some 0

/-- Takes `n` more string literals, with what stands before each. -/
def stringTail : Nat → Scan (List Markup)
  | 0 => pure []
  | n + 1 => do
    let between ← absorb Token.isFiller
    let t ← take
    let before ← gapBefore
    let more ← stringTail n
    return text (between ++ before) :: labelled "s" t.text :: more

/-- A string or byte string: one literal or several in a row. -/
def stringRule (n : Site) : Into := fun fragment => do
  let t ← expectShown (·.kind = .string)
  let more ← orFail .outOfTokens (furtherStrings (← get).rest)
  let tail ← stringTail more
  return fragment ++ [element n.ref.cls [] (labelled "s" t.text :: tail)]

/-- A name. -/
def nameRule (n : Site) : Into := fun fragment => do
  let t ← expectShown (·.kind = .name)
  let id ← n.field "id"
  let inside ← id.caption
  inPlaceOf t.text (contents inside)
  let ctx ← n.fieldCls "ctx"
  return fragment ++ [element "Name" [("name", id.attrValue), ("ctx", ctx)] inside]

/-- A named constant. -/
def nameConstantRule : Into := fun fragment => do
  let t ← expect (·.kind = .name)
  return fragment ++ [labelled "NameConstant" t.text]

/-- Three dots. -/
def ellipsisRule : Into := fun fragment => do
  let t ← expect (·.kind = .operator)
  return fragment ++ [labelled "Ellipsis" t.text]

/-! ## Displays -/

/-- An item of a tuple with the comma after it.  All but the first one come after the gap
    left by the comma before. -/
def tupleItem (first : Bool) (item : Part) : Into := fun parent => do
  let left ← onlyIf (!first) do return [text (← gapAfter)]
  let inside ← item.addTo (parent ++ left)
  let comma ← enclosedOf (some (.op .comma)) true false
  return inside ++ [text comma]

/-- A tuple; an empty one is a pair of parentheses. -/
def tupleRule (n : Site) : Into := fun fragment => do
  let ctx ← n.fieldCls "ctx"
  let elts ← n.field "elts"
  if elts.isPresent then
    match ← elts.items with
    | [] => return fragment ++ [element "Tuple" [("ctx", ctx)] []]
    | item :: items =>
      let head ← tupleItem true item []
      let inside ← addEach (tupleItem false) items head
      return fragment ++ [element "Tuple" [("ctx", ctx)] inside]
  else
    let _ ← expect (·.isOp .lpar)
    let _ ← expect (·.isOp .rpar)
    let between ← gapBefore
    return fragment ++ [element "Tuple" [("ctx", ctx)] [text ("(" ++ between ++ ")")]]

/-- An item with the comma after it. -/
def delimitedItem (item : Part) : Into := fun parent => do
  let inside ← item.addTo parent
  let comma ← delimiter
  return inside ++ [text comma]

/-- What an expression is there for, as an attribute, if the node says so. -/
def contextAttr (n : Site) : Scan (List (String × String)) := do
  if n.has "ctx" then return [("ctx", ← n.fieldCls "ctx")] else return []

/-- A list or a set. -/
def listRule (n : Site) : Into := fun fragment => do
  let attrs ← contextAttr n
  let left ← enclosed false true
  let items ← n.fieldItems "elts"
  let inside ← addEach delimitedItem items [text left]
  let right ← expect (·.kind = .operator)
  return fragment ++ [element n.ref.cls attrs (inside ++ [text right.text])]

/-- A key, a colon and a value, with the comma after them. -/
def dictItem (entry : Part × Part) : Scan (List Markup) := do
  let key ← entry.1.write
  let colon ← enclosed true true
  let inside ← entry.2.addTo (key ++ [text colon])
  let comma ← delimiter
  return [element "item" [] inside, text comma]

/-- A dictionary. -/
def dictRule (n : Site) : Into := fun fragment => do
  let left ← enclosed false true
  let keyField ← n.field "keys"
  let valueField ← n.field "values"
  let keys ← keyField.items
  let values ← valueField.items
  let inside ← forEach dictItem (keys.zip values)
  let _ ← expect (·.isOp .rbrace)
  return fragment ++ [element "Dict" [] (text left :: inside ++ [text "\x7d"])]

/-! ## Parts of objects -/

/-- A starred expression. -/
def starredRule (n : Site) : Into := fun fragment => do
  let _ ← expect (·.isOp .star)
  let after ← gapAfter
  let ctx ← n.fieldCls "ctx"
  let inside ← n.addField "value" [text ("*" ++ after)]
  return fragment ++ [element "Starred" [("ctx", ctx)] inside]

/-- An attribute of a value. -/
def attributeRule (n : Site) : Into := fun fragment => do
  let ctx ← n.fieldCls "ctx"
  let value ← n.writeField "value"
  let dot ← enclosed true true
  let t ← expectShown (·.kind = .name)
  return fragment ++ [element "Attribute" [("ctx", ctx)]
    [element "value" [] value, text dot, labelled "attr" t.text]]

/-- A subscript. -/
def subscriptRule (n : Site) : Into := fun fragment => do
  let ctx ← n.fieldCls "ctx"
  let value ← n.writeField "value"
  let left ← enclosed false true
  let slice ← n.addField "slice" [text left]
  let right ← enclosed true false
  return fragment ++ [element "Subscript" [("ctx", ctx)]
    [element "value" [] value, element "slice" [] (slice ++ [text right])]]

/-- A single index. -/
def indexRule (n : Site) : Into := fun parent => do
  let value ← n.writeField "value"
  return parent ++ [element "Index" [] value]

/-- A slice: lower bound, colon, upper bound, second colon, step; all but the first colon
    may be missing. -/
def sliceRule (n : Site) : Into := fun parent => do
  let lower ← n.field "lower"
  let lowerPart ← onlyIf lower.isPresent do
    let inside ← lower.write
    let after ← gapAfter
    return [element "lower" [] inside, text after]
  let colon ← enclosed false false
  let upper ← n.field "upper"
  let upperPart ← onlyIf upper.isPresent do
    let after ← gapAfter
    let inside ← upper.write
    return [text after, element "upper" [] inside]
  let next ← peek
  let secondColon ← onlyIf (next.isOp .colon) do return [text (← enclosed true false)]
  let step ← n.field "step"
  let stepPart ← onlyIf step.isPresent do
    let before ← gapBefore
    let inside ← step.write
    return [text before, element "step" [] inside]
  return parent ++ [element "Slice" []
    (lowerPart ++ text colon :: upperPart ++ secondColon ++ stepPart)]

/-- Several indices or slices. -/
def extSliceRule (n : Site) : Into := fun parent => do
  addEach delimitedItem (← n.fieldItems "dims") parent

/-! ## Operators -/

/-- A binary operation. -/
def binOpRule (n : Site) : Into := fun fragment => do
  let left ← n.writeField "left"
  let op ← n.field "op"
  let sign ← enclosed true true
  let cls ← op.cls
  let inside ← n.addField "right" (left ++ [labelled cls sign])
  return fragment ++ [element n.ref.cls [] inside]

/-- An operand of `and` or `or`, after the operator. -/
def boolOperand (operand : Part) : Scan (List Markup) := do
  let sign ← enclosed true true
  let inside ← operand.write
  return [text sign, element "value" [] inside]

/-- Operands joined by `and` or by `or`. -/
def boolOpRule (n : Site) : Into := fun fragment => do
  let op ← n.fieldCls "op"
  match ← n.fieldItems "values" with
  | [] => return fragment ++ [element n.ref.cls [("op", op)] []]
  | operand :: operands =>
    let head ← operand.write
    let tail ← forEach boolOperand operands
    return fragment ++ [element n.ref.cls [("op", op)] (element "value" [] head :: tail)]

/-- An operator and its operand. -/
def unaryOpRule (n : Site) : Into := fun fragment => do
  let t ← take
  let after ← betweenStatements true
  let op ← n.fieldCls "op"
  let inside ← n.addField "operand" (caption t.text ++ [text after])
  return fragment ++ [element n.ref.cls [("op", op)] inside]

/-- How many tokens a comparison operator has. -/
def comparisonLength? (cls : String) : Option Nat :=
  if cls ∈ ["Lt", "Eq", "Gt", "GtE", "In", "Is", "LtE", "NotEq"] then some 1
  else if cls ∈ ["IsNot", "NotIn"] then some 2
  else none

/-- The tokens of a comparison operator. -/
def comparisonSign : Nat → Scan String
  | 0 => pure ""
  | n + 1 => do
    let sign ← enclosed false true
    let more ← comparisonSign n
    return sign ++ more

/-- A comparison operator and the value after it. -/
def comparison (entry : Part × Part) : Scan (List Markup) := do
  let before ← gapAfter
  let cls ← entry.1.cls
  let length ← orFail (.unknownComparison cls) (comparisonLength? cls)
  let sign ← comparisonSign length
  let value ← entry.2.write
  return [labelled "cmpop" (before ++ sign), element "value" [] value]

/-- A chain of comparisons. -/
def compareRule (n : Site) : Into := fun fragment => do
  let left ← n.writeField "left"
  let opField ← n.field "ops"
  let valueField ← n.field "comparators"
  let ops ← opField.items
  let values ← valueField.items
  let tail ← forEach comparison (ops.zip values)
  return fragment ++ [element n.ref.cls [] (element "value" [] left :: tail)]

/-! ## Calls, conditions and functions -/

/-- A call. -/
def callRule (n : Site) : Into := fun fragment => do
  let func ← n.writeField "func"
  let left ← enclosed true true
  let args ← n.field "args"
  let argsPart ← onlyIf args.isPresent do
    let inside ← addEach delimitedItem (← args.items) []
    return [element "args" [] inside]
  let named ← keywordsAndStar n
  let kwargs ← n.field "kwargs"
  let kwargsPart ← onlyIf kwargs.isPresent (starArgument "kwargs" kwargs)
  let _ ← expectShown (·.isOp .rpar)
  return fragment ++ [element "Call" []
    (element "func" [] func :: text left :: argsPart ++ named ++ kwargsPart ++ [text ")"])]

/-- A conditional expression. -/
def ifExpRule (n : Site) : Into := fun fragment => do
  let body ← n.writeField "body"
  let ifText ← enclosed true true
  let test ← n.writeField "test"
  let elseText ← enclosed true true
  let orelse ← n.writeField "orelse"
  return fragment ++ [element "IfExpr" []
    [element "body" [] body, text ifText, element "test" [] test, text elseText,
     element "orelse" [] orelse]]

/-- A condition of a comprehension. -/
def comprehensionIf (condition : Part) : Scan (List Markup) := do
  let ifText ← enclosed true true
  let inside ← condition.addTo [text ifText]
  return [element "if" [] inside]

/-- One `for` of a comprehension, with its conditions. -/
def comprehension (gen : Part) : Scan (List Markup) := do
  let forText ← enclosed true true
  let target ← (← gen.field "target").write
  let inText ← enclosed true true
  let iter ← (← gen.field "iter").write
  let ifs ← gen.field "ifs"
  let ifsPart ← onlyIf ifs.isPresent do
    let inside ← forEach comprehensionIf (← ifs.items)
    return [element "ifs" [] inside]
  return [element "comprehension" []
    (text forText :: element "target" [] target :: text inText :: element "iter" [] iter
      :: ifsPart)]

/-- What a comprehension collects: an element, or a key and a value. -/
def comprehensionHead (n : Site) : Scan (List Markup) := do
  if n.has "elt" then
    let elt ← n.writeField "elt"
    return [element "elt" [] elt]
  else
    let key ← n.writeField "key"
    let colon ← enclosed true true
    let value ← n.writeField "value"
    return [element "key" [] key, text colon, element "value" [] value]

/-- A comprehension; all but a generator have brackets of their own. -/
def comprehensionRule (n : Site) : Into := fun fragment => do
  let bracketed := n.ref.cls ≠ "GeneratorExp"
  let left ← onlyIf bracketed do return [text (← enclosed false true)]
  let head ← comprehensionHead n
  let gens ← n.fieldItems "generators"
  let inside ← forEach comprehension gens
  let right ← onlyIf bracketed do return [text (← enclosed true false)]
  return fragment ++ [element n.ref.cls []
    (left ++ head ++ element "generators" [] inside :: right)]

/-- A function without a name. -/
def lambdaRule (n : Site) : Into := fun fragment => do
  let _ ← expect (·.text = "lambda")
  let after ← gapAfter
  let arguments ← parameters n
  let colon ← enclosed false true
  let body ← n.writeField "body"
  return fragment ++ [element "Lambda" []
    [text ("lambda" ++ after), element "arguments" [] arguments, text colon,
     element "body" [] body]]

/-- `yield`, with or without `from`. -/
def yieldRule (n : Site) : Into := fun fragment => do
  let t ← expect (·.text = "yield")
  let after ← gapAfter
  let fromPart ← onlyIf (n.ref.cls = "YieldFrom") do
    let u ← expect (·.text = "from")
    let after ← gapAfter
    return [text (u.text ++ after)]
  let value ← n.field "value"
  let inside ← orIdle value.isPresent value.addTo (text (t.text ++ after) :: fromPart)
  return fragment ++ [element n.ref.cls [] inside]

end SourceScribe.Conversion
