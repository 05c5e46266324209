/-
  Arguments of calls and parameters of functions.
-/
import SourceScribe.Conversion.Parentheses

namespace SourceScribe.Conversion

open Scan Markup

/-! ## Arguments of a call -/

/-- A starred argument of a call, under the name of its field, with the comma after
    it. -/
def starArgument (field : String) (arg : Part) : Scan (List Markup) := do
  let t ← expectShown (·.kind = .operator)
  let after ← gapAfter
  let inside ← arg.addTo (caption (t.text ++ after))
  let comma ← delimiter
  return [element field [] inside, text comma]

/-- A keyword argument of a call, with the comma after it. -/
def keywordArgument (keyword : Part) : Scan (List Markup) := do
  let t ← expectShown (·.kind = .name)
  let arg ← (← keyword.field "arg").caption
  inPlaceOf t.text (contents arg)
  let equal ← enclosed true true
  let value ← (← keyword.field "value").write
  let comma ← delimiter
  return [element "keyword" []
    [element "arg" [] arg, text equal, element "value" [] value], text comma]

/-- A keyword argument or the starred argument of a call, with its place. -/
structure Argument where
  place : Position
  starred : Bool
  part : Part

/-- Whether `a` comes before `b`; at one place, the keyword comes first. -/
def Argument.before (a b : Argument) : Bool :=
  a.place < b.place || (a.place = b.place && (!a.starred && b.starred))

/-- Whether two arguments are of one kind and at one place. -/
def Argument.clashes (a b : Argument) : Bool :=
  a.place = b.place && a.starred = b.starred

/-- Whether some argument clashes with a later one. -/
def anyClash : List Argument → Bool
  | [] => false
  | a :: as => as.any a.clashes || anyClash as

/-- A keyword argument, placed by its value. -/
def keywordPlace (keyword : Part) : Scan Argument := do
  let value ← keyword.field "value"
  let place ← value.place
  return ⟨place, false, keyword⟩

/-- The starred argument, if it is there, placed. -/
def starPlace (star : Part) : Scan (List Argument) := do
  if star.isPresent then return [⟨← star.place, true, star⟩] else return []

/-- All keyword arguments, placed. -/
def keywordPlaces : List Part → Scan (List Argument)
  | [] => pure []
  | k :: ks => do
    let a ← keywordPlace k
    let as ← keywordPlaces ks
    return a :: as

/-- The keyword arguments and the starred argument of a call in the order of their
    places. -/
def keywordsAndStar (n : Site) : Scan (List Markup) := do
  let star ← n.field "starargs"
  let starred ← starPlace star
  let keywords ← n.fieldItems "keywords"
  let named ← keywordPlaces keywords
  let all := starred ++ named
  if anyClash all then fail .samePlace
  else
    forEach (fun a => if a.starred then starArgument "starargs" a.part else keywordArgument a.part)
      (all.mergeSort fun a b => !b.before a)

/-! ## Parameters of a function -/

/-- The annotation of a parameter, if it has one. -/
def annotation (ann : Part) : Scan (List Markup) :=
  onlyIf ann.isPresent do
    let _ ← expect (·.isOp .colon)
    let colon ← withGaps
    let inside ← ann.addTo [text colon]
    return [element "annotation" [] inside]

/-- The default of a parameter, if it has one. -/
def parameterDefault (default? : Option Part) : Scan (List Markup) :=
  match default? with
  | none => pure []
  | some d =>
    onlyIf d.isNode do
      let _ ← expect (·.isOp .equal)
      let equal ← withGaps
      let inside ← d.addTo [text equal]
      return [element "default" [] inside]

/-- A parameter whose name was taken already, as the token `t`, with its annotation and
    its default. -/
def parameter (t : Token) (arg : Part) (default? : Option Part) (kwonly : Bool) :
    Scan Markup := do
  let name ← arg.field "arg"
  let nameText ← name.asText
  inPlaceOf t.text nameText
  let ann ← arg.field "annotation"
  let annPart ← annotation ann
  let defaultPart ← parameterDefault default?
  return element "arg" (("name", nameText) :: if kwonly then [("kwonly", "")] else [])
    (text nameText :: annPart ++ defaultPart)

/-- A parameter with its name and the comma after it. -/
def delimitedParameter (kwonly : Bool) (entry : Part × Option Part) : Scan (List Markup) := do
  let t ← expectShown (·.kind = .name)
  let arg ← parameter t entry.1 entry.2 kwonly
  let comma ← delimiter
  return [arg, text comma]

/-- The starred parameter in a field, if it is there, with the comma after it. -/
def starParameter (arguments : Part) (field : String) : Scan (List Markup) := do
  let arg ← arguments.field field
  if arg.isPresent then
    let t ← expectShown (·.kind = .operator)
    let name ← expect (·.kind = .name)
    let between ← gapBefore
    let inside ← parameter name arg none false
    let comma ← delimiter
    return [element field [] [text t.text, text between, inside], text comma]
  else return []

/-- The defaults of `count` positional parameters: they belong to the last ones. -/
def alignDefaults (count : Nat) (defaults : List Part) : List (Option Part) :=
  List.replicate (count - defaults.length) none ++ defaults.map some

/-- The positional parameters. -/
def positionalParameters (arguments : Part) : Scan (List Markup) := do
  let args ← arguments.field "args"
  if args.isPresent then
    let defaultField ← arguments.field "defaults"
    let items ← args.items
    match defaultField with
    | .list defaults =>
      forEach (delimitedParameter false) (items.zip (alignDefaults items.length defaults))
    | _ => fail .notAList
  else return []

/-- The star that stands alone before keyword-only parameters. -/
def bareStar (arguments kwonly : Part) : Scan (List Markup) := do
  if kwonly.isPresent && !(← arguments.field "vararg").isPresent then
    let _ ← expect (·.isOp .star)
    let after ← gapAfter
    idle
    let comma ← delimiter
    return [text ("*" ++ after), text comma]
  else return []

/-- All parameters of a function. -/
def parameters (n : Site) : Scan (List Markup) := do
  let arguments ← n.field "args"
  let positional ← positionalParameters arguments
  let vararg ← starParameter arguments "vararg"
  let kwonly ← arguments.field "kwonlyargs"
  let defaults ← arguments.field "kw_defaults"
  let star ← bareStar arguments kwonly
  let kwItems ← kwonly.items
  let defaultItems ← defaults.items
  let named ← forEach (delimitedParameter true) (kwItems.zip (defaultItems.map some))
  let kwarg ← starParameter arguments "kwarg"
  return positional ++ vararg ++ star ++ named ++ kwarg

end SourceScribe.Conversion
