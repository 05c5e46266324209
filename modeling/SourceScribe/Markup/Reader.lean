/-
  Reading markup, one character after the other.

  The reader is a machine: `step` takes it from one state to the next, or stops where the
  document is not well-formed.  It keeps the open elements, the namespaces in scope, the
  declared entities and attributes, and the character data read so far.

  `feed` reads a text; the text of a declared entity is read by the same machine, inside
  its element, at a smaller `depth`.  `feed_append`: reading two texts one after the other
  is reading them together.
-/
import SourceScribe.Markup.Declaration
import SourceScribe.Markup.Entity
import SourceScribe.Text.Basic

namespace SourceScribe.Markup

/-! ## States -/

/-- A start tag as far as it is read: the name, and the attributes, the last one first. -/
structure StartTag where
  name : List Char
  attrs : List (List Char × List Char)

/-- Where in a document the reader is.  Words being read are kept backwards. -/
inductive Mode where
  /-- Before or after the root element. -/
  | outside
  /-- In character data, after so many closing brackets. -/
  | content (brackets : Nat)
  /-- After `<`. -/
  | opening
  /-- After `<!` and these characters. -/
  | bang (seen : List Char)
  | comment (dashes : Nat)
  | cdata (brackets : Nat)
  | instruction (seen : List Char)
  /-- In a reference in character data. -/
  | reference (seen : List Char)
  | tagName (seen : List Char)
  /-- In a start tag, after a blank or not. -/
  | inTag (tag : StartTag) (blank : Bool)
  | attrName (tag : StartTag) (seen : List Char)
  /-- After the name of an attribute and a blank. -/
  | attrEqual (tag : StartTag) (name : List Char)
  /-- After the equals sign of an attribute. -/
  | attrQuote (tag : StartTag) (name : List Char)
  | attrValue (tag : StartTag) (name : List Char) (quote : Char) (value : List Char)
  /-- In a reference in the value of an attribute. -/
  | attrReference (tag : StartTag) (name : List Char) (quote : Char) (value seen : List Char)
  /-- After the slash of an empty element. -/
  | emptyTag (tag : StartTag)
  | endName (seen : List Char)
  /-- After the name in an end tag and a blank. -/
  | endBlank (name : List Char)
  /-- In a document type, before its declarations, perhaps in a quoted text. -/
  | doctype (seen : List Char) (quote : Option Char)
  /-- Between declarations. -/
  | declarations
  /-- Between declarations, after `<`. -/
  | declOpening
  /-- Between declarations, after `<!` and a hyphen or not. -/
  | declBang (dash : Bool)
  | declComment (dashes : Nat)
  | declInstruction (seen : List Char)
  | declaration (seen : List Char) (quote : Option Char)
  | parameterReference (seen : List Char)
  /-- After the declarations. -/
  | doctypeEnd

/-- The state of the reader. -/
structure Reader where
  mode : Mode
  /-- The letters of names in the text being read. -/
  letters : Letters
  /-- The open elements, the innermost first, with the namespaces around each. -/
  elements : List (List Char × List (List Char × List Char))
  /-- The namespaces in scope: prefixes and what they stand for. -/
  namespaces : List (List Char × List Char)
  /-- Whether the root element has begun. -/
  rooted : Bool
  /-- Whether a document type was read. -/
  typed : Bool
  entities : List (String × Entity)
  /-- The declared attributes of each element, the first declared first. -/
  attributes : List (List Char × AttributeRule)
  /-- Whether the document says that it needs nothing from outside. -/
  standalone : Bool
  /-- Whether declarations may be missing, since they are outside the document. -/
  partly : Bool
  /-- Whether a reference to such declarations came before, so that those after it may not
      be the first ones of their names. -/
  passed : Bool
  /-- The entities whose text is being read. -/
  busy : List String
  /-- The bytes of the document. -/
  size : Nat
  /-- The bytes that each entity stands for, once they are all declared. -/
  sizes : List (String × Nat)
  /-- The bytes of the entities written out so far. -/
  expanded : Nat
  /-- Character data, backwards. -/
  data : List Char

/-- A namespace of the standards body for the web. -/
def standardNamespace (path : List String) : List Char :=
  ("http:/" ++ String.join (("www.w3.org" :: path).map ("/" ++ ·))).toList

/-- The namespace of the prefix `xml`. -/
def xmlNamespace : List Char :=
  standardNamespace ["XML", "1998", "namespace"]

/-- The namespace of the prefix `xmlns`. -/
def xmlnsNamespace : List Char :=
  standardNamespace ["2000", "xmlns", ""]

namespace Reader

/-- The reader before a document of so many bytes. -/
def start (letters : Letters) (standalone : Bool) (size : Nat) : Reader where
  mode := .outside
  letters := letters
  elements := []
  namespaces := [("xml".toList, xmlNamespace)]
  rooted := false
  typed := false
  entities := []
  attributes := []
  standalone := standalone
  partly := false
  passed := false
  busy := []
  size := size
  sizes := []
  expanded := 0
  data := []

/-- Whether the reader is inside the root element, or in the text of an entity that is. -/
def isInside (r : Reader) : Bool :=
  !r.elements.isEmpty || !r.busy.isEmpty

/-- Back to character data, or to what is around the root element. -/
def resume (r : Reader) : Reader :=
  { r with mode := if r.isInside then .content 0 else .outside }

/-- Adds character data. -/
def push (r : Reader) (c : Char) : Reader :=
  { r with data := c :: r.data }

/-! ## Namespaces -/

/-- The prefix that an attribute binds, if it binds one: nothing before the colon for the
    default namespace. -/
def boundPrefix? (name : List Char) : Option (List Char) :=
  match splitName name with
  | (none, n) => if n = "xmlns".toList then some [] else none
  | (some p, n) => if p = "xmlns".toList then some n else none

/-- Whether a prefix may be bound to this namespace. -/
def mayBind (pre uri : List Char) : Bool :=
  !(uri.isEmpty && !pre.isEmpty) && pre != "xmlns".toList && uri != xmlnsNamespace
    && ((pre == "xml".toList) == (uri == xmlNamespace)) && !uri.contains '\x7d'

/-- The namespaces after the attributes of a start tag, in order. -/
def bindAll? (scope : List (List Char × List Char)) :
    List (List Char × List Char) → Option (List (List Char × List Char))
  | [] => some scope
  | (name, value) :: attrs =>
    match boundPrefix? name with
    | none => bindAll? scope attrs
    | some pre => if mayBind pre value then bindAll? ((pre, value) :: scope) attrs else none

/-- A name with its namespace, if its prefix is bound.  A name without a prefix is in
    none here. -/
def expand? (scope : List (List Char × List Char)) (name : List Char) :
    Option (List Char × List Char) :=
  match splitName name with
  | (none, n) => some ([], n)
  | (some p, n) => (scope.lookup p).map fun uri => (uri, n)

/-- Whether no item comes twice. -/
def allDifferent {α : Type} [BEq α] : List α → Bool
  | [] => true
  | a :: as => !as.contains a && allDifferent as

/-! ## Start tags -/

/-- The value of an attribute by its declaration: words have one space between them. -/
def ruledValue (rule : AttributeRule) (value : List Char) : List Char :=
  if rule.tokenized then Text.squeeze (· = ' ') ' ' value else value

/-- The attributes of a start tag by the declarations for its element: the values are as
    declared, and those with a default value are there. -/
def ruledAttributes (rules : List AttributeRule) (attrs : List (List Char × List Char)) :
    List (List Char × List Char) :=
  let given := attrs.map fun a =>
    match rules.find? (·.name == a.1) with
    | some rule => (a.1, ruledValue rule a.2)
    | none => a
  let missing := rules.filter fun rule => !attrs.any (·.1 == rule.name)
  given ++ missing.filterMap fun rule => rule.default.map fun value => (rule.name, value)

/-- The namespaces inside an element, if its start tag is well-formed: names and prefixes
    are right, and no attribute comes twice. -/
def scopeOf? (letters : Letters) (scope : List (List Char × List Char))
    (rules : List AttributeRule) (tag : StartTag) : Option (List (List Char × List Char)) := do
  let given := tag.attrs.reverse
  let isName := isQualifiedName letters
  if !isName tag.name || !given.all (fun a => isName a.1) then none
  if !allDifferent (given.map (·.1)) then none
  let attrs := ruledAttributes rules given
  let inner ← bindAll? scope attrs
  let _ ← expand? inner tag.name
  let names ← (attrs.filter fun a => (boundPrefix? a.1).isNone).mapM fun a => expand? inner a.1
  if !allDifferent names then none
  return inner

/-- The declarations for the attributes of an element. -/
def rulesOf (r : Reader) (owner : List Char) : List AttributeRule :=
  (r.attributes.filter (·.1 == owner)).map (·.2)

/-! ## Elements -/

/-- Opens an element. -/
def openElement? (r : Reader) (tag : StartTag) : Option Reader := do
  let inner ← scopeOf? r.letters r.namespaces (r.rulesOf tag.name) tag
  return { r with
    mode := .content 0
    elements := (tag.name, r.namespaces) :: r.elements
    namespaces := inner
    rooted := true }

/-- Closes an element. -/
def closeElement? (r : Reader) (name : List Char) : Option Reader :=
  match r.elements with
  | [] => none
  | (openName, outer) :: elements =>
    if openName = name then some (resume { r with elements := elements, namespaces := outer })
    else none

/-- Opens an element and closes it. -/
def emptyElement? (r : Reader) (tag : StartTag) : Option Reader := do
  (← r.openElement? tag).closeElement? tag.name

/-! ## Instructions and declarations -/

/-- Whether a processing instruction is well-formed: it has a target, and the target is not
    `xml` in any case. -/
def isInstruction (letters : Letters) (cs : List Char) : Bool :=
  let target := cs.takeWhile fun c => !isSpace c
  isPlainName letters target && target.map Char.toLower != "xml".toList

/-- Finds out how much each entity stands for. -/
def measure (r : Reader) : Reader :=
  { r with sizes := expandedSizes r.entities r.entities.length }

/-- Takes note that entities are written out, if that is not too much.  Those inside others
    are counted with them. -/
def admit? (r : Reader) (names : List String) : Option Reader :=
  if !r.busy.isEmpty then some r
  else
    let expanded := r.expanded + referredSize r.sizes names
    if mayExpand r.size expanded then some { r with expanded := expanded } else none

/-- Adds a general entity.  Its first declaration counts. -/
def addEntity? (r : Reader) (name : String) (d : Definition) : Option Reader := do
  let e ← match d with
    | .quoted value => (entityText? r.letters value).map .internal
    | .external => some .external
  if (r.entities.lookup name).isSome then return r
  else return { r with entities := (name, e) :: r.entities }

/-- Keeps the declaration of an attribute, unless there is one already. -/
def store (r : Reader) (owner : List Char) (rule : AttributeRule) : Reader :=
  if (r.rulesOf owner).any (·.name == rule.name) then r
  else { r with attributes := r.attributes ++ [(owner, rule)] }

/-- Adds the declaration of an attribute, with the default value that is written there
    resolved.  The first declaration of an attribute counts. -/
def addRule? (resolve : Reader → String → Option (List Char)) (owner : List Char)
    (r : Reader) (rule : AttributeRule) : Option Reader := do
  match rule.default with
  | none => return r.store owner rule
  | some written =>
    let names := references none written
    let r ← if names.isEmpty then some r else r.measure.admit? names
    let value ← valueOfText r.letters (resolve r) none [] written
    return r.store owner { rule with default := some (ruledValue rule value.reverse) }

/-- Adds what a declaration declares.  None counts after a reference to declarations outside
    the document. -/
def declare? (resolve : Reader → String → Option (List Char)) (r : Reader) (d : Declared) :
    Option Reader :=
  if r.passed && !r.standalone then some r
  else
    match d with
    | .other | .parameter .external => some r
    | .parameter (.quoted value) => (entityText? r.letters value).map fun _ => r
    | .entity name e => r.addEntity? name e
    | .attributes owner rules => rules.foldlM (addRule? resolve owner) r

/-! ## Steps -/

/-- Whether the start of a word after `<!` can still become one that is allowed here. -/
def mayBecome (r : Reader) (seen : List Char) : Bool :=
  seen.isPrefixOf "--".toList || (r.isInside && seen.isPrefixOf "[CDATA[".toList)
    || (!r.rooted && !r.typed && seen.isPrefixOf "DOCTYPE".toList)

/-- The mode after a word after `<!`. -/
def bangMode (seen : List Char) : Mode :=
  if seen = "--".toList then .comment 0
  else if seen = "[CDATA[".toList then .cdata 0
  else if seen = "DOCTYPE".toList then .doctype [] none
  else .bang seen.reverse

/-- A character inside a start tag, where an attribute or the end of the tag may come. -/
def tagStep? (r : Reader) (tag : StartTag) (blank : Bool) (c : Char) : Option Reader :=
  if isSpace c then some { r with mode := .inTag tag true }
  else if c = '/' then some { r with mode := .emptyTag tag }
  else if c = '>' then r.openElement? tag
  else if blank && isNameStart r.letters c then some { r with mode := .attrName tag [c] }
  else none

/-- Whether a quoted text goes on after `c`. -/
def quoteAfter (quote : Option Char) (c : Char) : Option Char :=
  match quote with
  | some q => if c = q then none else some q
  | none => if c = '"' || c = '\'' then some c else none

/-- One character.  `enter` reads the text of an entity in character data, and `resolve`
    gives the characters of one in the value of an attribute. -/
def step (enter : Reader → String → Option Reader)
    (resolve : Reader → String → Option (List Char)) (r : Reader) (c : Char) :
    Option Reader :=
  if !isDocumentChar c then none
  else
    match r.mode with
    | .outside =>
      if isSpace c then some r
      else if c = '<' then some { r with mode := .opening }
      else none
    | .content brackets =>
      if c = '<' then some { r with mode := .opening }
      else if c = '&' then some { r with mode := .reference [] }
      else if c = ']' then some ({ r with mode := .content (min (brackets + 1) 2) }.push c)
      else if c = '>' && brackets = 2 then none
      else some ({ r with mode := .content 0 }.push c)
    | .opening =>
      if c = '!' then some { r with mode := .bang [] }
      else if c = '?' then some { r with mode := .instruction [] }
      else if c = '/' then
        if r.isInside then some { r with mode := .endName [] } else none
      else if isNameStart r.letters c && (r.isInside || !r.rooted) then
        some { r with mode := .tagName [c] }
      else none
    | .bang seen =>
      let word := (c :: seen).reverse
      if r.mayBecome word then some { r with mode := bangMode word } else none
    | .comment dashes =>
      if dashes = 2 then if c = '>' then some r.resume else none
      else some { r with mode := .comment (if c = '-' then dashes + 1 else 0) }
    | .cdata brackets =>
      if c = ']' then some ({ r with mode := .cdata (min (brackets + 1) 2) }.push c)
      else if c = '>' && brackets = 2 then
        some { r with mode := .content 0, data := r.data.drop 2 }
      else some ({ r with mode := .cdata 0 }.push c)
    | .instruction seen =>
      match c, seen with
      | '>', '?' :: body => if isInstruction r.letters body.reverse then some r.resume else none
      | _, _ => some { r with mode := .instruction (c :: seen) }
    | .reference seen =>
      if c = ';' then
        match referent? r.letters seen.reverse with
        | none => none
        | some (.char d) => some ({ r with mode := .content 0 }.push d)
        | some (.entity name) => enter { r with mode := .content 0 } name
      else some { r with mode := .reference (c :: seen) }
    | .tagName seen =>
      if isNameChar r.letters c || c = ':' then some { r with mode := .tagName (c :: seen) }
      else r.tagStep? ⟨seen.reverse, []⟩ false c
    | .inTag tag blank => r.tagStep? tag blank c
    | .attrName tag seen =>
      if isNameChar r.letters c || c = ':' then some { r with mode := .attrName tag (c :: seen) }
      else if c = '=' then some { r with mode := .attrQuote tag seen.reverse }
      else if isSpace c then some { r with mode := .attrEqual tag seen.reverse }
      else none
    | .attrEqual tag name =>
      if isSpace c then some r
      else if c = '=' then some { r with mode := .attrQuote tag name }
      else none
    | .attrQuote tag name =>
      if isSpace c then some r
      else if c = '"' || c = '\'' then some { r with mode := .attrValue tag name c [] }
      else none
    | .attrValue tag name quote value =>
      if c = quote then
        some { r with mode := .inTag { tag with attrs := (name, value.reverse) :: tag.attrs } false }
      else if c = '<' then none
      else if c = '&' then some { r with mode := .attrReference tag name quote value [] }
      else some { r with mode := .attrValue tag name quote ((if isSpace c then ' ' else c) :: value) }
    | .attrReference tag name quote value seen =>
      if c = ';' then
        match referent? r.letters seen.reverse with
        | none => none
        | some (.char d) => some { r with mode := .attrValue tag name quote (d :: value) }
        | some (.entity e) => do
          let r ← r.admit? [e]
          let more ← resolve r e
          return { r with mode := .attrValue tag name quote (more.reverse ++ value) }
      else some { r with mode := .attrReference tag name quote value (c :: seen) }
    | .emptyTag tag => if c = '>' then r.emptyElement? tag else none
    | .endName seen =>
      if isNameChar r.letters c || c = ':' then some { r with mode := .endName (c :: seen) }
      else if c = '>' then r.closeElement? seen.reverse
      else if isSpace c then some { r with mode := .endBlank seen.reverse }
      else none
    | .endBlank name =>
      if isSpace c then some r
      else if c = '>' then r.closeElement? name
      else none
    | .doctype seen quote =>
      if quote.isNone && (c = '>' || c = '[') then do
        let external ← doctypeHead? r.letters seen.reverse
        let r := { r with typed := true, partly := external }
        return { r with mode := if c = '[' then .declarations else .outside }
      else if quote.isNone && c = '<' then none
      else some { r with mode := .doctype (c :: seen) (quoteAfter quote c) }
    | .declarations =>
      if isSpace c then some r
      else if c = '<' then some { r with mode := .declOpening }
      else if c = '%' then some { r with mode := .parameterReference [] }
      else if c = ']' then some { r with mode := .doctypeEnd }
      else none
    | .declOpening =>
      if c = '!' then some { r with mode := .declBang false }
      else if c = '?' then some { r with mode := .declInstruction [] }
      else none
    | .declBang dash =>
      if c = '-' then
        some { r with mode := if dash then .declComment 0 else .declBang true }
      else if dash then none
      else some { r with mode := .declaration [c] none }
    | .declComment dashes =>
      if dashes = 2 then if c = '>' then some { r with mode := .declarations } else none
      else some { r with mode := .declComment (if c = '-' then dashes + 1 else 0) }
    | .declInstruction seen =>
      match c, seen with
      | '>', '?' :: body =>
        if isInstruction r.letters body.reverse then some { r with mode := .declarations } else none
      | _, _ => some { r with mode := .declInstruction (c :: seen) }
    | .declaration seen quote =>
      if quote.isNone && c = '>' then do
        declare? resolve { r with mode := .declarations } (← declaration? r.letters seen.reverse)
      else if quote.isNone && c = '<' then none
      else some { r with mode := .declaration (c :: seen) (quoteAfter quote c) }
    | .parameterReference seen =>
      if c = ';' then
        if isPlainName r.letters seen.reverse then
          some { r with mode := .declarations, partly := true, passed := true }
        else none
      else some { r with mode := .parameterReference (c :: seen) }
    | .doctypeEnd =>
      if isSpace c then some r
      else if c = '>' then some { r.measure with mode := .outside }
      else none

/-! ## Texts -/

/-- Reads a text by a step function. -/
def feedBy (f : Reader → Char → Option Reader) : Reader → List Char → Option Reader
  | r, [] => some r
  | r, c :: cs => (f r c).bind fun r' => feedBy f r' cs

theorem feedBy_append (f : Reader → Char → Option Reader) (r : Reader) (as bs : List Char) :
    feedBy f r (as ++ bs) = (feedBy f r as).bind fun r' => feedBy f r' bs := by
  induction as generalizing r with
  | nil => rfl
  | cons a as ih =>
    simp only [List.cons_append, feedBy, Option.bind_assoc]
    congr 1
    funext r'
    exact ih r'

/-- Reads the text of an entity as part of what is around it: the elements that begin in it
    end in it. -/
def enterText (read : Reader → List Char → Option Reader) (r : Reader) (name : String) :
    Option Reader :=
  if name ∈ r.busy then none
  else
    match r.entities.lookup name with
    | some (.internal content) => do
      let r ← r.admit? [name]
      let inner ← read
        { r with letters := .standard, elements := [], busy := name :: r.busy } content
      match inner.mode, inner.elements with
      | .content _, [] =>
        return { inner with
          mode := .content 0
          letters := r.letters
          elements := r.elements
          busy := r.busy }
      | _, _ => none
    | _ => none

/-- The characters of an entity in the value of an attribute. -/
def resolveText (depth : Nat) (r : Reader) (name : String) : Option (List Char) :=
  entityValue r.entities (r.partly && !r.standalone) depth r.busy name

/-- Reads a text.  `depth` bounds how many entities may be inside one another. -/
def feed : (depth : Nat) → Reader → List Char → Option Reader
  | 0 => feedBy (step (fun _ _ => none) (resolveText 0))
  | depth + 1 => feedBy (step (enterText (feed depth)) (resolveText (depth + 1)))

theorem feed_append (depth : Nat) (r : Reader) (as bs : List Char) :
    feed depth r (as ++ bs) = (feed depth r as).bind fun r' => feed depth r' bs := by
  cases depth <;> exact feedBy_append _ _ _ _

/-- Whether the reader is at the end of a whole document. -/
def isFinished (r : Reader) : Bool :=
  r.rooted && match r.mode with
    | .outside => true
    | _ => false

end Reader

end SourceScribe.Markup
