/-
  The declarations of a document type, and its head.

  Declarations of entities and of attributes change how a document is read; those of
  elements and of foreign formats do not.  All are checked as they are read.

  An element is declared with a content model: nothing, anything, character data mixed with
  named elements, or groups of names in which all items stand one after the other or all
  are alternatives.  An attribute is declared with a type, and with a default value or
  whether it may be missing.
-/
import SourceScribe.Markup.Lexeme

namespace SourceScribe.Markup

/-! ## Content models -/

/-- How the items of a group are connected. -/
inductive Connector where
  | sequence
  | choice
deriving DecidableEq

/-- Whether the lexemes are the rest of a content model, inside these groups, the innermost
    first.  A group has no connector before its second item.  `atItem` says whether an item
    comes next, or what follows one. -/
def isGroup : (atItem : Bool) → (groups : List (Option Connector)) → List Lexeme → Bool
  | true, groups, .opened :: ls => isGroup true (none :: groups) ls
  | true, groups, .word sort _ :: ls => sort.isName && isGroup false groups ls
  | true, groups, .counted :: ls => isGroup false groups ls
  | false, _ :: outer, .closed _ :: ls =>
    if outer.isEmpty then ls.isEmpty else isGroup false outer ls
  | false, group :: outer, .comma :: ls =>
    group != some .choice && isGroup true (some .sequence :: outer) ls
  | false, group :: outer, .bar :: ls =>
    group != some .sequence && isGroup true (some .choice :: outer) ls
  | _, _, _ => false

/-- Whether the lexemes are alternatives to character data and the end of their group,
    which may come any number of times. -/
def isMixture : List Lexeme → Bool
  | .bar :: .word sort _ :: [.closed (some '*')] => sort.isName
  | .bar :: .word sort _ :: ls => sort.isName && isMixture ls
  | _ => false

/-- Whether the lexemes are what may stand after the word for character data. -/
def isAfterData : List Lexeme → Bool
  | [.closed none] | [.closed (some '*')] => true
  | ls => isMixture ls

/-- Whether the lexemes are a content model. -/
def isContentModel : List Lexeme → Bool
  | [l] => l.isKeyword "EMPTY" || l.isKeyword "ANY"
  | .opened :: .marked chars :: ls => chars = "PCDATA".toList && isAfterData ls
  | .opened :: ls => isGroup true [none] ls
  | _ => false

/-- Whether the lexemes declare an element. -/
def isElementDeclaration : List Lexeme → Bool
  | .word sort _ :: ls => sort.isName && isContentModel ls
  | _ => false

/-! ## Attributes -/

/-- A declared attribute.  If it is `tokenized`, its value is made of words. -/
structure AttributeRule where
  name : List Char
  tokenized : Bool
  /-- The value of the attribute where it is not given. -/
  default : Option (List Char)

/-- Where in a list of attributes the next lexeme stands. -/
inductive AttributePlace where
  | name
  | type (name : List Char)
  /-- After the word that says that names of formats follow. -/
  | formats (name : List Char)
  /-- Before a value of an enumeration, which may have to be a name. -/
  | value (name : List Char) (named : Bool)
  /-- After a value of an enumeration. -/
  | valueEnd (name : List Char) (named : Bool)
  | default (name : List Char) (tokenized : Bool)
  /-- Before a default value that is the only value. -/
  | fixed (name : List Char) (tokenized : Bool)

/-- The types of attributes that are made of words. -/
def wordTypes : List String :=
  ["ID", "IDREF", "IDREFS", "ENTITY", "ENTITIES", "NMTOKEN", "NMTOKENS"]

/-- The place after a word for the type of the attribute `name`. -/
def placeAfterType? (name chars : List Char) : Option AttributePlace :=
  let word := String.ofList chars
  if word = "CDATA" then some (.default name false)
  else if word = "NOTATION" then some (.formats name)
  else if word ∈ wordTypes then some (.default name true)
  else none

/-- The attributes that the lexemes declare, from a place in the list.  Their default values
    are as written. -/
def attributeRules? : AttributePlace → List Lexeme → Option (List AttributeRule)
  | .name, [] => some []
  | .name, .word sort name :: ls => if sort.isName then attributeRules? (.type name) ls else none
  | .type name, .opened :: ls => attributeRules? (.value name false) ls
  | .type name, .word .plain chars :: ls =>
    (placeAfterType? name chars).bind fun place => attributeRules? place ls
  | .formats name, .opened :: ls => attributeRules? (.value name true) ls
  | .value name named, .word sort _ :: ls =>
    if named && sort ≠ .plain then none else attributeRules? (.valueEnd name named) ls
  | .valueEnd name named, .bar :: ls => attributeRules? (.value name named) ls
  | .valueEnd name _, .closed none :: ls => attributeRules? (.default name true) ls
  | .default name tokenized, .marked chars :: ls =>
    if chars = "FIXED".toList then attributeRules? (.fixed name tokenized) ls
    else if chars = "IMPLIED".toList || chars = "REQUIRED".toList then
      (attributeRules? .name ls).map (⟨name, tokenized, none⟩ :: ·)
    else none
  | .default name tokenized, .quoted value :: ls
  | .fixed name tokenized, .quoted value :: ls =>
    (attributeRules? .name ls).map (⟨name, tokenized, some value⟩ :: ·)
  | _, _ => none

/-! ## External identifiers -/

/-- The characters of a public identifier. -/
def isPublicIdChar (c : Char) : Bool :=
  c.isAlphanum || c = ' ' || c = '\n' || c = '\r' || "-'()+,./:=?;!*#@$_%".toList.contains c

/-- Splits off a public identifier. -/
def publicId? : List Lexeme → Option (List Lexeme)
  | l :: .quoted chars :: ls =>
    if l.isKeyword "PUBLIC" && chars.all isPublicIdChar then some ls else none
  | _ => none

/-- Splits off an external identifier: a system identifier, perhaps after a public one. -/
def externalId? (ls : List Lexeme) : Option (List Lexeme) :=
  match publicId? ls with
  | some (.quoted _ :: rest) => some rest
  | some _ => none
  | none =>
    match ls with
    | l :: .quoted _ :: rest => if l.isKeyword "SYSTEM" then some rest else none
    | _ => none

/-- Whether the lexemes declare a foreign format: an external identifier, of which the
    system identifier may be missing. -/
def isFormatDeclaration : List Lexeme → Bool
  | .word .plain _ :: ls =>
    match publicId? ls with
    | some [] => true
    | _ => match externalId? ls with
      | some [] => true
      | _ => false
  | _ => false

/-! ## Entities -/

/-- What an entity is declared to be: a text, as written, or something outside the
    document. -/
inductive Definition where
  | quoted (chars : List Char)
  | external

/-- What the lexemes define an entity to be.  Only a general entity can be in a foreign
    format. -/
def definition? (general : Bool) : List Lexeme → Option Definition
  | [.quoted chars] => some (.quoted chars)
  | ls =>
    match externalId? ls with
    | some [] => some .external
    | some [l, .word .plain _] => if general && l.isKeyword "NDATA" then some .external else none
    | _ => none

/-! ## Declarations -/

/-- What a declaration declares. -/
inductive Declared where
  | entity (name : String) (d : Definition)
  /-- An entity for use in declarations. -/
  | parameter (d : Definition)
  | attributes (owner : List Char) (rules : List AttributeRule)
  /-- Nothing that changes how a document is read. -/
  | other

/-- What the lexemes of the declaration of an entity declare. -/
def entityDeclared? : List Lexeme → Option Declared
  | .percent :: .word .plain _ :: ls => (definition? false ls).map .parameter
  | .word .plain name :: ls => (definition? true ls).map (.entity (String.ofList name))
  | _ => none

/-- What the lexemes of the declaration of attributes declare. -/
def attributesDeclared? : List Lexeme → Option Declared
  | .word sort owner :: ls =>
    if sort.isName then (attributeRules? .name ls).map (.attributes owner) else none
  | _ => none

/-- Reads a declaration, between `<!` and `>`: a keyword, a blank and the rest. -/
def declaration? (letters : Letters) (cs : List Char) : Option Declared :=
  match cs.span (!isSpace ·) with
  | (_, []) => none
  | (keyword, rest) => do
    let ls ← lexemes? letters rest
    match String.ofList keyword with
    | "ENTITY" => entityDeclared? ls
    | "ATTLIST" => attributesDeclared? ls
    | "ELEMENT" => if isElementDeclaration ls then some .other else none
    | "NOTATION" => if isFormatDeclaration ls then some .other else none
    | _ => none

/-- Reads the head of a document type, after its keyword: a name and perhaps an external
    identifier.  Gives whether there is one. -/
def doctypeHead? (letters : Letters) : List Char → Option Bool
  | [] => none
  | c :: cs =>
    if !isSpace c then none
    else
      match lexemes? letters cs with
      | some (.word sort _ :: ls) =>
        if !sort.isName then none
        else if ls.isEmpty then some false
        else match externalId? ls with
          | some [] => some true
          | _ => none
      | _ => none

end SourceScribe.Markup
