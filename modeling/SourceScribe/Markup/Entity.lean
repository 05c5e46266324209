/-
  References in markup: characters by number, and entities by name.

  Five entities are always known; a document may declare more, each with a text that
  stands for it.  In the value of an attribute the text of an entity counts as part of
  the value, with the references in it resolved in turn, and must not have a `<`.

  Entities that refer to one another can stand for far more text than a document has;
  `expandedSizes` tells how much before any of it is written out.
-/
import SourceScribe.Markup.Name

namespace SourceScribe.Markup

/-! ## Characters by number -/

/-- The value of a hexadecimal digit. -/
def hexDigit? (c : Char) : Option Nat :=
  if c.isDigit then some (c.toNat - '0'.toNat)
  else if 'a' ≤ c ∧ c ≤ 'f' then some (c.toNat - 'a'.toNat + 10)
  else if 'A' ≤ c ∧ c ≤ 'F' then some (c.toNat - 'A'.toNat + 10)
  else none

/-- The value of a decimal digit. -/
def decimalDigit? (c : Char) : Option Nat :=
  if c.isDigit then some (c.toNat - '0'.toNat) else none

/-- The number that digits of base `base` make. -/
def digitsValue? (base : Nat) (digit? : Char → Option Nat) : Nat → List Char → Option Nat
  | acc, [] => some acc
  | acc, c :: cs => do digitsValue? base digit? (acc * base + (← digit? c)) cs

/-- The character of a number, if a document may hold it. -/
def numbered? (n : Nat) : Option Char :=
  if h : n.isValidChar then
    let c := Char.ofNatAux n h
    if isDocumentChar c then some c else none
  else none

/-- The character that a reference by number names; `cs` is what stands after the number
    sign. -/
def charRef? : List Char → Option Char
  | [] | ['x'] => none
  | 'x' :: cs => (digitsValue? 16 hexDigit? 0 cs).bind numbered?
  | cs => (digitsValue? 10 decimalDigit? 0 cs).bind numbered?

/-! ## Entities -/

/-- A declared entity: a text that stands for it, or something outside the document. -/
inductive Entity where
  | internal (content : List Char)
  | external

/-- The entities that need no declaration. -/
def standardEntity? (name : String) : Option Char :=
  match name with
  | "lt" => some '<'
  | "gt" => some '>'
  | "amp" => some '&'
  | "quot" => some '"'
  | "apos" => some '\''
  | _ => none

/-- What a reference names. -/
inductive Referent where
  | char (c : Char)
  | entity (name : String)

/-- Reads the inside of a reference, between `&` and `;`. -/
def referent? (letters : Letters) (cs : List Char) : Option Referent :=
  match cs with
  | '#' :: digits => (charRef? digits).map .char
  | _ =>
    if isPlainName letters cs then
      let name := String.ofList cs
      match standardEntity? name with
      | some c => some (.char c)
      | none => some (.entity name)
    else none

/-- The text that a declared value stands for: references to characters are resolved,
    references to entities are left.  `ref` is the reference being read, backwards; the
    text is given backwards, after `acc`. -/
def declaredText (letters : Letters) : (ref : Option (List Char)) → (acc : List Char) → List Char →
    Option (List Char)
  | none, acc, [] => some acc
  | some _, _, [] => none
  | none, acc, c :: cs =>
    if c = '%' then none
    else if c = '&' then declaredText letters (some []) acc cs
    else declaredText letters none (c :: acc) cs
  | some ref, acc, c :: cs =>
    if c = ';' then
      match ref.reverse with
      | '#' :: digits => do declaredText letters none ((← charRef? digits) :: acc) cs
      | name =>
        if isPlainName letters name then declaredText letters none (';' :: ref ++ '&' :: acc) cs
        else none
    else declaredText letters (some (c :: ref)) acc cs

/-- The text that is read for an entity with a declared value. -/
def entityText? (letters : Letters) (value : List Char) : Option (List Char) :=
  (declaredText letters none [] value).map List.reverse

/-! ## Entities in the values of attributes -/

/-- Reads a text that belongs to the value of an attribute.  `ref` is the reference being
    read, backwards, if one is; `resolve` gives the characters of an entity.  The value is
    given backwards, after `acc`. -/
def valueOfText (letters : Letters) (resolve : String → Option (List Char)) :
    (ref : Option (List Char)) → (acc : List Char) → List Char → Option (List Char)
  | none, acc, [] => some acc
  | some _, _, [] => none
  | none, acc, c :: cs =>
    if !isDocumentChar c || c = '<' then none
    else if c = '&' then valueOfText letters resolve (some []) acc cs
    else valueOfText letters resolve none ((if isSpace c then ' ' else c) :: acc) cs
  | some ref, acc, c :: cs =>
    if c = ';' then
      match referent? letters ref.reverse with
      | none => none
      | some (.char d) => valueOfText letters resolve none (d :: acc) cs
      | some (.entity name) => do
        let more ← resolve name
        valueOfText letters resolve none (more.reverse ++ acc) cs
    else valueOfText letters resolve (some (c :: ref)) acc cs

/-- The characters that an entity stands for in the value of an attribute.  `depth` bounds
    how many entities may be inside one another, and `busy` are those being resolved.
    An undeclared entity stands for nothing if `lenient` says so. -/
def entityValue (entities : List (String × Entity)) (lenient : Bool) :
    (depth : Nat) → (busy : List String) → String → Option (List Char)
  | 0, _, _ => none
  | depth + 1, busy, name =>
    if name ∈ busy then none
    else
      match entities.lookup name with
      | none => if lenient then some [] else none
      | some .external => none
      | some (.internal content) =>
        (valueOfText .standard (entityValue entities lenient depth (name :: busy)) none [] content).map
          List.reverse

/-! ## How much entities stand for -/

/-- The names that a text refers to.  `ref` is the reference being read, backwards, if one
    is. -/
def references : (ref : Option (List Char)) → List Char → List String
  | _, [] => []
  | none, c :: cs => references (if c = '&' then some [] else none) cs
  | some ref, c :: cs =>
    if c = ';' then String.ofList ref.reverse :: references none cs
    else references (some (c :: ref)) cs

/-- How many bytes the entities named stand for. -/
def referredSize (sizes : List (String × Nat)) (names : List String) : Nat :=
  names.foldl (fun n name => n + (sizes.lookup name).getD 0) 0

/-- How many bytes each entity stands for, with the entities in it written out so many
    levels deep. -/
def expandedSizes (entities : List (String × Entity)) : (levels : Nat) → List (String × Nat)
  | 0 => []
  | levels + 1 =>
    let inner := expandedSizes entities levels
    entities.map fun
      | (name, .external) => (name, 0)
      | (name, .internal content) =>
        (name, (String.ofList content).utf8ByteSize + referredSize inner (references none content))

/-- Whether a document of so many bytes may have entities in it that stand for so many:
    below eight mebibytes in all it may, and above as long as they are no more than a
    hundred for one. -/
def mayExpand (size expanded : Nat) : Bool :=
  size + expanded < 8 * 1024 * 1024 || size + expanded ≤ 100 * size

end SourceScribe.Markup
