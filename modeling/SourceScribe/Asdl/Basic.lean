/-
  Grammars in the Abstract Syntax Description Language.

  A grammar has categories and types.  Every type belongs to a category; a category of one
  type is a product, one of several types a sum, and the types of scalars are built in.
  A type has fields, and a field has the category of what it holds, with a qualifier for
  how many it may hold.

  Categories and types are kept by name.  What is stored under a name that is there
  replaces what was stored before.
-/
import SourceScribe.Entries

namespace SourceScribe.Asdl

open Entries

/-- A field of a type.  The qualifier is `*` for any number, `?` for one or none, and empty
    for just one. -/
structure Field where
  name : String
  category : String
  qualifier : String
deriving DecidableEq

/-- A type of nodes. -/
structure NodeType where
  name : String
  category : String
  fields : List Field
  attributes : List String
deriving DecidableEq

/-- A category with the names of its types. -/
structure Category where
  name : String
  types : List String
  builtin : Bool
deriving DecidableEq

/-- A grammar. -/
structure Grammar where
  categories : List (String × Category)
  types : List (String × NodeType)

namespace Grammar

/-- A grammar with nothing in it. -/
def empty : Grammar := ⟨[], []⟩

/-- Stores a category under a name. -/
def addCategory (g : Grammar) (name : String) (c : Category) : Grammar :=
  { g with categories := store g.categories name c }

/-- Stores a type under its name. -/
def addType (g : Grammar) (t : NodeType) : Grammar :=
  { g with types := store g.types t.name t }

end Grammar

/-- Why a grammar cannot be read or shown. -/
inductive Fault where
  /-- The text has no first line. -/
  | noFirstLine
  /-- There is not just one opening brace with one closing brace after it. -/
  | badBraces
  /-- The first definition has no equals sign on its first line. -/
  | noEqualsSign
  /-- There is no definition at all. -/
  | noDefinition
  /-- A definition has not just one equals sign. -/
  | severalEqualsSigns
  /-- A definition has several lists of attributes. -/
  | severalAttributeLists
  /-- A field has no name. -/
  | fieldWithoutName
  /-- A field has no category. -/
  | fieldWithoutCategory
  /-- There are more groups to colour than colours. -/
  | outOfColours
  /-- There is no category of this name. -/
  | unknownCategory (name : String)
deriving DecidableEq

end SourceScribe.Asdl
