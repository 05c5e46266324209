/-
  Paths: where a node stands in its tree.

  A path is a list of steps from the root, each into a field or to an item of a list
  field.  Its written form names every field after a dot.  An item is written with
  the indices of all items up to it, one after the other: the items of field `body`
  are written `.body[0]`, `.body[0][1]`, `.body[0][1][2]`.
-/
namespace SourceScribe

/-- One step down a tree. -/
inductive Step where
  | field (name : String)
  | item (index : Nat)
deriving DecidableEq

/-- A place in a tree: the steps from the root, the last one first. -/
structure Path where
  steps : List Step
deriving DecidableEq

namespace Path

/-- The place of the whole tree. -/
def root : Path := ⟨[]⟩

/-- The place of a field. -/
def field (p : Path) (name : String) : Path := ⟨.field name :: p.steps⟩

/-- The place of an item, from the place of its list. -/
def item (p : Path) (index : Nat) : Path := ⟨.item index :: p.steps⟩

/-- The indices `0` to `n - 1`, each in brackets. -/
def indices : Nat → String
  | 0 => ""
  | n + 1 => indices n ++ "[" ++ toString n ++ "]"

/-- The written form of steps, the last one first. -/
def textOf : List Step → String
  | [] => ""
  | .field name :: up => textOf up ++ "." ++ name
  | .item index :: up => textOf up ++ indices (index + 1)

/-- The written form of a path. -/
def text (p : Path) : String := textOf p.steps

/-- The written form of the place of a list with `n` items: that of its last item. -/
def listText (p : Path) (n : Nat) : String := p.text ++ indices n

end Path

end SourceScribe
