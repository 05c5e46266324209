/-
  Syntax trees as a parser hands them over.

  A tree is a node with a class name, position numbers and named fields; a list; or
  a scalar.  Nothing says which fields a class has: what a reader of the tree needs
  and does not find is its own failure.

  `Tree.isPlaced` tells the trees that can be shown at all: no node has just one
  position number.
-/
import SourceScribe.Position
import SourceScribe.Tree.Scalar

namespace SourceScribe

/-- A syntax tree.  `places` are the node's position numbers, in the order of
    `Tree.placeNames`. -/
inductive Tree where
  | leaf (value : Scalar)
  | node (cls : String) (places : List Int) (fields : List (String × Tree))
  | list (items : List Tree)

namespace Tree

/-- The names of a node's position numbers. -/
def placeNames : List String :=
  ["lineno", "col_offset", "end_lineno", "end_col_offset"]

/-- Position numbers with their names. -/
def namedPlaces (places : List Int) : List (String × Int) :=
  placeNames.zip places

/-- Where a node with these position numbers starts, if they say so. -/
def startOf? : List Int → Option Position
  | row :: column :: _ => some ⟨row, column⟩
  | _ => none

/-- Fields in the order of their names. -/
def sortFields {α : Type} (fields : List (String × α)) : List (String × α) :=
  fields.mergeSort fun a b => decide (a.1 ≤ b.1)

theorem perm_sortFields {α : Type} (fields : List (String × α)) : (sortFields fields).Perm fields :=
  List.mergeSort_perm fields _

theorem pairwise_sortFields {α : Type} (fields : List (String × α)) :
    (sortFields fields).Pairwise fun f g => f.1 ≤ g.1 := by
  refine (List.pairwise_mergeSort ?_ ?_ fields).imp of_decide_eq_true
  · intro f g h hfg hgh
    exact decide_eq_true (String.le_trans (of_decide_eq_true hfg) (of_decide_eq_true hgh))
  · intro f g
    simpa using String.le_total f.1 g.1

mutual

/-- No node has just one position number: a row has its column. -/
def isPlaced : Tree → Bool
  | leaf _ => true
  | node _ places fields => places.length != 1 && isPlacedFields fields
  | list items => isPlacedItems items

/-- `isPlaced` of all fields. -/
def isPlacedFields : List (String × Tree) → Bool
  | [] => true
  | (_, t) :: fields => t.isPlaced && isPlacedFields fields

/-- `isPlaced` of all items; a list inside a list is not looked into. -/
def isPlacedItems : List Tree → Bool
  | [] => true
  | list _ :: items => isPlacedItems items
  | t :: items => t.isPlaced && isPlacedItems items

end

end Tree

end SourceScribe
