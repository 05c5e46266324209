/-
  The listing of a tree: one line for every place in it, with the path of the place.

  A line shows the class of a node, the text of a scalar, or that there is a list; the
  lines of what a node or list holds follow its own line, fields in the order of their
  names.  A list that holds a scalar cannot be listed.

  `Tree.nodes` gives the nodes of a tree in the order of the listing.
-/
import SourceScribe.Tree.NodeRef

namespace SourceScribe.Tree

/-- Joins lists if all are there. -/
def joinAll {α : Type} : List (Option (List α)) → Option (List α)
  | [] => some []
  | none :: _ => none
  | some xs :: rest => (joinAll rest).map (xs ++ ·)

/-- The line of a scalar at a place. -/
def scalarLine (place : String) (v : Scalar) : String :=
  place ++ " => " ++ v.text

mutual

/-- The lines of the tree at `path`, its own first. -/
def listing (path : Path) : Tree → Option (List String)
  | leaf v => some [scalarLine path.text v]
  | list items =>
    (itemListing path 0 items).map ((path.listText items.length ++ " []") :: ·)
  | node cls _ fields =>
    (joinAll ((sortFields (fieldListings path fields)).map (·.2))).map
      ((path.text ++ " (" ++ cls ++ ")") :: ·)

/-- The lines of every field under its name. -/
def fieldListings (path : Path) : List (String × Tree) → List (String × Option (List String))
  | [] => []
  | (name, t) :: fields => (name, t.listing (path.field name)) :: fieldListings path fields

/-- The lines of the items from index `i` on, which have to be nodes. -/
def itemListing (path : Path) (i : Nat) : List Tree → Option (List String)
  | [] => some []
  | node cls places fields :: items =>
    joinAll [(node cls places fields).listing (path.item i), itemListing path (i + 1) items]
  | _ :: _ => none

end

/-- The listing of a whole tree.  The root has no line of its own. -/
def fullListing (t : Tree) : Option (List String) :=
  (t.listing .root).map List.tail

mutual

/-- The nodes of the tree at `path`, fields in the order of their names. -/
def nodes (path : Path) : Tree → List NodeRef
  | leaf _ => []
  | list items => itemNodes path 0 items
  | node cls places fields =>
    ⟨path, cls, places⟩ :: ((sortFields (fieldNodes path fields)).map (·.2)).flatten

/-- The nodes of every field under its name. -/
def fieldNodes (path : Path) : List (String × Tree) → List (String × List NodeRef)
  | [] => []
  | (name, t) :: fields => (name, t.nodes (path.field name)) :: fieldNodes path fields

/-- The nodes of the items from index `i` on; a list inside a list is not looked into. -/
def itemNodes (path : Path) (i : Nat) : List Tree → List NodeRef
  | [] => []
  | list _ :: items => itemNodes path (i + 1) items
  | t :: items => t.nodes (path.item i) ++ itemNodes path (i + 1) items

end

end SourceScribe.Tree
