/-
  The text of a tree: every node with its class, its position numbers and its fields in
  the order of their names, all on one line.
-/
import SourceScribe.Tree.Basic

namespace SourceScribe.Tree

/-- A named value. -/
def entryText (name value : String) : String :=
  name ++ "=" ++ value

mutual

/-- The tree on one line. -/
def dump : Tree → String
  | leaf v => v.text
  | list items => "[" ++ ", ".intercalate (dumpItems items) ++ "]"
  | node cls places fields =>
    cls ++ "(" ++ ", ".intercalate
      ((namedPlaces places).map (fun p => entryText p.1 (toString p.2))
        ++ (sortFields (dumpFields fields)).map fun f => entryText f.1 f.2) ++ ")"

/-- The fields' texts under their names. -/
def dumpFields : List (String × Tree) → List (String × String)
  | [] => []
  | (name, t) :: fields => (name, t.dump) :: dumpFields fields

/-- The items' texts. -/
def dumpItems : List Tree → List String
  | [] => []
  | t :: items => t.dump :: dumpItems items

end

end SourceScribe.Tree
