/-
  References to nodes: a node without what it holds, for messages and listings.
-/
import SourceScribe.Tree.Basic
import SourceScribe.Tree.Path

namespace SourceScribe

/-- A node without what it holds: its place in the tree, its class and its position
    numbers. -/
structure NodeRef where
  path : Path
  cls : String
  places : List Int

namespace NodeRef

/-- Where the node starts, if its position numbers say so. -/
def start? (r : NodeRef) : Option Position :=
  Tree.startOf? r.places

/-- Named position numbers, as a list of pairs in brackets. -/
def placesText (places : List Int) : String :=
  "[" ++ ", ".intercalate ((Tree.namedPlaces places).map fun p =>
    "(" ++ Text.quote p.1 ++ ", " ++ toString p.2 ++ ")") ++ "]"

/-- The node in one line, under the name of the kind of view it belongs to. -/
def describe (view : String) (r : NodeRef) : String :=
  view ++ "(path=" ++ r.path.text ++ ", node=<class '_ast." ++ r.cls ++ "'>, attrs="
    ++ placesText r.places ++ ")"

/-- The node in one line, as a conversion shows it. -/
def inConversion (r : NodeRef) : String :=
  r.describe "AstNodeX"

end NodeRef

end SourceScribe
