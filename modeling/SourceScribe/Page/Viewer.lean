/-
  A viewer: one tree, shown again and again.

  The viewer remembers what was loaded and which lines were recorded, so a later page may
  show more than an earlier one.  A request that fails keeps what was loaded and recorded
  before it failed.
-/
import SourceScribe.Page.Basic
import SourceScribe.Tree.Listing

namespace SourceScribe.Page

/-- A tree with its source, what is loaded and what is recorded. -/
structure Viewer where
  tree : Tree
  version : List String
  press : Press
  record : Record

namespace Viewer

/-- A viewer with nothing loaded or recorded. -/
def of (tree : Tree) (lines version : List String) : Viewer :=
  ⟨tree, version, ⟨lines, none, false⟩, .empty⟩

/-- Loads the classes of the viewer's version of the language. -/
def loadClasses (v : Viewer) : Except Fault (List Language.ClassInfo) × Viewer :=
  match Language.classesOf v.version with
  | .error f => (.error (.version f), v)
  | .ok classes => (.ok classes, { v with press := { v.press with classes := some classes } })

/-- Runs a step of writing on the record. -/
def run (v : Viewer) (m : Press → Tree → Writing String) : Except Fault String × Viewer :=
  match m v.press v.tree v.record with
  | .ok page r => (.ok page, { v with record := r })
  | .error f r => (.error f, { v with record := r })

/-- The table of the tree, with what is loaded now. -/
def table (v : Viewer) : Except Fault String × Viewer :=
  v.run wholeTree

/-- The whole page.  The layout and the classes are loaded first. -/
def page (v : Viewer) (name : String) : Except Fault String × Viewer :=
  let v := { v with press := { v.press with layout := true } }
  match v.loadClasses with
  | (.error f, v) => (.error f, v)
  | (.ok _, v) => v.run fun press t => filePage press name t

/-- The nodes that have lines recorded, in the order of the listing, with these lines. -/
def recorded (v : Viewer) : List (String × List Int) :=
  ((v.tree.nodes .root).map fun n => (n.path.text, v.record.lines n.path)).filter
    fun e => !e.2.isEmpty

end Viewer

end SourceScribe.Page
