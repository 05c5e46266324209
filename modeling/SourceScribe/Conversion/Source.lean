/-
  Conversion of a source, by where the source comes from.
-/
import SourceScribe.Conversion.Basic
import SourceScribe.Language.Classes

namespace SourceScribe.Conversion

/-- Where a source comes from.  The newlines of a file are unified when it is read. -/
inductive Origin where
  | memory
  | file
deriving DecidableEq

/-- The lines of a source. -/
def Origin.lines (o : Origin) (source : String) : List String :=
  Text.physicalLines (match o with
    | .memory => source
    | .file => Text.unifyNewlines source)

/-- A source as it comes from the parser: its text, its tree and its tokens. -/
structure Parsed where
  text : String
  tree : Tree
  tokens : List Token

/-- Converts a source of some version of the language. -/
def convertSource (version : List String) (origin : Origin) (source : Parsed) :
    Except Failure Markup :=
  match Language.Edition.ofVersion version with
  | .error f => .error (.of (.version f))
  | .ok _ => convert (origin.lines source.text) source.tree source.tokens

mutual

/-- The nodes in a part with their starts, fields in the order of their names. -/
def Part.starts : Part → List (NodeRef × Except Cause Position)
  | .leaf _ | .letter => []
  | .list items => itemStarts items
  | .node ref fields start _ =>
    (ref, start) :: ((Tree.sortFields (fieldStarts fields)).map (·.2)).flatten

/-- The nodes in every field under its name. -/
def fieldStarts : List (String × Part) → List (String × List (NodeRef × Except Cause Position))
  | [] => []
  | (name, p) :: fields => (name, p.starts) :: fieldStarts fields

/-- The nodes in the items; a list inside a list is not looked into. -/
def itemStarts : List Part → List (NodeRef × Except Cause Position)
  | [] => []
  | .list _ :: items => itemStarts items
  | p :: items => p.starts ++ itemStarts items

end

/-- Where every node of a tree starts. -/
def starts (lines : List String) (t : Tree) : List (NodeRef × Except Cause Position) :=
  (toPart lines .root t).starts

end SourceScribe.Conversion
