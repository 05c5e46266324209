/-
  Why a conversion fails.

  A failure has a cause and a trail: the nodes that were being converted when it
  happened, innermost first.
-/
import SourceScribe.Language.Classes
import SourceScribe.Token.Basic
import SourceScribe.Tree.NodeRef

namespace SourceScribe.Conversion

/-- What can go wrong in a conversion. -/
inductive Cause where
  /-- A token is needed and none is left. -/
  | outOfTokens
  /-- The source has no such line, or the line no such column. -/
  | outOfSource
  /-- A node of the tree has a row and no column. -/
  | rowWithoutColumn
  /-- A node has no field of this name. -/
  | missingField (name : String)
  /-- A comparison by an operator that is none. -/
  | unknownComparison (cls : String)
  /-- What stands here is not what is needed: a scalar for a node, a node for a
      scalar, or nothing at all. -/
  | wrongSort
  /-- A node does not say where it starts. -/
  | noPosition
  /-- There is no token before the current one. -/
  | noTokenBefore
  /-- What stands here is not a list. -/
  | notAList
  /-- What stands here is not a text. -/
  | notAText
  /-- Two arguments of one kind start at the same place. -/
  | samePlace
  /-- The next token is not the one the tree asks for; `found` is set where the
      message shows it. -/
  | unexpectedToken (found : Option Token)
  /-- There is no rule for this class of node. -/
  | noRule (cls : String)
  /-- The whole tree is not a module. -/
  | notAModule
  /-- There is no grammar of this version of the language. -/
  | version (f : Language.VersionFault)
deriving DecidableEq

namespace Cause

/-- The message of the causes that have one. -/
def message? : Cause → Option String
  | unexpectedToken found => some ((found.map Token.describe).getD "")
  | noRule cls => some ("**** unimplemented coverter " ++ cls)
  | _ => none

end Cause

/-- A cause and the nodes that were being converted, innermost first. -/
structure Failure where
  cause : Cause
  trail : List NodeRef

namespace Failure

/-- A failure outside any node. -/
def of (c : Cause) : Failure := ⟨c, []⟩

/-- The failure seen from a node around it. -/
def within (r : NodeRef) (f : Failure) : Failure :=
  { f with trail := f.trail ++ [r] }

/-- One line for every node of the trail. -/
def log (f : Failure) : List String :=
  f.trail.map fun r => "Error on " ++ r.inConversion

end Failure

end SourceScribe.Conversion
