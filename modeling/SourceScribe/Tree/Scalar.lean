/-
  Scalars: what a field of a syntax tree holds when it holds no node.

  `Scalar.text` is the written form of a scalar, `Scalar.isEmpty` tells the scalars
  that count as absent.
-/
import SourceScribe.Text.Quoted

namespace SourceScribe

/-- A value that is no node.  Reals and complex numbers are kept by their written
    form. -/
inductive Scalar where
  | none
  | bool (b : Bool)
  | int (i : Int)
  | real (text : String)
  | complex (text : String)
  | str (s : String)
  | bytes (bs : List UInt8)
  | ellipsis
deriving DecidableEq

namespace Scalar

/-- The written form: numbers and names bare, texts and byte strings quoted. -/
def text : Scalar → String
  | none => "None"
  | bool true => "True"
  | bool false => "False"
  | int i => toString i
  | real t | complex t => t
  | str s => Text.quote s
  | bytes bs => Text.quoteBytes bs
  | ellipsis => "Ellipsis"

/-- The plain form: as the written form, but a text stands for itself. -/
def plain : Scalar → String
  | str s => s
  | v => v.text

/-- Whether the scalar counts as absent where a part is optional: nothing, false, a
    zero, or an empty text or byte string. -/
def isEmpty : Scalar → Bool
  | none => true
  | bool b => !b
  | int i => i = 0
  | real t => t = "0.0" || t = "-0.0"
  | complex t => t ∈ ["0j", "-0j", "(-0+0j)", "(-0-0j)"]
  | str s => s = ""
  | bytes bs => bs.isEmpty
  | ellipsis => false

end Scalar

end SourceScribe
