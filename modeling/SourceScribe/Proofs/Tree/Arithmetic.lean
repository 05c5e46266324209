/-
  Arithmetic expressions as they are written.

  An expression is built from numbers, names and signs, and any part of it may stand in
  a pair of parentheses.  It says how many blanks there are between its tokens, so that
  it has a text, and on a row and from a column on its tokens.

  Its tree knows nothing of parentheses.  A number, a name or a sign before an operand
  is recorded where it stands itself.  A binary operation is recorded where its left
  operand starts, with the parentheses of that one; or at its sign, which may only be
  if the left operand is a binary operation without parentheses.
-/
import SourceScribe.Proofs.Token.Spelling
import SourceScribe.Tree.Basic

namespace SourceScribe.Arithmetic

/-! ## Signs -/

/-- A sign before an operand. -/
inductive UnarySign where
  | plus | minus | invert | not
deriving DecidableEq

namespace UnarySign

def cls : UnarySign → String
  | plus => "UAdd"
  | minus => "USub"
  | invert => "Invert"
  | not => "Not"

def text : UnarySign → String
  | plus => "+"
  | minus => "-"
  | invert => "~"
  | not => "not"

def kind : UnarySign → TokenKind
  | not => .name
  | _ => .operator

end UnarySign

/-- A sign between two operands. -/
inductive BinarySign where
  | add | sub | mult | div | mod | pow | leftShift | rightShift | bitOr | bitXor | bitAnd | floorDiv
deriving DecidableEq

namespace BinarySign

def cls : BinarySign → String
  | add => "Add"
  | sub => "Sub"
  | mult => "Mult"
  | div => "Div"
  | mod => "Mod"
  | pow => "Pow"
  | leftShift => "LShift"
  | rightShift => "RShift"
  | bitOr => "BitOr"
  | bitXor => "BitXor"
  | bitAnd => "BitAnd"
  | floorDiv => "FloorDiv"

def text : BinarySign → String
  | add => "+"
  | sub => "-"
  | mult => "*"
  | div => "/"
  | mod => "%"
  | pow => "**"
  | leftShift => "<<"
  | rightShift => ">>"
  | bitOr => "|"
  | bitXor => "^"
  | bitAnd => "&"
  | floorDiv => "//"

end BinarySign

/-! ## Expressions -/

mutual

/-- An expression without parentheses around it.  The numbers say how many blanks there
    are; `atSign` asks that the operation be recorded at its sign. -/
inductive Bare where
  | number (value : Scalar) (digits : String)
  | name (id : String)
  | unary (sign : UnarySign) (blanks : Nat) (operand : Operand)
  | binary (left : Operand) (before : Nat) (sign : BinarySign) (after : Nat) (right : Operand)
      (atSign : Bool)

/-- An expression with at most one pair of parentheses around it. -/
inductive Operand where
  | plain (e : Bare)
  | enclosed (left : Nat) (e : Bare) (right : Nat)

end

mutual

/-- The text of an expression. -/
def Bare.text : Bare → String
  | .number _ digits => digits
  | .name id => id
  | .unary sign blanks operand => sign.text ++ Text.spaces blanks ++ operand.text
  | .binary left before sign after right _ =>
    left.text ++ Text.spaces before ++ sign.text ++ Text.spaces after ++ right.text

/-- The text of an expression, with its parentheses. -/
def Operand.text : Operand → String
  | .plain e => e.text
  | .enclosed left e right => "(" ++ Text.spaces left ++ e.text ++ Text.spaces right ++ ")"

end

/-- How wide an expression is. -/
def Bare.width (e : Bare) : Nat := e.text.length

/-- How wide an expression is, with its parentheses. -/
def Operand.width (e : Operand) : Nat := e.text.length

/-- Where an expression starts inside its parentheses, if it starts at `column` with
    them. -/
def Operand.inner (column : Int) : Operand → Int
  | .plain _ => column
  | .enclosed left _ _ => column + 1 + left

/-- Whether an expression is a binary operation without parentheses. -/
def Operand.isBareBinary : Operand → Bool
  | .plain (.binary ..) => true
  | _ => false

/-! ## Tokens and trees -/

section
variable (row : Int) (line : String)

mutual

/-- The tokens of an expression from `column` on. -/
def Bare.tokens (column : Int) : Bare → List Token
  | .number _ digits => [Token.onRow row line column .number digits]
  | .name id => [Token.onRow row line column .name id]
  | .unary sign blanks operand =>
    Token.onRow row line column sign.kind sign.text ::
      operand.tokens (column + sign.text.length + blanks)
  | .binary left before sign after right _ =>
    left.tokens column ++
      Token.onRow row line (column + left.width + before) .operator sign.text ::
        right.tokens (column + left.width + before + sign.text.length + after)

/-- The tokens of an expression from `column` on, with its parentheses. -/
def Operand.tokens (column : Int) : Operand → List Token
  | .plain e => e.tokens column
  | .enclosed left e right =>
    Token.onRow row line column .operator "(" :: e.tokens (column + 1 + left) ++
      [Token.onRow row line (column + 1 + left + e.width + right) .operator ")"]

end

/-- The column that an expression is recorded at if it starts at `column`. -/
def Bare.place (column : Int) : Bare → Int
  | .binary left before _ _ _ atSign =>
    if atSign && left.isBareBinary then column + left.width + before else column
  | _ => column

mutual

/-- The tree of an expression that starts at `column`. -/
def Bare.tree (column : Int) : Bare → Tree
  | .number value _ => .node "Num" [row, column] [("n", .leaf value)]
  | .name id =>
    .node "Name" [row, column] [("id", .leaf (.str id)), ("ctx", .node "Load" [] [])]
  | .unary sign blanks operand =>
    .node "UnaryOp" [row, column] [("op", .node sign.cls [] []),
      ("operand", operand.tree (column + sign.text.length + blanks))]
  | .binary left before sign after right atSign =>
    .node "BinOp" [row, (Bare.binary left before sign after right atSign).place column]
      [("left", left.tree column), ("op", .node sign.cls [] []),
       ("right", right.tree (column + left.width + before + sign.text.length + after))]

/-- The tree of an expression that starts at `column` with its parentheses. -/
def Operand.tree (column : Int) : Operand → Tree
  | .plain e => e.tree column
  | .enclosed left e _ => e.tree (column + 1 + left)

end

end

/-! ## Widths -/

@[simp] theorem length_spaces (n : Nat) : (Text.spaces n).length = n := by
  rw [← String.length_toList, Text.toList_spaces]
  simp

theorem UnarySign.length_text (sign : UnarySign) : 0 < sign.text.length := by
  cases sign <;> decide

theorem BinarySign.length_text (sign : BinarySign) : 0 < sign.text.length := by
  cases sign <;> decide

theorem Bare.width_unary (sign : UnarySign) (blanks : Nat) (operand : Operand) :
    (Bare.unary sign blanks operand).width = sign.text.length + blanks + operand.width := by
  simp [Bare.width, Operand.width, Bare.text]

theorem Bare.width_binary (left : Operand) (before : Nat) (sign : BinarySign) (after : Nat)
    (right : Operand) (atSign : Bool) :
    (Bare.binary left before sign after right atSign).width =
      left.width + before + sign.text.length + after + right.width := by
  simp [Bare.width, Operand.width, Bare.text]

theorem Operand.width_enclosed (left : Nat) (e : Bare) (right : Nat) :
    (Operand.enclosed left e right).width = 1 + left + e.width + right + 1 := by
  simp only [Bare.width, Operand.width, Operand.text, String.length_append, length_spaces]
  rfl

/-- No expression is recorded before its start. -/
theorem Bare.le_place (column : Int) (e : Bare) : column ≤ e.place column := by
  cases e with
  | binary left before sign after right atSign =>
    rw [Bare.place]
    split <;> omega
  | _ => exact Int.le_refl column

end SourceScribe.Arithmetic
