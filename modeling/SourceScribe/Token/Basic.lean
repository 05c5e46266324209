/-
  Tokens and the gaps between them.

  A token is a piece of the source with its place and the line it stands on.  The
  gap between two tokens is the text that the source has between them; it is not in
  the tokens, but can be told from their places and the line of the first one.

  `Token.gap` is that text.  `gap_sameRow`, `gap_endMarker` and `gap_nextRow` say
  what it is in each of the three cases.
-/
import SourceScribe.Position
import SourceScribe.Text.Columns
import SourceScribe.Text.Quoted
import SourceScribe.Token.Kind

namespace SourceScribe

/-- A piece of the source.  `line` is the line (or lines) it stands on. -/
structure Token where
  kind : TokenKind
  text : String
  start : Position
  stop : Position
  line : String
deriving DecidableEq

namespace Token

/-- The token's kind; for an operator token, the operator that its text spells. -/
def exact (t : Token) : ExactKind :=
  if t.kind = .operator then
    match Operator.ofSpelling? t.text with
    | some o => .op o
    | none => .kind .operator
  else .kind t.kind

/-- Whether the token is operator `o`. -/
def isOp (t : Token) (o : Operator) : Bool :=
  t.exact = .op o

/-- Line breaks and comments, which may stand between any two tokens inside
    brackets. -/
def isFiller (t : Token) : Bool :=
  t.kind = .lineBreak || t.kind = .comment

/-- What separates the items of a list: commas, with line breaks and comments. -/
def isDelimiter (t : Token) : Bool :=
  t.isOp .comma || t.isFiller

/-- What stands between two statements and belongs to neither. -/
def isBetweenStatements (t : Token) : Bool :=
  t.isOp .semi || t.kind = .newline || t.isFiller || t.kind = .indent || t.kind = .dedent

/-! ## Gaps -/

/-- The text between two consecutive tokens.  On one row it is blanks.  Across rows it
    is the rest of the first token's line and the blanks before the second token,
    but nothing before the end marker. -/
def gap (a b : Token) : String :=
  if a.stop.row = b.start.row then Text.spaces (b.start.column - a.stop.column)
  else if b.kind = .endMarker then ""
  else Text.dropSigned a.line a.stop.column ++ Text.spaces b.start.column

theorem gap_sameRow {a b : Token} (h : a.stop.row = b.start.row) :
    gap a b = Text.spaces (b.start.column - a.stop.column) := by
  simp [gap, h]

theorem gap_endMarker {a b : Token} (h : a.stop.row ≠ b.start.row) (hb : b.kind = .endMarker) :
    gap a b = "" := by
  simp [gap, h, hb]

theorem gap_nextRow {a b : Token} (h : a.stop.row ≠ b.start.row) (hb : b.kind ≠ .endMarker) :
    gap a b = Text.dropSigned a.line a.stop.column ++ Text.spaces b.start.column := by
  simp [gap, h, hb]

/-! ## Written form -/

/-- A position between round brackets. -/
def placeText (p : Position) : String :=
  "(" ++ toString p.row ++ ", " ++ toString p.column ++ ")"

/-- All parts of a token, for messages. -/
def describe (t : Token) : String :=
  "TokenInfo(type=" ++ toString t.kind.code ++ " (" ++ t.kind.label ++ "), string="
    ++ Text.quote t.text ++ ", start=" ++ placeText t.start ++ ", end=" ++ placeText t.stop
    ++ ", line=" ++ Text.quote t.line ++ ")"

end Token

end SourceScribe
