/-
  Kinds of tokens.

  A token has a kind; an operator token has, beside that, the operator its text
  spells.  `ExactKind` is the finer of the two readings.
-/
namespace SourceScribe

/-- What a token is.  `lineBreak` is a line end inside a statement or on a blank line,
    `newline` the one that ends a statement. -/
inductive TokenKind where
  | encoding | comment | lineBreak | newline | name | number | string | operator
  | indent | dedent | endMarker | unknown
deriving DecidableEq

namespace TokenKind

/-- The name of a kind. -/
def label : TokenKind → String
  | endMarker => "ENDMARKER"
  | name => "NAME"
  | number => "NUMBER"
  | string => "STRING"
  | newline => "NEWLINE"
  | indent => "INDENT"
  | dedent => "DEDENT"
  | operator => "OP"
  | unknown => "ERRORTOKEN"
  | comment => "COMMENT"
  | lineBreak => "NL"
  | encoding => "ENCODING"

/-- The number of a kind. -/
def code : TokenKind → Nat
  | endMarker => 0
  | name => 1
  | number => 2
  | string => 3
  | newline => 4
  | indent => 5
  | dedent => 6
  | operator => 54
  | unknown => 60
  | comment => 61
  | lineBreak => 62
  | encoding => 63

/-- All kinds. -/
def all : List TokenKind :=
  [encoding, comment, lineBreak, newline, name, number, string, operator, indent, dedent,
   endMarker, unknown]

/-- The kind of a name. -/
def ofLabel? (s : String) : Option TokenKind :=
  all.find? fun k => k.label = s

end TokenKind

/-- The operators and delimiters. -/
inductive Operator where
  | lpar | rpar | lsqb | rsqb | lbrace | rbrace | colon | comma | semi | dot | equal | star
  | doubleStar | atSign | plus | minus | slash | vbar | amper | less | greater | percent | eqEqual
  | notEqual | lessEqual | greaterEqual | tilde | circumflex | leftShift | rightShift
  | doubleSlash | rarrow | ellipsis | plusEqual | minEqual | starEqual | slashEqual
  | percentEqual | amperEqual | vbarEqual | circumflexEqual | leftShiftEqual
  | rightShiftEqual | doubleStarEqual | doubleSlashEqual | atEqual | colonEqual
deriving DecidableEq

namespace Operator

/-- Every operator with its spelling and its name. -/
def table : List (Operator × String × String) :=
  [(lpar, "(", "LPAR"), (rpar, ")", "RPAR"), (lsqb, "[", "LSQB"), (rsqb, "]", "RSQB"),
   (lbrace, "\x7b", "LBRACE"), (rbrace, "\x7d", "RBRACE"), (colon, ":", "COLON"),
   (comma, ",", "COMMA"), (semi, ";", "SEMI"), (dot, ".", "DOT"), (equal, "=", "EQUAL"),
   (star, "*", "STAR"), (doubleStar, "**", "DOUBLESTAR"), (atSign, "@", "AT"), (plus, "+", "PLUS"),
   (minus, "-", "MINUS"), (slash, "/", "SLASH"), (vbar, "|", "VBAR"), (amper, "&", "AMPER"),
   (less, "<", "LESS"), (greater, ">", "GREATER"), (percent, "%", "PERCENT"),
   (eqEqual, "==", "EQEQUAL"), (notEqual, "!=", "NOTEQUAL"), (lessEqual, "<=", "LESSEQUAL"),
   (greaterEqual, ">=", "GREATEREQUAL"), (tilde, "~", "TILDE"),
   (circumflex, "^", "CIRCUMFLEX"), (leftShift, "<<", "LEFTSHIFT"),
   (rightShift, ">>", "RIGHTSHIFT"), (doubleSlash, "//", "DOUBLESLASH"),
   (rarrow, "->", "RARROW"), (ellipsis, "...", "ELLIPSIS"), (plusEqual, "+=", "PLUSEQUAL"),
   (minEqual, "-=", "MINEQUAL"), (starEqual, "*=", "STAREQUAL"),
   (slashEqual, "/=", "SLASHEQUAL"), (percentEqual, "%=", "PERCENTEQUAL"),
   (amperEqual, "&=", "AMPEREQUAL"), (vbarEqual, "|=", "VBAREQUAL"),
   (circumflexEqual, "^=", "CIRCUMFLEXEQUAL"), (leftShiftEqual, "<<=", "LEFTSHIFTEQUAL"),
   (rightShiftEqual, ">>=", "RIGHTSHIFTEQUAL"), (doubleStarEqual, "**=", "DOUBLESTAREQUAL"),
   (doubleSlashEqual, "//=", "DOUBLESLASHEQUAL"), (atEqual, "@=", "ATEQUAL"),
   (colonEqual, ":=", "COLONEQUAL")]

/-- The operator that a text spells. -/
def ofSpelling? (s : String) : Option Operator :=
  (table.find? fun row => row.2.1 = s).map (·.1)

/-- The operator of a name. -/
def ofLabel? (s : String) : Option Operator :=
  (table.find? fun row => row.2.2 = s).map (·.1)

/-- The name of an operator. -/
def label (o : Operator) : String :=
  ((table.find? fun row => row.1 = o).map (·.2.2)).getD ""

end Operator

/-- A kind, or for an operator token the operator itself. -/
inductive ExactKind where
  | kind (k : TokenKind)
  | op (o : Operator)
deriving DecidableEq

namespace ExactKind

/-- The name of an exact kind. -/
def label : ExactKind → String
  | kind k => k.label
  | op o => o.label

/-- The exact kind of a name. -/
def ofLabel? (s : String) : Option ExactKind :=
  ((TokenKind.ofLabel? s).map kind).or ((Operator.ofLabel? s).map op)

end ExactKind

end SourceScribe
