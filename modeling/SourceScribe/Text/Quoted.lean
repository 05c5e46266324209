/-
  Texts and byte strings between quotes.

  The quote is the apostrophe, unless the text has an apostrophe and no double
  quote.  The backslash, the quote in use, line feed, carriage return and tab are
  written with a backslash; any other character that is not printable is written by
  its number, in the shortest of the three hexadecimal forms; all else stands for
  itself.

  `quote` writes a text, `quoteBytes` a byte string.
-/
import SourceScribe.Text.Printable

namespace SourceScribe.Text

/-- `width` hexadecimal digits of `n`, the lowest ones. -/
def hexDigits : (width n : Nat) → List Char
  | 0, _ => []
  | width + 1, n => hexDigits width (n / 16) ++ [Nat.digitChar (n % 16)]

/-- The quote for a text: the double quote if that saves escaping. -/
def quoteFor (cs : List Char) : Char :=
  if cs.contains '\'' && !cs.contains '"' then '"' else '\''

/-- A character by its number. -/
def numericEscape (n : Nat) : List Char :=
  if n < 0x100 then '\\' :: 'x' :: hexDigits 2 n
  else if n < 0x10000 then '\\' :: 'u' :: hexDigits 4 n
  else '\\' :: 'U' :: hexDigits 8 n

/-- The escapes by letter, common to texts and byte strings. -/
def letterEscape? (q c : Char) : Option (List Char) :=
  if c = q || c = '\\' then some ['\\', c]
  else if c = '\n' then some ['\\', 'n']
  else if c = '\r' then some ['\\', 'r']
  else if c = '\t' then some ['\\', 't']
  else none

/-- How `c` is written between quotes `q`. -/
def escapeChar (q c : Char) : List Char :=
  (letterEscape? q c).getD (if isPrintable c then [c] else numericEscape c.toNat)

/-- The written form of a text. -/
def quoteChars (cs : List Char) : List Char :=
  let q := quoteFor cs
  q :: cs.flatMap (escapeChar q) ++ [q]

/-- A text between quotes. -/
def quote (s : String) : String :=
  String.ofList (quoteChars s.toList)

/-- How the byte that stands for `c` is written between quotes `q`. -/
def escapeByte (q c : Char) : List Char :=
  (letterEscape? q c).getD
    (if 0x20 ≤ c.toNat && c.toNat ≤ 0x7E then [c] else numericEscape c.toNat)

/-- A byte string between quotes. -/
def quoteBytes (bs : List UInt8) : String :=
  let cs := bs.map fun b => Char.ofNat b.toNat
  let q := quoteFor cs
  String.ofList ('b' :: q :: cs.flatMap (escapeByte q) ++ [q])

end SourceScribe.Text
