/-
  The lexemes of a declaration in a document type.

  A declaration is made of words, quoted texts, marked words such as `#IMPLIED`, brackets
  with an optional mark after the closing one, and connectors.  What may follow a lexeme
  without a blank between is part of the rules: a word may touch a closing bracket, and not
  an opening one.  The end of the text stands for the `>` that ends the declaration.

  `lexemes?` reads them by a machine, one character after the other.
-/
import SourceScribe.Markup.Name

namespace SourceScribe.Markup

/-- What a word is: a name, a name with one colon in it, or just characters of names. -/
inductive WordSort where
  | plain
  | qualified
  | token
deriving DecidableEq

/-- Whether a word can name an element or an attribute. -/
def WordSort.isName : WordSort → Bool
  | .token => false
  | _ => true

/-- A part of a declaration. -/
inductive Lexeme where
  | word (sort : WordSort) (chars : List Char)
  /-- A name and how often what it names may come. -/
  | counted
  | quoted (chars : List Char)
  /-- A word after a number sign. -/
  | marked (chars : List Char)
  | percent
  | opened
  /-- A closing bracket, and how often what it closes may come. -/
  | closed (mark : Option Char)
  | comma
  | bar

/-- Whether a lexeme is this word of the language of declarations. -/
def Lexeme.isKeyword (keyword : String) : Lexeme → Bool
  | .word .plain chars => chars = keyword.toList
  | _ => false

/-- Whether `c` says how often something may come. -/
def isCountMark (c : Char) : Bool :=
  c = '*' || c = '+' || c = '?'

/-! ## The machine -/

/-- The lexeme being read.  Its characters are kept backwards. -/
inductive Pending where
  | nothing
  | word (sort : WordSort) (seen : List Char)
  /-- A name and the colon after it. -/
  | colon (seen : List Char)
  | quoted (quote : Char) (seen : List Char)
  /-- After a quoted text. -/
  | unquoted
  | marked (seen : List Char)
  | percent
  /-- After a closing bracket. -/
  | closed

namespace Pending

variable (letters : Letters)

/-- The first character of a lexeme, or a blank. -/
def begin? (c : Char) : Option (List Lexeme × Pending) :=
  if isSpace c then some ([], .nothing)
  else if c = '"' || c = '\'' then some ([], .quoted c [])
  else if c = '#' then some ([], .marked [])
  else if c = '%' then some ([], .percent)
  else if c = '(' then some ([.opened], .nothing)
  else if c = ')' then some ([], .closed)
  else if c = ',' then some ([.comma], .nothing)
  else if c = '|' then some ([.bar], .nothing)
  else if isNameStart letters c then some ([], .word .plain [c])
  else if isNameChar letters c || c = ':' then some ([], .word .token [c])
  else none

/-- Ends a lexeme before `c`, which has to be a blank or one of `others`. -/
def endBefore? (l : Lexeme) (others : List Char) (c : Char) : Option (List Lexeme × Pending) :=
  if isSpace c || others.contains c then
    (begin? letters c).map fun next => (l :: next.1, next.2)
  else none

/-- A character after the start of a word. -/
def wordStep? (sort : WordSort) (seen : List Char) (c : Char) : Option (List Lexeme × Pending) :=
  if isNameChar letters c then some ([], .word sort (c :: seen))
  else if c = ':' then
    some ([], if sort = .plain then .colon seen else .word .token (c :: seen))
  else if isCountMark c then
    if sort.isName then some ([.counted], .nothing) else none
  else endBefore? letters (.word sort seen.reverse) [')', ',', '|', '%'] c

/-- One character: the lexemes that it completes, and the one that it leaves being read. -/
def step? : Pending → Char → Option (List Lexeme × Pending)
  | .nothing, c => begin? letters c
  | .word sort seen, c => wordStep? letters sort seen c
  | .colon seen, c =>
    if isNameChar letters c then some ([], .word .qualified (c :: ':' :: seen))
    else wordStep? letters .token (':' :: seen) c
  | .quoted quote seen, c =>
    if c = quote then some ([.quoted seen.reverse], .unquoted)
    else some ([], .quoted quote (c :: seen))
  | .unquoted, c => if isSpace c || c = '%' then begin? letters c else none
  | .marked [], c => if isNameStart letters c then some ([], .marked [c]) else none
  | .marked seen, c =>
    if isNameChar letters c then some ([], .marked (c :: seen))
    else endBefore? letters (.marked seen.reverse) [')', '|', '%'] c
  | .percent, c => endBefore? letters .percent [] c
  | .closed, c =>
    if isCountMark c then some ([.closed (some c)], .nothing)
    else endBefore? letters (.closed none) [')', ',', '|'] c

/-- The end of the declaration: the lexeme that it completes. -/
def finish? : Pending → Option (List Lexeme)
  | .nothing | .unquoted => some []
  | .word sort seen => some [.word sort seen.reverse]
  | .colon seen => some [.word .token (':' :: seen).reverse]
  | .quoted _ _ | .marked [] | .percent => none
  | .marked seen => some [.marked seen.reverse]
  | .closed => some [.closed none]

/-- The lexemes of a text, after what is being read. -/
def lexemes? : Pending → List Char → Option (List Lexeme)
  | p, [] => p.finish?
  | p, c :: cs => do
    let (done, next) ← p.step? letters c
    return done ++ (← lexemes? next cs)

end Pending

/-- The lexemes of the inside of a declaration. -/
def lexemes? (letters : Letters) (cs : List Char) : Option (List Lexeme) :=
  Pending.nothing.lexemes? letters cs

end SourceScribe.Markup
