/-
  Rows and columns that come from outside.

  An index below zero counts back from the end of the list, so `-1` names the last item:
  `signedGet?` is the look-up, `dropSigned` the tail of a text from such an index.

  A syntax tree counts columns in bytes of the UTF-8 form of a line, tokens count them in
  characters.  `byteColumns` lists, for every byte of a text, the index of the character it
  belongs to; `characterColumn?` turns one byte column into a character column.
  `length_byteColumns`: there are as many entries as the text has bytes.
-/
namespace SourceScribe.Text

/-! ## Indices from either end -/

/-- The item at `i`, counted from the end of the list if `i` is negative. -/
def signedGet? {α : Type} (xs : List α) (i : Int) : Option α :=
  if 0 ≤ i then xs[i.toNat]?
  else if 0 ≤ i + xs.length then xs[(i + xs.length).toNat]?
  else none

/-- The text from character `i` on, counted from the end of the text if `i` is
    negative; an index before the start of the text means the start. -/
def dropSigned (s : String) (i : Int) : String :=
  let cs := s.toList
  String.ofList (cs.drop (if 0 ≤ i then i.toNat else (i + cs.length).toNat))

/-- `n` blanks; none if `n` is negative. -/
def spaces (n : Int) : String :=
  String.ofList (List.replicate n.toNat ' ')

@[simp] theorem signedGet?_natCast {α : Type} (xs : List α) (n : Nat) :
    signedGet? xs (n : Int) = xs[n]? := by
  simp [signedGet?]

@[simp] theorem toList_spaces (n : Int) : (spaces n).toList = List.replicate n.toNat ' ' := by
  simp [spaces]

/-! ## Bytes and characters -/

/-- The characters' indices from `i` on, each as often as its character has bytes. -/
def byteColumnsFrom (i : Nat) : List Char → List Nat
  | [] => []
  | c :: cs => List.replicate c.utf8Size i ++ byteColumnsFrom (i + 1) cs

/-- For every byte of the text, the index of its character. -/
def byteColumns (s : String) : List Nat :=
  byteColumnsFrom 0 s.toList

theorem length_byteColumnsFrom (i : Nat) (cs : List Char) :
    (byteColumnsFrom i cs).length = (String.ofList cs).utf8ByteSize := by
  induction cs generalizing i with
  | nil => rfl
  | cons c cs ih =>
    rw [String.ofList_cons, String.utf8ByteSize_append, String.utf8ByteSize_singleton, ← ih (i + 1)]
    simp [byteColumnsFrom]

theorem length_byteColumns (s : String) : (byteColumns s).length = s.utf8ByteSize := by
  rw [byteColumns, length_byteColumnsFrom, String.ofList_toList]

/-- Whether every character of the text is one byte, so that both columns agree. -/
def isOneByte (s : String) : Bool :=
  s.toList.all fun c => c.utf8Size = 1

/-- The character column of a byte column in `line`, if the line has that byte.  A
    line of one-byte characters answers for any column. -/
def characterColumn? (line : String) (column : Int) : Option Int :=
  if isOneByte line then some column
  else (signedGet? (byteColumns line) column).map Int.ofNat

end SourceScribe.Text
