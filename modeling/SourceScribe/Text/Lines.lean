/-
  Lines of a text.

  Three rules are in use.  A *physical line* ends after a line feed and keeps it
  (`physicalLines`).  Text that comes from a file first has its carriage returns
  turned into line feeds (`unifyNewlines`).  A *logical line* ends at any character
  that Unicode counts as a line boundary (`logicalLines`), and is kept with or
  without that character.

  `physicalLines_flatten` and `logicalLines_flatten`: the lines of a text, with
  their ends, put together are the text.
-/
namespace SourceScribe.Text

/-! ## Physical lines -/

/-- Cuts after every line feed. -/
def cutAfterLineFeed : List Char → List (List Char)
  | [] => []
  | c :: cs =>
    if c = '\n' then [c] :: cutAfterLineFeed cs
    else
      match cutAfterLineFeed cs with
      | [] => [[c]]
      | l :: ls => (c :: l) :: ls

theorem cutAfterLineFeed_flatten (cs : List Char) : (cutAfterLineFeed cs).flatten = cs := by
  induction cs with
  | nil => rfl
  | cons c cs ih =>
    rw [cutAfterLineFeed]
    split
    · simp [ih]
    · split <;> rename_i h <;> simp_all

/-- The lines of a text, each with the line feed that ends it. -/
def physicalLines (s : String) : List String :=
  (cutAfterLineFeed s.toList).map String.ofList

theorem physicalLines_flatten (s : String) :
    ((physicalLines s).map String.toList).flatten = s.toList := by
  simp [physicalLines, Function.comp_def, cutAfterLineFeed_flatten]

/-! ## Newlines of a file -/

/-- A carriage return, with the line feed after it if there is one, becomes a line
    feed. -/
def unifyChars : List Char → List Char
  | [] => []
  | '\r' :: '\n' :: cs => '\n' :: unifyChars cs
  | c :: cs => (if c = '\r' then '\n' else c) :: unifyChars cs

/-- The text of a file as it is read. -/
def unifyNewlines (s : String) : String :=
  String.ofList (unifyChars s.toList)

/-! ## Logical lines -/

/-- The characters that end a logical line. -/
def isLineBoundary (c : Char) : Bool :=
  c.toNat ∈ [0x0A, 0x0B, 0x0C, 0x0D, 0x1C, 0x1D, 0x1E, 0x85, 0x2028, 0x2029]

/-- Cuts after every line boundary; a carriage return and the line feed after it are
    one boundary. -/
def cutAfterBoundary : List Char → List (List Char)
  | [] => []
  | '\r' :: '\n' :: cs => ['\r', '\n'] :: cutAfterBoundary cs
  | c :: cs =>
    if isLineBoundary c then [c] :: cutAfterBoundary cs
    else
      match cutAfterBoundary cs with
      | [] => [[c]]
      | l :: ls => (c :: l) :: ls

theorem cutAfterBoundary_flatten (cs : List Char) : (cutAfterBoundary cs).flatten = cs := by
  fun_induction cutAfterBoundary cs with
  | case1 => rfl
  | case2 cs ih => simp [ih]
  | case3 c cs _ _ ih => simp [ih]
  | case4 c cs _ _ h ih => simp_all
  | case5 c cs _ _ l ls h ih => simp_all

/-- The logical lines of a text, each with the boundary that ends it. -/
def logicalLines (s : String) : List String :=
  (cutAfterBoundary s.toList).map String.ofList

theorem logicalLines_flatten (s : String) :
    ((logicalLines s).map String.toList).flatten = s.toList := by
  simp [logicalLines, Function.comp_def, cutAfterBoundary_flatten]

/-- The logical lines of a text without their boundaries. -/
def bareLines (s : String) : List String :=
  (cutAfterBoundary s.toList).map fun l =>
    String.ofList (l.takeWhile fun c => !isLineBoundary c)

end SourceScribe.Text
