/-
  Characters, and texts taken apart by them.

  `isBlank` is Unicode's White_Space property with the four information separators U+001C to
  U+001F added, and `isDigit` knows the decimal digits of all scripts (Unicode version 14).
  `strip` takes the white space off the ends of a text, `before` and `splitOn` cut a text at a
  separator, and `squeeze` leaves one character for every gap inside it.  `squeeze_of_all`: a
  text of gaps alone comes to nothing.
-/
namespace SourceScribe.Text

/-! ## White space -/

/-- The white-space characters, as closed ranges in rising order. -/
def blankRanges : List (Nat × Nat) :=
  [(0x09, 0x0D), (0x1C, 0x20), (0x85, 0x85), (0xA0, 0xA0), (0x1680, 0x1680), (0x2000, 0x200A),
   (0x2028, 0x2029), (0x202F, 0x202F), (0x205F, 0x205F), (0x3000, 0x3000)]

/-- Whether `c` is white space. -/
def isBlank (c : Char) : Bool :=
  blankRanges.any fun r => r.1 ≤ c.toNat && c.toNat ≤ r.2

/-- Takes the white space off both ends. -/
def stripChars (cs : List Char) : List Char :=
  ((cs.dropWhile isBlank).reverse.dropWhile isBlank).reverse

/-- A text without the white space at its ends. -/
def strip (s : String) : String :=
  String.ofList (stripChars s.toList)

/-! ## Digits -/

/-- The decimal digits, as closed ranges in rising order. -/
def digitRanges : List (Nat × Nat) :=
  [(0x30, 0x39), (0x660, 0x669), (0x6F0, 0x6F9), (0x7C0, 0x7C9), (0x966, 0x96F),
   (0x9E6, 0x9EF), (0xA66, 0xA6F), (0xAE6, 0xAEF), (0xB66, 0xB6F), (0xBE6, 0xBEF),
   (0xC66, 0xC6F), (0xCE6, 0xCEF), (0xD66, 0xD6F), (0xDE6, 0xDEF), (0xE50, 0xE59),
   (0xED0, 0xED9), (0xF20, 0xF29), (0x1040, 0x1049), (0x1090, 0x1099), (0x17E0, 0x17E9),
   (0x1810, 0x1819), (0x1946, 0x194F), (0x19D0, 0x19D9), (0x1A80, 0x1A89), (0x1A90, 0x1A99),
   (0x1B50, 0x1B59), (0x1BB0, 0x1BB9), (0x1C40, 0x1C49), (0x1C50, 0x1C59), (0xA620, 0xA629),
   (0xA8D0, 0xA8D9), (0xA900, 0xA909), (0xA9D0, 0xA9D9), (0xA9F0, 0xA9F9), (0xAA50, 0xAA59),
   (0xABF0, 0xABF9), (0xFF10, 0xFF19), (0x104A0, 0x104A9), (0x10D30, 0x10D39),
   (0x11066, 0x1106F), (0x110F0, 0x110F9), (0x11136, 0x1113F), (0x111D0, 0x111D9),
   (0x112F0, 0x112F9), (0x11450, 0x11459), (0x114D0, 0x114D9), (0x11650, 0x11659),
   (0x116C0, 0x116C9), (0x11730, 0x11739), (0x118E0, 0x118E9), (0x11950, 0x11959),
   (0x11C50, 0x11C59), (0x11D50, 0x11D59), (0x11DA0, 0x11DA9), (0x16A60, 0x16A69),
   (0x16AC0, 0x16AC9), (0x16B50, 0x16B59), (0x1D7CE, 0x1D7FF), (0x1E140, 0x1E149),
   (0x1E2F0, 0x1E2F9), (0x1E950, 0x1E959), (0x1FBF0, 0x1FBF9)]

/-- Whether `c` is a decimal digit of some script. -/
def isDigit (c : Char) : Bool :=
  digitRanges.any fun r => r.1 ≤ c.toNat && c.toNat ≤ r.2

/-! ## Separators -/

/-- What stands before the first separator; all if there is none. -/
def beforeChars (sep : List Char) : List Char → List Char
  | [] => []
  | c :: cs => if sep.isPrefixOf (c :: cs) then [] else c :: beforeChars sep cs

/-- The pieces between separators. -/
def splitChars (sep : List Char) : List Char → List (List Char)
  | [] => [[]]
  | c :: cs =>
    if sep.isPrefixOf (c :: cs) then [] :: splitChars sep (cs.drop (sep.length - 1))
    else
      match splitChars sep cs with
      | [] => [[c]]
      | p :: ps => (c :: p) :: ps
termination_by cs => cs.length
decreasing_by
  · simp only [List.length_drop, List.length_cons]; omega
  · simp

/-- What stands before the first `sep` in a text; all if there is none. -/
def before (sep s : String) : String :=
  String.ofList (beforeChars sep.toList s.toList)

/-- The pieces of a text between the separators `sep`. -/
def splitOn (sep s : String) : List String :=
  (splitChars sep.toList s.toList).map String.ofList

/-! ## Gaps -/

/-- Brings every gap inside a text to one `joint`; a gap at the end goes.  `inGap` says
    whether a gap came last. -/
def squeezeFrom (isGap : Char → Bool) (joint : Char) : (inGap : Bool) → List Char → List Char
  | _, [] => []
  | inGap, c :: cs =>
    if isGap c then squeezeFrom isGap joint true cs
    else if inGap then joint :: c :: squeezeFrom isGap joint false cs
    else c :: squeezeFrom isGap joint false cs

/-- Brings every gap inside a text to one `joint`, and takes those at its ends off. -/
def squeeze (isGap : Char → Bool) (joint : Char) (cs : List Char) : List Char :=
  squeezeFrom isGap joint false (cs.dropWhile isGap)

theorem squeeze_of_all (isGap : Char → Bool) (joint : Char) (cs : List Char)
    (h : ∀ c ∈ cs, isGap c = true) : squeeze isGap joint cs = [] := by
  induction cs with
  | nil => rfl
  | cons c cs ih =>
    have hc : isGap c = true := h c (by simp)
    have hs := ih fun d hd => h d (by simp [hd])
    simpa [squeeze, hc] using hs

end SourceScribe.Text
