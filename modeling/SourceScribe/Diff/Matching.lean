/-
  Matching lines of two texts.

  The longest run of equal lines is found first, and then the longest runs before and after
  it.  In a long text, a line that comes very often starts no run, but may lengthen one.

  `blocks` gives the runs in order.
-/
namespace SourceScribe.Diff

/-- A run of `size` equal lines, from line `left` of the one text and line `right` of the
    other. -/
structure Block where
  left : Nat
  right : Nat
  size : Nat
deriving DecidableEq

/-- Two texts, by lines, with the places in the second one where a run may start or go on
    for each line of the first one. -/
structure Pair where
  left : Array String
  right : Array String
  places : Array (List Nat)

/-- Whether a line that comes `count` times in a text of `total` lines is too common to
    start a run. -/
def isCommon (count total : Nat) : Bool :=
  200 ≤ total && total / 100 + 1 < count

/-- The places of a line, none if it is too common. -/
def placesOf (lines : List (String × Nat)) (total : Nat) (line : String) : List Nat :=
  let found := (lines.filter (·.1 = line)).map (·.2)
  if isCommon found.length total then [] else found

/-- Two texts with the places of their lines. -/
def Pair.of (left right : List String) : Pair :=
  let numbered := right.zipIdx
  ⟨left.toArray, right.toArray, (left.map (placesOf numbered right.length)).toArray⟩

/-- A part of two texts: lines `leftFrom` up to `leftTo` and `rightFrom` up to `rightTo`, the
    ends not included. -/
structure Window where
  leftFrom : Nat
  leftTo : Nat
  rightFrom : Nat
  rightTo : Nat

/-- Goes through the places of line `i`.  `ending` has the lengths of the runs that end just
    before this line, by place; gives the lengths of those that end here, and the longest run
    so far. -/
def extendRuns (i : Nat) (ending : List (Nat × Nat)) (best : Block) :
    List Nat → List (Nat × Nat) × Block
  | [] => ([], best)
  | j :: js =>
    let size := (if j = 0 then 0 else (ending.lookup (j - 1)).getD 0) + 1
    let best := if best.size < size then ⟨i + 1 - size, j + 1 - size, size⟩ else best
    let (runs, best) := extendRuns i ending best js
    ((j, size) :: runs, best)

/-- Goes through the lines of a window. -/
def scanLines (p : Pair) (w : Window) :
    (lines : List Nat) → (ending : List (Nat × Nat)) → Block → Block
  | [], _, best => best
  | i :: is, ending, best =>
    let places := ((p.places[i]?).getD []).filter fun j => w.rightFrom ≤ j && j < w.rightTo
    let (runs, best) := extendRuns i ending best places
    scanLines p w is runs best

/-- Lengthens a run to the front, by at most `n` lines. -/
def growFront (p : Pair) (w : Window) : Nat → Block → Block
  | 0, b => b
  | n + 1, b =>
    if w.leftFrom < b.left && w.rightFrom < b.right
        && p.left[b.left - 1]? == p.right[b.right - 1]? then
      growFront p w n ⟨b.left - 1, b.right - 1, b.size + 1⟩
    else b

/-- Lengthens a run to the end, by at most `n` lines. -/
def growBack (p : Pair) (w : Window) : Nat → Block → Block
  | 0, b => b
  | n + 1, b =>
    if b.left + b.size < w.leftTo && b.right + b.size < w.rightTo
        && p.left[b.left + b.size]? == p.right[b.right + b.size]? then
      growBack p w n ⟨b.left, b.right, b.size + 1⟩
    else b

/-- The longest run in a window; of several, the first one. -/
def longest (p : Pair) (w : Window) : Block :=
  let lines := (List.range (w.leftTo - w.leftFrom)).map (· + w.leftFrom)
  let b := scanLines p w lines [] ⟨w.leftFrom, w.rightFrom, 0⟩
  growBack p w w.leftTo (growFront p w w.leftTo b)

/-- The runs of a window in order, at most `n` inside one another. -/
def blocksIn (p : Pair) : Nat → Window → List Block
  | 0, _ => []
  | n + 1, w =>
    let b := longest p w
    if b.size = 0 then []
    else
      let before :=
        if w.leftFrom < b.left && w.rightFrom < b.right then
          blocksIn p n ⟨w.leftFrom, b.left, w.rightFrom, b.right⟩
        else []
      let after :=
        if b.left + b.size < w.leftTo && b.right + b.size < w.rightTo then
          blocksIn p n ⟨b.left + b.size, w.leftTo, b.right + b.size, w.rightTo⟩
        else []
      before ++ b :: after

/-- Puts runs together that follow each other without a gap. -/
def joinBlocks : List Block → List Block
  | [] => []
  | b :: bs =>
    match joinBlocks bs with
    | [] => [b]
    | c :: cs =>
      if b.left + b.size = c.left && b.right + b.size = c.right then
        ⟨b.left, b.right, b.size + c.size⟩ :: cs
      else b :: c :: cs

/-- The runs of equal lines of two texts in order. -/
def blocks (left right : List String) : List Block :=
  let p := Pair.of left right
  joinBlocks (blocksIn p (left.length + right.length) ⟨0, left.length, 0, right.length⟩)

end SourceScribe.Diff
