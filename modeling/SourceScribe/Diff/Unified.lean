/-
  The difference of two texts in unified form.

  The texts are cut into stretches that are equal or differ.  Stretches that differ are
  shown with up to three equal lines around them; where more equal lines lie between them,
  a new hunk begins.

  `unified` gives the lines of the difference; there are none if the texts are equal.
-/
import SourceScribe.Diff.Matching

namespace SourceScribe.Diff

/-- A stretch of both texts, equal in both or not; the ends are not included. -/
structure Stretch where
  equal : Bool
  leftFrom : Nat
  leftTo : Nat
  rightFrom : Nat
  rightTo : Nat

/-- The stretches from a place in both texts on, between and in the runs of equal lines. -/
def stretchesFrom (i j : Nat) (leftSize rightSize : Nat) : List Block → List Stretch
  | [] => if i < leftSize || j < rightSize then [⟨false, i, leftSize, j, rightSize⟩] else []
  | b :: bs =>
    (if i < b.left || j < b.right then [⟨false, i, b.left, j, b.right⟩] else [])
      ++ ⟨true, b.left, b.left + b.size, b.right, b.right + b.size⟩
      :: stretchesFrom (b.left + b.size) (b.right + b.size) leftSize rightSize bs

/-- How many equal lines are shown around a difference. -/
def context : Nat := 3

/-- The last equal lines of a stretch. -/
def Stretch.lastLines (s : Stretch) : Stretch :=
  { s with leftFrom := max s.leftFrom (s.leftTo - context)
           rightFrom := max s.rightFrom (s.rightTo - context) }

/-- The first equal lines of a stretch. -/
def Stretch.firstLines (s : Stretch) : Stretch :=
  { s with leftTo := min s.leftTo (s.leftFrom + context)
           rightTo := min s.rightTo (s.rightFrom + context) }

/-- Shortens an equal stretch at the start of the texts. -/
def trimFront : List Stretch → List Stretch
  | [] => []
  | s :: ss => (if s.equal then s.lastLines else s) :: ss

/-- Shortens an equal stretch at the end of the texts. -/
def trimBack : List Stretch → List Stretch
  | [] => []
  | [s] => [if s.equal then s.firstLines else s]
  | s :: ss => s :: trimBack ss

/-- Whether a hunk shows a difference. -/
def isHunk : List Stretch → Bool
  | [] => false
  | [s] => !s.equal
  | _ => true

/-- Cuts stretches into hunks at long equal ones.  `hunk` has the stretches of the hunk so
    far, backwards. -/
def hunksFrom (hunk : List Stretch) : List Stretch → List (List Stretch)
  | [] => if isHunk hunk then [hunk.reverse] else []
  | s :: ss =>
    if s.equal && 2 * context < s.leftTo - s.leftFrom then
      (s.firstLines :: hunk).reverse :: hunksFrom [s.lastLines] ss
    else hunksFrom (s :: hunk) ss

/-- The hunks of two texts. -/
def hunks (left right : List String) : List (List Stretch) :=
  hunksFrom [] (trimBack (trimFront
    (stretchesFrom 0 0 left.length right.length (blocks left right))))

/-- A range of lines in the head of a hunk. -/
def rangeText (start stop : Nat) : String :=
  if stop - start = 1 then toString (start + 1)
  else if stop - start = 0 then toString start ++ ",0"
  else toString (start + 1) ++ "," ++ toString (stop - start)

/-- Some lines of a text, each after a mark. -/
def marked (mark : String) (lines : List String) (start stop : Nat) : List String :=
  ((lines.drop start).take (stop - start)).map (mark ++ ·)

/-- The lines of a stretch. -/
def Stretch.lines (left right : List String) (s : Stretch) : List String :=
  if s.equal then marked " " left s.leftFrom s.leftTo
  else marked "-" left s.leftFrom s.leftTo ++ marked "+" right s.rightFrom s.rightTo

/-- The lines of a hunk. -/
def hunkLines (left right : List String) (hunk : List Stretch) : List String :=
  let leftFrom := (hunk.head?.map (·.leftFrom)).getD 0
  let leftTo := (hunk.getLast?.map (·.leftTo)).getD 0
  let rightFrom := (hunk.head?.map (·.rightFrom)).getD 0
  let rightTo := (hunk.getLast?.map (·.rightTo)).getD 0
  ("@@ -" ++ rangeText leftFrom leftTo ++ " +" ++ rangeText rightFrom rightTo ++ " @@")
    :: hunk.flatMap (Stretch.lines left right)

/-- The lines of the difference of two texts, under their names. -/
def unified (leftName rightName : String) (left right : List String) : List String :=
  match hunks left right with
  | [] => []
  | hs => ("--- " ++ leftName) :: ("+++ " ++ rightName) :: hs.flatMap (hunkLines left right)

end SourceScribe.Diff
