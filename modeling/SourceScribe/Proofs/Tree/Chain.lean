/-
  Chains of attributes as they are written.

  A chain is a name, or an attribute of a shorter chain, and any of these may stand in a
  pair of parentheses.  It says how many blanks there are between its tokens, so that it
  has a text, and on a row and from a column on its tokens.

  Its tree knows nothing of parentheses, and all its nodes are recorded at one place,
  where the name stands.

  `Chain.isSettled` tells the chains in which no part without parentheses of its own
  holds two parts with them.
-/
import SourceScribe.Proofs.Tree.Arithmetic

namespace SourceScribe

/-- A pair of parentheses, by how many blanks there are inside at either end. -/
structure Pair where
  left : Nat
  right : Nat

namespace Pair

/-- How far the pair, if there is one, moves what it encloses. -/
def lead : Option Pair → Nat
  | none => 0
  | some p => 1 + p.left

/-- A text in the pair, if there is one. -/
def around : Option Pair → String → String
  | none, s => s
  | some p, s => "(" ++ Text.spaces p.left ++ s ++ Text.spaces p.right ++ ")"

/-- Tokens of a text in the pair, if there is one; the pair starts at `column`, and the
    text is so wide. -/
def tokens (row : Int) (line : String) (column : Int) (width : Nat) :
    Option Pair → List Token → List Token
  | none, ts => ts
  | some p, ts =>
    Token.onRow row line column .operator "(" :: ts ++
      [Token.onRow row line (column + 1 + p.left + width + p.right) .operator ")"]

end Pair

/-- A name, or an attribute of a shorter chain.  The numbers say how many blanks there are
    before and after the dot. -/
inductive Chain where
  | name (pair : Option Pair) (id ctx : String)
  | member (pair : Option Pair) (value : Chain) (before after : Nat) (attr ctx : String)

namespace Chain

/-- The pair of parentheses around the chain. -/
def pair : Chain → Option Pair
  | name pair .. | member pair .. => pair

/-- The text of a chain. -/
def text : Chain → String
  | name pair id _ => Pair.around pair id
  | member pair value before after attr _ =>
    Pair.around pair (value.text ++ Text.spaces before ++ "." ++ Text.spaces after ++ attr)

/-- The text of a chain inside its parentheses. -/
def bareText : Chain → String
  | name _ id _ => id
  | member _ value before after attr _ =>
    value.text ++ Text.spaces before ++ "." ++ Text.spaces after ++ attr

/-- How wide a chain is. -/
def width (e : Chain) : Nat := e.text.length

/-- Where a chain that starts at `column` starts inside its parentheses. -/
def inner (column : Int) (e : Chain) : Int := column + Pair.lead e.pair

/-- Where the name of a chain stands, if the chain starts at `column`. -/
def nameColumn (column : Int) : Chain → Int
  | name pair .. => column + Pair.lead pair
  | member pair value .. => value.nameColumn (column + Pair.lead pair)

/-- How many parts of a chain are in parentheses. -/
def pairs : Chain → Nat
  | name pair .. => if pair.isSome then 1 else 0
  | member pair value .. => value.pairs + if pair.isSome then 1 else 0

/-- Whether every part has parentheses of its own or holds at most one part that has. -/
def isSettled : Chain → Bool
  | name .. => true
  | member pair value .. => (pair.isSome || value.pairs ≤ 1) && value.isSettled

/-! ## Tokens and trees -/

section
variable (row : Int) (line : String)

/-- The tokens of an attribute after its value: the dot and the name. -/
def dotted (column : Int) (before after : Nat) (attr : String) : List Token :=
  [Token.onRow row line (column + before) .operator ".",
    Token.onRow row line (column + before + 1 + after) .name attr]

/-- The tokens of a chain from `column` on. -/
def tokens (column : Int) : Chain → List Token
  | name pair id _ =>
    Pair.tokens row line column id.length pair
      [Token.onRow row line (column + Pair.lead pair) .name id]
  | member pair value before after attr ctx =>
    Pair.tokens row line column (member pair value before after attr ctx).bareText.length pair
      (value.tokens (column + Pair.lead pair) ++
        dotted row line (column + Pair.lead pair + value.width) before after attr)

/-- The tokens of a chain inside its parentheses, where it starts at `column`. -/
def bareTokens (column : Int) : Chain → List Token
  | name _ id _ => [Token.onRow row line column .name id]
  | member _ value before after attr _ =>
    value.tokens row line column ++ dotted row line (column + value.width) before after attr

/-- The tree of a chain whose name stands at `column`. -/
def tree (column : Int) : Chain → Tree
  | name _ id ctx =>
    .node "Name" [row, column] [("id", .leaf (.str id)), ("ctx", .node ctx [] [])]
  | member _ value _ _ attr ctx =>
    .node "Attribute" [row, column]
      [("value", value.tree column), ("attr", .leaf (.str attr)), ("ctx", .node ctx [] [])]

theorem tokens_eq (column : Int) (e : Chain) :
    e.tokens row line column =
      Pair.tokens row line column e.bareText.length e.pair
        (e.bareTokens row line (e.inner column)) := by
  cases e <;> rfl

end

theorem text_eq (e : Chain) : e.text = Pair.around e.pair e.bareText := by
  cases e <;> rfl

theorem width_eq (e : Chain) : e.width = (Pair.around e.pair e.bareText).length := by
  rw [width, text_eq]

theorem length_around (p : Pair) (s : String) :
    (Pair.around (some p) s).length = 1 + p.left + s.length + p.right + 1 := by
  simp only [Pair.around, String.length_append, Arithmetic.length_spaces]
  rfl

theorem length_bareText_member (pair : Option Pair) (value : Chain) (before after : Nat)
    (attr ctx : String) : (member pair value before after attr ctx).bareText.length =
      value.width + before + 1 + after + attr.length := by
  simp only [bareText, width, String.length_append, Arithmetic.length_spaces]
  rfl

/-! ## Where the name stands -/

theorem inner_le_nameColumn (column : Int) (e : Chain) : e.inner column ≤ e.nameColumn column := by
  induction e generalizing column with
  | name => exact Int.le_refl _
  | member pair value _ _ _ _ ih =>
    have hvalue := ih (column + Pair.lead pair)
    simp only [inner, nameColumn, Chain.pair] at hvalue ⊢
    omega

theorem pairs_pos_of_pair {e : Chain} (h : e.pair.isSome = true) : 0 < e.pairs := by
  cases e with
  | name pair =>
    simp only [Chain.pair] at h
    simp [pairs, h]
  | member pair =>
    simp only [Chain.pair] at h
    simp [pairs, h]

/-- Without parentheses in front, the name comes first. -/
theorem nameColumn_of_pairs_eq_zero {e : Chain} (h : e.pairs = 0) (column : Int) :
    e.nameColumn column = column := by
  induction e generalizing column with
  | name pair =>
    cases pair with
    | none => simp [nameColumn, Pair.lead]
    | some => simp [pairs] at h
  | member pair value _ _ _ _ ih =>
    cases pair with
    | none => simpa [nameColumn, Pair.lead] using ih (by simpa [pairs] using h) column
    | some => simp [pairs] at h

/-- Parentheses in front push the name away. -/
theorem lt_nameColumn_of_pairs_pos {e : Chain} (h : 0 < e.pairs) (column : Int) :
    column < e.nameColumn column := by
  induction e generalizing column with
  | name pair =>
    cases pair with
    | none => simp [pairs] at h
    | some =>
      simp only [nameColumn, Pair.lead]
      omega
  | member pair value before after attr ctx ih =>
    cases pair with
    | none => simpa [nameColumn, Pair.lead] using ih (by simpa [pairs] using h) column
    | some p =>
      have hinner := inner_le_nameColumn column (member (some p) value before after attr ctx)
      simp only [inner, Chain.pair, Pair.lead] at hinner
      omega

/-- If the only parentheses are around the whole chain, the name comes right after them. -/
theorem nameColumn_eq_inner {e : Chain} (hpair : e.pair.isSome = true) (h : e.pairs ≤ 1)
    (column : Int) : e.nameColumn column = e.inner column := by
  cases e with
  | name => rfl
  | member pair value =>
    simp only [Chain.pair] at hpair
    exact nameColumn_of_pairs_eq_zero (by simpa [pairs, hpair] using h) _

theorem isSettled_of_pairs_le_one {e : Chain} (h : e.pairs ≤ 1) : e.isSettled = true := by
  induction e with
  | name => rfl
  | member pair value _ _ _ _ ih =>
    have hvalue : value.pairs ≤ 1 := by
      simp only [pairs] at h
      omega
    simp [isSettled, hvalue, ih hvalue]

end Chain

end SourceScribe
