/-
  The cursor over the tokens of a source.

  A conversion takes tokens one by one and writes, beside each, the gap before it or
  the gap after it.  The cursor holds the tokens that are left, the token taken last
  and the one before that, and the opening parentheses that were taken before it was
  known which expression they enclose.  It also holds remarks on the run so far, which
  no step reads: they are for those who want to know how a result came about.

  A step (`Scan`) either gives a result or fails; the cursor moves in both cases, and
  `take` moves even when no token is left.
-/
import SourceScribe.Conversion.Failure

namespace SourceScribe.Conversion

/-- An opening parenthesis that waits for the expression it encloses: its text, where
    the token after it starts, and the node that took it. -/
structure Deferred where
  text : String
  start : Position
  owner : Path

/-- Something in a run that its result does not show. -/
inductive Remark where
  /-- A parenthesis was kept aside. -/
  | deferred
  /-- In place of tokens with the text `found`, the text `written` was written, and
      nothing had asked that they be the same. -/
  | replaced (found written : String)
  /-- With `left` tokens left, the gap before the next one was written for a part that is
      not there. -/
  | idle (left : Nat)
deriving DecidableEq

/-- The state of a conversion. -/
structure Cursor where
  /-- The tokens that are left. -/
  rest : List Token
  /-- The token taken last. -/
  current : Option Token
  /-- The token that was current before it. -/
  previous : Option Token
  /-- Parentheses that wait for their expression, the last one first. -/
  deferred : List Deferred
  /-- Remarks on the run, the last one first. -/
  remarks : List Remark

/-- Adds a remark. -/
def Cursor.remark (c : Cursor) (r : Remark) : Cursor :=
  { c with remarks := r :: c.remarks }

/-- A step of a conversion. -/
abbrev Scan (α : Type) := EStateM Failure Cursor α

namespace Scan

/-- Fails for this cause. -/
def fail {α : Type} (c : Cause) : Scan α :=
  throw (Failure.of c)

/-- Takes the value, or fails for this cause if there is none. -/
def orFail {α : Type} (c : Cause) : Option α → Scan α
  | some a => pure a
  | none => fail c

/-- Runs a step on behalf of a node: if it fails, the node joins the trail. -/
def within {α : Type} (r : NodeRef) (m : Scan α) : Scan α := fun c =>
  match m c with
  | .ok a c' => .ok a c'
  | .error f c' => .error (f.within r) c'

/-! ## Single tokens -/

/-- Takes the next token. -/
def take : Scan Token := fun c =>
  match c.rest with
  | [] => .error (.of .outOfTokens) { c with previous := c.current }
  | t :: ts => .ok t { c with rest := ts, current := some t, previous := c.current }

/-- The next token, left where it is. -/
def peek : Scan Token := do
  orFail .outOfTokens (← get).rest.head?

/-- The next token that is no line break or comment, left where it is. -/
def peekPastFiller : Scan Token := do
  orFail .outOfTokens ((← get).rest.dropWhile Token.isFiller).head?

/-- The token taken last. -/
def current : Scan Token := do
  orFail .noTokenBefore (← get).current

/-- Takes the next token and fails if it is not as asked. -/
def expect (p : Token → Bool) : Scan Token := do
  let t ← take
  if p t then return t else fail (.unexpectedToken none)

/-- Takes the next token and fails, showing it, if it is not as asked. -/
def expectShown (p : Token → Bool) : Scan Token := do
  let t ← take
  if p t then return t else fail (.unexpectedToken (some t))

/-- Remarks that `written` is written in place of tokens with the text `found`. -/
def inPlaceOf (found written : String) : Scan Unit :=
  modify fun c => c.remark (.replaced found written)

/-- Remarks that the gap before the next token was written for a part that is not there. -/
def idle : Scan Unit :=
  modify fun c => c.remark (.idle c.rest.length)

/-! ## Gaps -/

/-- The gap before the current token. -/
def gapBefore : Scan String := do
  let a ← orFail .noTokenBefore (← get).previous
  let b ← current
  return a.gap b

/-- The gap before the current token, if it is wanted. -/
def gapBeforeIf (wanted : Bool) : Scan String :=
  if wanted then gapBefore else pure ""

/-- The gap after the current token. -/
def gapAfter : Scan String := do
  let b ← peek
  let a ← current
  return a.gap b

/-- The current token with the gaps on both sides. -/
def withGaps : Scan String := do
  let before ← gapBefore
  let t ← current
  let after ← gapAfter
  return before ++ t.text ++ after

/-! ## Runs of tokens -/

/-- Takes tokens from `ts`, the tokens that are left, as long as they are as asked.
    Gives their text, each with the gap before it. -/
def absorbFrom (p : Token → Bool) : List Token → Scan String
  | [] => fail .outOfTokens
  | t :: ts =>
    if p t then do
      let _ ← take
      let before ← gapBefore
      let more ← absorbFrom p ts
      return before ++ t.text ++ more
    else pure ""

/-- Takes tokens as long as they are as asked.  Gives their text, each with the gap
    before it. -/
def absorb (p : Token → Bool) : Scan String := do
  absorbFrom p (← get).rest

/-- Takes what stands between two statements.  With `after`, the gap after it is part
    of the text. -/
def betweenStatements (after : Bool) : Scan String := do
  let text ← absorb Token.isBetweenStatements
  if after then return text ++ (← gapAfter) else return text

/-- Takes a comma, if there is one, with the line breaks and comments around it, and
    the gap after it. -/
def delimiter : Scan String := do
  let text ← absorb Token.isDelimiter
  return text ++ (← gapAfter)

/-- Takes one token with the line breaks and comments around it from `ts`, the tokens
    that are left.  `found` tells that the token was taken already, `before` that the
    gap before the next token is wanted, `want` that only this kind of token is taken.
    Gives the text, and whether the token was taken. -/
def enclosedFrom (want : Option ExactKind) : (found before : Bool) → List Token →
    Scan (String × Bool)
  | _, _, [] => fail .outOfTokens
  | found, before, t :: ts =>
    if t.isFiller then do
      let _ ← take
      let left ← gapBeforeIf before
      let (more, taken) ← enclosedFrom want found true ts
      return (left ++ t.text ++ more, taken)
    else if found then pure ("", true)
    else if want.any (· ≠ t.exact) then pure ("", false)
    else do
      let _ ← take
      let left ← gapBeforeIf before
      let (more, taken) ← enclosedFrom want true true ts
      return (left ++ t.text ++ more, taken)

/-- Takes one token with the line breaks and comments around it.  The gap before the
    first of them is part of the text if `before` says so, and the gap after the last
    if `after` says so.  With `want`, only a token of that kind is taken, though the
    line breaks and comments before it are taken anyway, and no gap follows them; the
    end marker is no kind to ask for. -/
def enclosedOf (want : Option ExactKind) (before after : Bool) : Scan String := do
  let want := want.filter (· ≠ .kind .endMarker)
  let (text, taken) ← enclosedFrom want false before (← get).rest
  if taken && after then return text ++ (← gapAfter) else return text

/-- Takes one token of any kind with the line breaks and comments around it. -/
def enclosed (before after : Bool) : Scan String :=
  enclosedOf none before after

/-- Takes the rest of a dotted name from `ts`, the tokens that are left. -/
def dottedFrom : List Token → Scan String
  | [] => fail .outOfTokens
  | [t] =>
    if t.isOp .dot then do
      let _ ← take
      let _ ← take
      return ""
    else return ""
  | t :: u :: ts =>
    if t.isOp .dot then do
      let _ ← take
      let _ ← take
      let more ← dottedFrom ts
      return "." ++ u.text ++ more
    else return ""

/-- Takes a token and every dot and token that follow.  Gives their texts without the
    gaps. -/
def dottedName : Scan String := do
  let t ← take
  let more ← dottedFrom (← get).rest
  return t.text ++ more

/-- Takes the dots from `ts`, the tokens that are left. -/
def dotsFrom : List Token → Scan String
  | [] => fail .outOfTokens
  | t :: ts =>
    if t.isOp .dot then do
      let _ ← take
      let more ← dotsFrom ts
      return "." ++ more
    else return ""

/-- Takes all dots that come next. -/
def dots : Scan String := do
  dotsFrom (← get).rest

end Scan

/-- The cursor before the first token: the token that names the encoding is passed
    over. -/
def Cursor.start? : List Token → Option Cursor
  | [] => none
  | t :: ts => some ⟨ts, some t, none, [], []⟩

end SourceScribe.Conversion
