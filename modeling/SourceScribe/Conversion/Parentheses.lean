/-
  Parentheses around expressions.

  The tree does not say which expressions are enclosed in parentheses, and the place
  recorded for an expression may be that of its first operand.  So a parenthesis before
  an expression is taken and kept aside; when an expression ends just before a closing
  parenthesis, the one kept last is given to it if the expression starts right after
  it, or took it itself.

  `enclose` follows the rule of an expression in a fragment of its own.  The children of
  the fragment are then moved to the parent, between the pair of parentheses if it closes
  here.
-/
import SourceScribe.Conversion.Part

namespace SourceScribe.Conversion

/-- Keeps an opening parenthesis aside. -/
def defer (d : Deferred) : Scan Unit :=
  modify fun c => { c.remark .deferred with deferred := d :: c.deferred }

/-- Takes an opening parenthesis that stands before the recorded place of `r` and keeps
    it aside for `r`. -/
def openParenthesis (r : NodeRef) : Scan Unit := do
  let t ← Scan.peek
  if t.isOp .lpar then
    let place ← Scan.orFail .noPosition r.start?
    if t.start < place then
      let text ← Scan.enclosed false true
      let next ← Scan.peek
      defer ⟨text, next.start, r.path⟩

/-- The parenthesis kept last, if it encloses the expression `r`, which has just ended:
    a closing parenthesis comes next, and the expression starts right after the opening
    one or took it itself.  That parenthesis is kept aside no longer. -/
def closesHere (r : NodeRef) (start : Except Cause Position) : Scan (Option Deferred) := do
  let t ← Scan.peekPastFiller
  let c ← get
  match t.isOp .rpar, c.deferred with
  | true, d :: ds =>
    match start with
    | .error cause => Scan.fail cause
    | .ok p =>
      if d.start = p ∨ d.owner = r.path then
        set { c with deferred := ds }
        return some d
      else return none
  | _, _ => return none

/-- Children on the move: those that a parent has, and those still in the fragment. -/
structure Move where
  parent : List Markup
  fragment : List Markup

namespace Move

/-- Moves child number `i` of the fragment to the parent, if there is one.  Those after it
    then have numbers smaller by one. -/
def step (m : Move) (i : Nat) : Move :=
  match m.fragment[i]? with
  | some e => ⟨m.parent ++ [e], m.fragment.eraseIdx i⟩
  | none => m

/-- Goes through the numbers below `k`. -/
def steps (m : Move) : Nat → Move
  | 0 => m
  | k + 1 => (m.steps k).step k

/-- Goes through all numbers that the fragment had children for at first. -/
def run (m : Move) : Move :=
  m.steps m.fragment.length

end Move

/-- Converts an expression by its rule and adds it to a parent, with the parentheses around
    it. -/
def enclose (r : NodeRef) (start : Except Cause Position) (rule : Into) : Into :=
  fun parent => do
    openParenthesis r
    let fragment ← rule []
    match ← closesHere r start with
    | some d =>
      let moved := (Move.mk (parent ++ [.text d.text]) fragment).run
      let right ← Scan.enclosed true false
      return moved.parent ++ [.text right]
    | none => return (Move.mk parent fragment).run.parent

end SourceScribe.Conversion
