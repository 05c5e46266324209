/-
  Markup: elements with attributes, and text.

  `Markup.content` is the text of a piece of markup without its tags,
  `Markup.render` its written form.  In text the characters `&`, `<` and `>` are
  written as references, and in the value of an attribute the double quote too.
-/
namespace SourceScribe

/-- A piece of markup.  Attributes are pairs of name and value, in the order in which
    they are written. -/
inductive Markup where
  | text (s : String)
  | element (tag : String) (attrs : List (String × String)) (children : List Markup)

namespace Markup

/-! ## Building -/

/-- A text inside an element: none at all if it is empty. -/
def caption (s : String) : List Markup :=
  if s = "" then [] else [text s]

/-- An element with a text and no attributes. -/
def labelled (tag s : String) : Markup :=
  element tag [] (caption s)

/-- Sets an attribute.  One that is there keeps its place. -/
def setAttr (attrs : List (String × String)) (name value : String) : List (String × String) :=
  if attrs.any (·.1 = name) then attrs.map fun a => if a.1 = name then (name, value) else a
  else attrs ++ [(name, value)]

/-! ## The text in markup -/

mutual

/-- All text in a piece of markup, in order. -/
def content : Markup → String
  | text s => s
  | element _ _ children => contents children

/-- All text in pieces of markup, in order. -/
def contents : List Markup → String
  | [] => ""
  | m :: ms => m.content ++ contents ms

end

/-! ## Written form -/

/-- How a character of a text is written. -/
def escapeTextChar (c : Char) : List Char :=
  if c = '&' then "&amp;".toList
  else if c = '<' then "&lt;".toList
  else if c = '>' then "&gt;".toList
  else [c]

/-- How a character of an attribute's value is written. -/
def escapeValueChar (c : Char) : List Char :=
  if c = '"' then "&quot;".toList else escapeTextChar c

/-- The written form of a text. -/
def escapeText (s : String) : String :=
  String.ofList (s.toList.flatMap escapeTextChar)

/-- The written form of an attribute's value, without its quotes. -/
def escapeValue (s : String) : String :=
  String.ofList (s.toList.flatMap escapeValueChar)

/-- The written form of attributes, each after a blank. -/
def renderAttrs : List (String × String) → String
  | [] => ""
  | (name, value) :: attrs =>
    " " ++ name ++ "=\"" ++ escapeValue value ++ "\"" ++ renderAttrs attrs

mutual

/-- The written form.  An element that holds nothing is one tag. -/
def render : Markup → String
  | text s => escapeText s
  | element tag attrs [] => "<" ++ tag ++ renderAttrs attrs ++ "/>"
  | element tag attrs (m :: ms) =>
    "<" ++ tag ++ renderAttrs attrs ++ ">" ++ m.render ++ renderAll ms ++ "</" ++ tag ++ ">"

/-- The written form of pieces of markup, one after the other. -/
def renderAll : List Markup → String
  | [] => ""
  | m :: ms => m.render ++ renderAll ms

end

end Markup

end SourceScribe
