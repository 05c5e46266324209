/-
  The skeleton of markup: its elements with their tags and attributes, without any text.

  Strings that follow each other in the source are one string in the tree and have an
  element `s` each in the markup.  How a string is cut up is up to the source, so these
  elements are no part of the skeleton.
-/
import SourceScribe.Markup.Basic

namespace SourceScribe.Markup

mutual

/-- A piece of markup without texts and `s` elements: one element, or nothing. -/
def skeleton : Markup → List Markup
  | text _ => []
  | element tag attrs children =>
    if tag = "s" then [] else [element tag attrs (skeletons children)]

/-- Pieces of markup without texts and `s` elements. -/
def skeletons : List Markup → List Markup
  | [] => []
  | m :: ms => m.skeleton ++ skeletons ms

end

@[simp] theorem skeleton_text (s : String) : (text s).skeleton = [] := by
  rw [skeleton]

@[simp] theorem skeleton_element (tag : String) (attrs : List (String × String))
    (ms : List Markup) : (element tag attrs ms).skeleton =
      if tag = "s" then [] else [element tag attrs (skeletons ms)] := by
  rw [skeleton]

@[simp] theorem skeletons_nil : skeletons [] = [] := by
  rw [skeletons]

@[simp] theorem skeletons_cons (m : Markup) (ms : List Markup) :
    skeletons (m :: ms) = m.skeleton ++ skeletons ms := by
  rw [skeletons]

@[simp] theorem skeletons_append (ms ms' : List Markup) :
    skeletons (ms ++ ms') = skeletons ms ++ skeletons ms' := by
  induction ms with
  | nil => simp
  | cons m ms ih => simp [ih]

@[simp] theorem skeletons_caption (s : String) : skeletons (caption s) = [] := by
  unfold caption; split <;> simp

@[simp] theorem skeleton_labelled (tag s : String) :
    (labelled tag s).skeleton = if tag = "s" then [] else [element tag [] []] := by
  simp [labelled]

end SourceScribe.Markup
