/-
  The names and the attributes of markup, and what its text comes to.

  * `wellNamed`: every tag and every attribute has a word for its name, no attribute is
    called `xmlns`, and none comes twice in an element.
  * `values` and `texts`: all values of attributes, and all texts, in order.
  * `Proper`: well-named markup in which an attribute says nothing that is neither a
    letter nor in the text of its element (`Proper.wellNamed`, `Proper.mem_values`).
-/
import SourceScribe.Markup.Basic

namespace SourceScribe.Markup

/-! ## The text -/

@[simp] theorem content_text (s : String) : (text s).content = s := by
  rw [content]

@[simp] theorem content_element (tag : String) (attrs : List (String × String))
    (ms : List Markup) : (element tag attrs ms).content = contents ms := by
  rw [content]

@[simp] theorem contents_nil : contents [] = "" := by
  rw [contents]

@[simp] theorem contents_cons (m : Markup) (ms : List Markup) :
    contents (m :: ms) = m.content ++ contents ms := by
  rw [contents]

@[simp] theorem contents_append (ms ms' : List Markup) :
    contents (ms ++ ms') = contents ms ++ contents ms' := by
  induction ms with
  | nil => simp
  | cons m ms ih => simp [ih, String.append_assoc]

@[simp] theorem contents_caption (s : String) : contents (caption s) = s := by
  unfold caption; split <;> simp_all

@[simp] theorem content_labelled (tag s : String) : (labelled tag s).content = s := by
  simp [labelled]

/-! ## Names -/

/-- A word: letters of ASCII, at least one. -/
def isWord (s : String) : Bool :=
  !s.toList.isEmpty && s.toList.all Char.isAlpha

/-- Whether attributes have words for names, all different and none of them `xmlns`. -/
def attrsNamed (attrs : List (String × String)) : Bool :=
  attrs.all (fun a => isWord a.1 && a.1 != "xmlns") && decide (attrs.map (·.1)).Nodup

mutual

/-- Whether all tags and attributes are well named. -/
def wellNamed : Markup → Bool
  | text _ => true
  | element tag attrs children => isWord tag && attrsNamed attrs && wellNamedAll children

/-- `wellNamed` of all pieces. -/
def wellNamedAll : List Markup → Bool
  | [] => true
  | m :: ms => m.wellNamed && wellNamedAll ms

end

mutual

/-- The values of all attributes. -/
def values : Markup → List String
  | text _ => []
  | element _ attrs children => attrs.map (·.2) ++ valuesAll children

/-- The values of all attributes in pieces of markup. -/
def valuesAll : List Markup → List String
  | [] => []
  | m :: ms => m.values ++ valuesAll ms

end

mutual

/-- All texts. -/
def texts : Markup → List String
  | text s => [s]
  | element _ _ children => textsAll children

/-- All texts in pieces of markup. -/
def textsAll : List Markup → List String
  | [] => []
  | m :: ms => m.texts ++ textsAll ms

end

mutual

/-- Every text is part of the whole text. -/
theorem mem_content {c : Char} : ∀ {m : Markup}, ∀ s ∈ m.texts, c ∈ s.toList → c ∈ m.content.toList
  | text t, s, hs, hc => by
    obtain rfl : s = t := by simpa [texts] using hs
    rwa [content_text]
  | element tag attrs ms, s, hs, hc => by
    rw [texts] at hs
    rw [content_element]
    exact mem_contents s hs hc

theorem mem_contents {c : Char} : ∀ {ms : List Markup}, ∀ s ∈ textsAll ms, c ∈ s.toList →
    c ∈ (contents ms).toList
  | [], s, hs, _ => by simp [textsAll] at hs
  | m :: ms, s, hs, hc => by
    rw [contents_cons, String.toList_append, List.mem_append]
    rw [textsAll, List.mem_append] at hs
    rcases hs with hs | hs
    · exact Or.inl (mem_content s hs hc)
    · exact Or.inr (mem_contents s hs hc)

end

/-! ## Attributes that repeat the text -/

/-- Every character of `v` is a letter or occurs in `s`. -/
def Drawn (v s : String) : Prop :=
  ∀ ch ∈ v.toList, ch.isAlpha = true ∨ ch ∈ s.toList

theorem drawn_of_isWord {v : String} (h : isWord v = true) (s : String) : Drawn v s := by
  intro ch hch
  simp only [isWord, Bool.and_eq_true, List.all_eq_true] at h
  exact Or.inl (h.2 ch hch)

theorem drawn_self (v : String) : Drawn v v := fun _ hch => Or.inr hch

theorem drawn_empty (s : String) : Drawn "" s := by
  intro ch hch; simp at hch

theorem Drawn.append_left {v s : String} (h : Drawn v s) (s' : String) : Drawn v (s' ++ s) := by
  intro ch hch
  rcases h ch hch with h | h
  · exact Or.inl h
  · exact Or.inr (by simp [h])

theorem Drawn.append_right {v s : String} (h : Drawn v s) (s' : String) : Drawn v (s ++ s') := by
  intro ch hch
  rcases h ch hch with h | h
  · exact Or.inl h
  · exact Or.inr (by simp [h])

mutual

/-- Well named, with every attribute drawn from the text of its element. -/
def Proper : Markup → Prop
  | text _ => True
  | element tag attrs children => isWord tag = true ∧ attrsNamed attrs = true ∧
      (∀ a ∈ attrs, Drawn a.2 (contents children)) ∧ ProperAll children

/-- `Proper` of all pieces. -/
def ProperAll : List Markup → Prop
  | [] => True
  | m :: ms => m.Proper ∧ ProperAll ms

end

@[simp] theorem proper_text (s : String) : (text s).Proper := by
  rw [Proper]; trivial

@[simp] theorem proper_element (tag : String) (attrs : List (String × String))
    (ms : List Markup) : (element tag attrs ms).Proper ↔ isWord tag = true ∧
      attrsNamed attrs = true ∧ (∀ a ∈ attrs, Drawn a.2 (contents ms)) ∧ ProperAll ms := by
  rw [Proper]

@[simp] theorem properAll_nil : ProperAll [] := by
  rw [ProperAll]; trivial

@[simp] theorem properAll_cons (m : Markup) (ms : List Markup) :
    ProperAll (m :: ms) ↔ m.Proper ∧ ProperAll ms := by
  rw [ProperAll]

@[simp] theorem properAll_append (ms ms' : List Markup) :
    ProperAll (ms ++ ms') ↔ ProperAll ms ∧ ProperAll ms' := by
  induction ms with
  | nil => simp
  | cons m ms ih => simp [ih, and_assoc]

@[simp] theorem properAll_caption (s : String) : ProperAll (caption s) := by
  unfold caption; split <;> simp

@[simp] theorem attrsNamed_nil : attrsNamed [] = true := rfl

mutual

theorem Proper.wellNamed : ∀ {m : Markup}, m.Proper → m.wellNamed = true
  | text _, _ => by rw [Markup.wellNamed]
  | element tag attrs ms, h => by
    obtain ⟨ht, ha, -, hm⟩ := (proper_element tag attrs ms).1 h
    rw [Markup.wellNamed, ht, ha, ProperAll.wellNamed hm]; rfl

theorem ProperAll.wellNamed : ∀ {ms : List Markup}, ProperAll ms → wellNamedAll ms = true
  | [], _ => by rw [wellNamedAll]
  | m :: ms, h => by
    obtain ⟨hm, hms⟩ := (properAll_cons m ms).1 h
    rw [wellNamedAll, Proper.wellNamed hm, ProperAll.wellNamed hms]; rfl

end

mutual

/-- The values of the attributes are drawn from the text. -/
theorem Proper.mem_values : ∀ {m : Markup}, m.Proper → ∀ v ∈ m.values, Drawn v m.content
  | text s, _ => by rw [Markup.values]; simp
  | element tag attrs ms, h => by
    obtain ⟨-, -, ha, hm⟩ := (proper_element tag attrs ms).1 h
    intro v hv
    rw [Markup.values, List.mem_append] at hv
    rw [content_element]
    rcases hv with hv | hv
    · obtain ⟨a, haa, rfl⟩ := List.mem_map.1 hv
      exact ha a haa
    · exact ProperAll.mem_values hm v hv

theorem ProperAll.mem_values : ∀ {ms : List Markup}, ProperAll ms →
    ∀ v ∈ valuesAll ms, Drawn v (contents ms)
  | [], _ => by rw [valuesAll]; simp
  | m :: ms, h => by
    obtain ⟨hm, hms⟩ := (properAll_cons m ms).1 h
    intro v hv
    rw [valuesAll, List.mem_append] at hv
    rw [contents_cons]
    rcases hv with hv | hv
    · exact (Proper.mem_values hm v hv).append_right _
    · exact (ProperAll.mem_values hms v hv).append_left _

end

end SourceScribe.Markup
