/-
  Documents that are one written element.

  * `characterData_element`: such a document has the runs of text in the element as its
    character data, with their newlines unified, if all characters may stand in one;
  * `characterData_unreadable`: else it is not well-formed.

  `characterData_render` puts the two together.
-/
import SourceScribe.Proofs.Markup.Newlines

namespace SourceScribe.Markup

open Text (unifyFrom)

/-! ## The start of a document -/

theorem toUTF8_data_toList (s : String) :
    s.toUTF8.data.toList = s.toList.flatMap String.utf8EncodeChar := by
  have h : s.toUTF8 = s.toList.utf8Encode := String.utf8Encode_toList.symm
  rw [h, List.utf8Encode]
  simp

/-- A letter is one byte, and not the zero. -/
theorem utf8EncodeChar_of_isAlpha {c : Char} (h : c.isAlpha = true) :
    ∃ b, String.utf8EncodeChar c = [b] ∧ b ≠ 0 := by
  have hn : 65 ≤ c.val.toNat ∧ c.val.toNat ≤ 122 := toNat_of_isAlpha h
  refine ⟨UInt8.ofNat c.val.toNat, ?_, fun h0 => ?_⟩
  · rw [String.utf8EncodeChar, if_pos (by omega)]
  · have hval := congrArg UInt8.toNat h0
    rw [UInt8.toNat_ofNat_of_lt' (by simp only [UInt8.size]; omega)] at hval
    have hzero : (0 : UInt8).toNat = 0 := rfl
    omega

section
variable {s : String} {c : Char} {cs : List Char}

/-- A bracket and a letter are no start of a document in units of 16 bits. -/
theorem wideOrder_tag (hs : s.toList = '<' :: c :: cs) (hc : c.isAlpha = true) :
    wideOrder? s.toUTF8.data.toList = none := by
  obtain ⟨b, hb, hne⟩ := utf8EncodeChar_of_isAlpha hc
  have hbracket : String.utf8EncodeChar '<' = [60] := by decide
  rw [toUTF8_data_toList, hs, List.flatMap_cons, List.flatMap_cons, hbracket, hb]
  simp [wideOrder?, hne]

/-- A document that starts with a tag is its own body. -/
theorem characterData_tag (hs : s.toList = '<' :: c :: cs) (hc : c.isAlpha = true) :
    characterData .text s =
      match bodyData? s.utf8ByteSize false ⟨.standard, s.toList⟩ with
      | some data => .ok data
      | none => .error .malformed := by
  have hopened : opened none s = ⟨.standard, s.toList⟩ := by
    rw [opened, hs, dropMark, if_neg (by decide)]
  have hprelude : splitPrelude .standard s.toList = some (⟨none, false⟩, s.toList) := by
    have hkeyword : keyword? "<?xml" s.toList = none := by
      rw [keyword?, hs, if_neg]
      have hmark : c ≠ '?' := ne_of_isAlpha hc (by decide)
      simp [List.isPrefixOf, Ne.symm hmark]
    rw [splitPrelude, hkeyword]
  simp only [characterData, Form.received, wideOrder_tag hs hc, hopened, hprelude]
  rfl

end

section
variable {name : String} {attrs : List (String × String)} {ms : List Markup}

/-- A written element starts with a bracket and the first letter of its name. -/
theorem render_element_head (hn : (element name attrs ms).wellNamed = true) :
    ∃ c cs, (element name attrs ms).render.toList = '<' :: c :: cs ∧ c.isAlpha = true := by
  rw [wellNamed, Bool.and_eq_true, Bool.and_eq_true] at hn
  have hw := hn.1.1
  simp only [isWord, Bool.and_eq_true, Bool.not_eq_true', List.isEmpty_eq_false_iff,
    List.all_eq_true] at hw
  obtain ⟨hne, hletters⟩ := hw
  obtain ⟨c, cs, hcs⟩ := List.exists_cons_of_ne_nil hne
  have hc : c.isAlpha = true := hletters c (by simp [hcs])
  cases ms with
  | nil => exact ⟨c, _, by simp [render, hcs]; rfl, hc⟩
  | cons m ms => exact ⟨c, _, by simp [render, hcs]; rfl, hc⟩

/-! ## Elements that can be read -/

/-- The body of the document is the element with its newlines unified. -/
theorem unifyChars_render (m : Markup) (hn : m.wellNamed = true) :
    Text.unifyChars m.render.toList = (m.unified false).render.toList := by
  rw [← Text.unifyFrom_false]
  exact (unifies_render m false hn).text

/-- **A document of one element has its runs of text as character data**, with their
    newlines unified. -/
theorem characterData_element (hn : (element name attrs ms).wellNamed = true)
    (hr : (element name attrs ms).isReadable = true) :
    characterData .text (element name attrs ms).render =
      .ok (String.join ((element name attrs ms).characterRuns.map Text.unifyNewlines)) := by
  obtain ⟨c, cs, hhead, hc⟩ := render_element_head hn
  rw [characterData_tag hhead hc, bodyData?, unifyChars_render _ hn, ← content_unified]
  have hn' := (wellNamed_unified _ false).trans hn
  have hr' := isReadable_unified _ false hr
  rw [unified] at hn' hr' ⊢
  have hreads := fun depth => reads_root depth (element name attrs ms).render.utf8ByteSize hn' hr'
  simp only [Reads] at hreads
  simp only [hreads, Option.bind_eq_bind, Option.bind_some]
  simp [Reader.isFinished, Reader.start]

end

/-! ## Elements that cannot be read -/

theorem ne_of_not_isDocumentChar {c d : Char} (hc : isDocumentChar c = false)
    (hd : isDocumentChar d = true) : c ≠ d :=
  fun heq => by simp [heq, hd] at hc

/-- What may not stand in a document is written as it is. -/
theorem escapeTextChar_of_not_isDocumentChar {c : Char} (hc : isDocumentChar c = false) :
    escapeTextChar c = [c] := by
  rw [escapeTextChar, if_neg (ne_of_not_isDocumentChar hc (by decide)),
    if_neg (ne_of_not_isDocumentChar hc (by decide)),
    if_neg (ne_of_not_isDocumentChar hc (by decide))]

theorem escapeValueChar_of_not_isDocumentChar {c : Char} (hc : isDocumentChar c = false) :
    escapeValueChar c = [c] := by
  rw [escapeValueChar, if_neg (ne_of_not_isDocumentChar hc (by decide)),
    escapeTextChar_of_not_isDocumentChar hc]

theorem mem_renderAttrs {c : Char} (hc : isDocumentChar c = false)
    {attrs : List (String × String)} {a : String × String} (ha : a ∈ attrs)
    (hmem : c ∈ a.2.toList) : c ∈ (renderAttrs attrs).toList := by
  induction attrs with
  | nil => cases ha
  | cons b attrs ih =>
    obtain ⟨name, value⟩ := b
    rw [toList_renderAttrs_cons, List.mem_append]
    rcases List.mem_cons.1 ha with rfl | ha
    · have hvalue : c ∈ value.toList.flatMap escapeValueChar :=
        List.mem_flatMap.2 ⟨c, hmem, by simp [escapeValueChar_of_not_isDocumentChar hc]⟩
      exact Or.inl (by simp only [List.mem_cons, List.mem_append, hvalue]; simp)
    · exact Or.inr (ih ha)

theorem mem_render_element {c : Char} (name : String) (attrs : List (String × String))
    (ms : List Markup) (h : c ∈ (renderAttrs attrs).toList ∨ c ∈ (renderAll ms).toList) :
    c ∈ (element name attrs ms).render.toList := by
  by_cases hms : ms = []
  · subst hms
    have hattrs : c ∈ (renderAttrs attrs).toList := by simpa [renderAll] using h
    simp [render, hattrs]
  · rw [render_element_of_ne_nil name attrs hms]
    simp only [String.toList_append, List.mem_append]
    tauto

mutual

/-- A character that may not stand in a document is in the written form. -/
theorem mem_render {c : Char} (hc : isDocumentChar c = false) : ∀ (m : Markup),
    ∀ s ∈ m.texts ++ m.values, c ∈ s.toList → c ∈ m.render.toList
  | .text t, s, hs, hmem => by
    obtain rfl : s = t := by simpa [texts, values] using hs
    rw [render, escapeText, String.toList_ofList]
    exact List.mem_flatMap.2 ⟨c, hmem, by simp [escapeTextChar_of_not_isDocumentChar hc]⟩
  | .element name attrs ms, s, hs, hmem => by
    refine mem_render_element name attrs ms ?_
    simp only [texts, values, List.mem_append, List.mem_map] at hs
    rcases hs with hs | ⟨a, ha, rfl⟩ | hs
    · exact Or.inr (mem_renderAll hc ms s (by simp [hs]) hmem)
    · exact Or.inl (mem_renderAttrs hc ha hmem)
    · exact Or.inr (mem_renderAll hc ms s (by simp [hs]) hmem)

theorem mem_renderAll {c : Char} (hc : isDocumentChar c = false) : ∀ (ms : List Markup),
    ∀ s ∈ textsAll ms ++ valuesAll ms, c ∈ s.toList → c ∈ (renderAll ms).toList
  | [], s, hs, _ => by simp [textsAll, valuesAll] at hs
  | m :: ms, s, hs, hmem => by
    rw [renderAll, String.toList_append, List.mem_append]
    simp only [textsAll, valuesAll, List.mem_append] at hs
    rcases hs with (hs | hs) | (hs | hs)
    · exact Or.inl (mem_render hc m s (by simp [hs]) hmem)
    · exact Or.inr (mem_renderAll hc ms s (by simp [hs]) hmem)
    · exact Or.inl (mem_render hc m s (by simp [hs]) hmem)
    · exact Or.inr (mem_renderAll hc ms s (by simp [hs]) hmem)

end

section
variable {name : String} {attrs : List (String × String)} {ms : List Markup}

/-- **A document with a character that may not stand in one is malformed.** -/
theorem characterData_unreadable (hn : (element name attrs ms).wellNamed = true)
    (hr : (element name attrs ms).isReadable = false) :
    characterData .text (element name attrs ms).render = .error .malformed := by
  obtain ⟨c, cs, hhead, hc⟩ := render_element_head hn
  rw [isReadable, List.all_eq_false] at hr
  obtain ⟨s, hs, hbad⟩ := hr
  obtain ⟨d, hd, hbad⟩ := List.all_eq_false.1 (Bool.eq_false_iff.2 hbad)
  have hdoc : isDocumentChar d = false := Bool.eq_false_iff.2 hbad
  have hmem : d ∈ Text.unifyChars (element name attrs ms).render.toList := by
    rw [← Text.unifyFrom_false]
    exact Text.mem_unifyFrom (mem_render hdoc _ s hs hd)
      ⟨ne_of_not_isDocumentChar hdoc (by decide), ne_of_not_isDocumentChar hdoc (by decide)⟩
  rw [characterData_tag hhead hc, bodyData?, feed_eq_none hmem hdoc]
  rfl

/-! ## The characters of XML -/

/-- Whether `c` is a character of XML 1.0. -/
def isXmlChar (c : Char) : Bool :=
  let n := c.toNat
  n = 0x9 || n = 0xA || n = 0xD || 0x20 ≤ n && n ≤ 0xD7FF || 0xE000 ≤ n && n ≤ 0xFFFD ||
    0x10000 ≤ n && n ≤ 0x10FFFF

/-- These are the characters that the reader lets through: a character is no surrogate. -/
theorem isXmlChar_eq (c : Char) : isXmlChar c = isDocumentChar c := by
  have hvalid : c.toNat < 0xD800 ∨ 0xDFFF < c.toNat ∧ c.toNat < 0x110000 := c.valid
  have hchar : ∀ d : Char, c = d ↔ c.toNat = d.toNat := fun d =>
    ⟨congrArg Char.toNat, Char.toNat_inj.1⟩
  rw [Bool.eq_iff_iff, isXmlChar, isDocumentChar]
  split
  · simp only [Bool.or_eq_true, Bool.and_eq_true, decide_eq_true_eq, hchar]
    have ht : '\t'.toNat = 0x9 := rfl
    have hl : '\n'.toNat = 0xA := rfl
    have hr : '\r'.toNat = 0xD := rfl
    omega
  · simp only [Bool.or_eq_true, Bool.and_eq_true, decide_eq_true_eq, bne_iff_ne]
    omega

theorem isReadable_iff (m : Markup) : m.isReadable = true ↔
    ∀ s ∈ m.texts ++ m.values, ∀ c ∈ s.toList, isXmlChar c = true := by
  simp only [isReadable, List.all_eq_true, isXmlChar_eq]

/-- A proper element can be read if all characters of its text are those of XML. -/
theorem Proper.isReadable {m : Markup} (h : m.Proper)
    (hall : ∀ c ∈ m.content.toList, isXmlChar c = true) : m.isReadable = true := by
  rw [isReadable_iff]
  intro s hs c hc
  rcases List.mem_append.1 hs with hs | hs
  · exact hall c (mem_content s hs hc)
  · rcases h.mem_values s hs c hc with halpha | hmem
    · rw [isXmlChar_eq, isDocumentChar_of_isAlpha halpha]
    · exact hall c hmem

/-- **A proper element reads as its text**, if that has only characters of XML and no
    carriage return. -/
theorem characterData_proper (h : (element name attrs ms).Proper)
    (hall : ∀ c ∈ (contents ms).toList, isXmlChar c = true ∧ c ≠ '\r') :
    characterData .text (element name attrs ms).render = .ok (contents ms) := by
  rw [← content_element name attrs ms] at hall ⊢
  rw [characterData_element h.wellNamed (h.isReadable fun c hc => (hall c hc).1),
    join_characterRuns_unified fun hr => (hall _ hr).2 rfl]

/-- **What the document of a written element reads as.**  It is malformed if and only if a
    text or a value of an attribute in the element has a character that XML has not.  Else
    its character data are the texts in order, where a carriage return, with a line feed
    after it that no tag divides from it, is a line feed. -/
theorem characterData_render (hn : (element name attrs ms).wellNamed = true) :
    let root := element name attrs ms
    (characterData .text root.render = .error .malformed ↔
      ∃ s ∈ root.texts ++ root.values, ∃ c ∈ s.toList, isXmlChar c = false) ∧
    ((∀ s ∈ root.texts ++ root.values, ∀ c ∈ s.toList, isXmlChar c = true) →
      characterData .text root.render =
        .ok (String.join (root.characterRuns.map Text.unifyNewlines))) ∧
    String.join root.characterRuns = root.content := by
  intro root
  refine ⟨⟨fun herr => ?_, ?_⟩, fun hall => ?_, join_characterRuns root⟩
  · by_contra hnone
    push Not at hnone
    have hr := (isReadable_iff root).2 fun s hs c hc => by simpa using hnone s hs c hc
    rw [characterData_element hn hr] at herr
    cases herr
  · rintro ⟨s, hs, c, hc, hbad⟩
    refine characterData_unreadable hn (Bool.eq_false_iff.2 fun hr => ?_)
    simp [(isReadable_iff root).1 hr s hs c hc] at hbad
  · exact characterData_element hn ((isReadable_iff root).2 hall)

end

/-- An element with quotes, look-alikes of references and newlines on both sides of a tag. -/
def quotedSample : Markup :=
  element "Str" [("s", "a\"<b>")]
    [text "x\r", text "\ny]]>", element "e" [] [], text "&amp;\r", element "e" [] [text ""],
      text "\n<'\">"]

theorem characterData_quotedSample :
    quotedSample.wellNamed = true ∧
    (∀ s ∈ quotedSample.texts ++ quotedSample.values, ∀ c ∈ s.toList, isXmlChar c = true) ∧
    characterData .text quotedSample.render = .ok "x\ny]]>&amp;\n\n<'\">" := by
  have hn : quotedSample.wellNamed = true := by decide
  have hall : ∀ s ∈ quotedSample.texts ++ quotedSample.values, ∀ c ∈ s.toList,
      isXmlChar c = true := (isReadable_iff quotedSample).1 (by decide)
  refine ⟨hn, hall, ?_⟩
  have hdata := (characterData_render hn).2.1 hall
  exact hdata.trans (by decide)

end SourceScribe.Markup
