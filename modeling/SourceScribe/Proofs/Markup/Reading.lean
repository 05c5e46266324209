/-
  Reading written markup.

  The reader undoes what `render` does: from inside an element, or from the start of a
  document, it goes through a piece of well-named markup and has its text as character
  data afterwards (`reads_render`, `reads_root`).  It stops at a character that no
  document may hold, wherever that stands (`feed_eq_none`).

  `Reads depth r cs r'` is a run of the reader over `cs`.
-/
import Mathlib.Data.List.Nodup
import Mathlib.Data.List.TakeDrop
import Mathlib.Data.List.TakeWhile
import SourceScribe.Markup.Document
import SourceScribe.Proofs.Markup.Naming

namespace SourceScribe.Markup

open Reader

/-! ## Letters -/

section
variable {c : Char}

theorem toNat_of_isAlpha (h : c.isAlpha = true) : 65 ≤ c.toNat ∧ c.toNat ≤ 122 := by
  have hcases : (decide (c.val ≥ 'A'.val ∧ c.val ≤ 'Z'.val) ||
      (decide (c.val ≥ 'a'.val) && decide (c.val ≤ 'z'.val))) = true := h
  simp only [Bool.or_eq_true, Bool.and_eq_true, decide_eq_true_eq, ge_iff_le,
    UInt32.le_iff_toNat_le] at hcases
  have hA : 'A'.val.toNat = 65 := rfl
  have hZ : 'Z'.val.toNat = 90 := rfl
  have ha : 'a'.val.toNat = 97 := rfl
  have hz : 'z'.val.toNat = 122 := rfl
  have hc : c.toNat = c.val.toNat := rfl
  omega

theorem ne_of_isAlpha {d : Char} (h : c.isAlpha = true) (hd : d.isAlpha = false) : c ≠ d :=
  fun heq => by simp [heq, hd] at h

theorem isDocumentChar_of_isAlpha (h : c.isAlpha = true) : isDocumentChar c = true := by
  have hn := toNat_of_isAlpha h
  rw [isDocumentChar, if_neg (by omega)]
  simp only [Bool.and_eq_true, bne_iff_ne]
  omega

theorem isNameStart_of_isAlpha (letters : Letters) (h : c.isAlpha = true) :
    isNameStart letters c = true := by
  have hn := toNat_of_isAlpha h
  rw [isNameStart, if_pos (by omega), h, Bool.true_or]

theorem isNameChar_of_isAlpha (letters : Letters) (h : c.isAlpha = true) :
    isNameChar letters c = true := by
  have hn := toNat_of_isAlpha h
  rw [isNameChar, if_pos (by omega), Char.isAlphanum, h]
  rfl

theorem isSpace_of_isAlpha (h : c.isAlpha = true) : isSpace c = false := by
  simp [isSpace, ne_of_isAlpha h (d := ' ') rfl, ne_of_isAlpha h (d := '\t') rfl,
    ne_of_isAlpha h (d := '\n') rfl, ne_of_isAlpha h (d := '\r') rfl]

/-- The blanks, quotes, brackets and signs around names. -/
def isTagSign (c : Char) : Bool :=
  c = ' ' || c = '=' || c = '/' || c = '>' || c = '"'

theorem isNameChar_sign (letters : Letters) (h : isTagSign c = true) :
    (isNameChar letters c || decide (c = ':')) = false := by
  simp only [isTagSign, Bool.or_eq_true, decide_eq_true_eq] at h
  rcases h with (((rfl | rfl) | rfl) | rfl) | rfl <;> cases letters <;> decide

theorem isDocumentChar_sign (h : isTagSign c = true) : isDocumentChar c = true := by
  simp only [isTagSign, Bool.or_eq_true, decide_eq_true_eq] at h
  rcases h with (((rfl | rfl) | rfl) | rfl) | rfl <;> decide

@[simp] theorem isDocumentChar_markup : isDocumentChar '<' = true ∧ isDocumentChar '>' = true ∧
    isDocumentChar '/' = true ∧ isDocumentChar '=' = true ∧ isDocumentChar '"' = true ∧
    isDocumentChar '&' = true ∧ isDocumentChar ';' = true ∧ isDocumentChar ']' = true :=
  ⟨rfl, rfl, rfl, rfl, rfl, rfl, rfl, rfl⟩

@[simp] theorem isSpace_markup : isSpace ' ' = true ∧ isSpace '<' = false ∧ isSpace '>' = false ∧
    isSpace '/' = false ∧ isSpace '"' = false :=
  ⟨rfl, rfl, rfl, rfl, rfl⟩

/-- Whether `c` may stand in a reference before the semicolon that ends it. -/
def isEntityChar (c : Char) : Bool :=
  isDocumentChar c && c != ';'

end

/-! ## Runs of the reader -/

/-- How the text of an entity is read at some depth. -/
def enterAt : Nat → Reader → String → Option Reader
  | 0 => fun _ _ => none
  | depth + 1 => enterText (feed depth)

theorem feed_cons (depth : Nat) (r : Reader) (c : Char) (cs : List Char) :
    feed depth r (c :: cs) =
      (step (enterAt depth) (resolveText depth) r c).bind fun r' => feed depth r' cs := by
  cases depth <;> rfl

/-- A character that no document may hold ends the reading. -/
theorem feed_eq_none {depth : Nat} {r : Reader} {cs : List Char} {c : Char} (hc : c ∈ cs)
    (hbad : isDocumentChar c = false) : feed depth r cs = none := by
  induction cs generalizing r with
  | nil => cases hc
  | cons d ds ih =>
    rw [feed_cons]
    rcases List.mem_cons.1 hc with rfl | hc
    · simp [step, hbad]
    · cases step (enterAt depth) (resolveText depth) r d with
      | none => rfl
      | some r' => exact ih hc

/-- The reader goes from `r` to `r'` over `cs`. -/
def Reads (depth : Nat) (r : Reader) (cs : List Char) (r' : Reader) : Prop :=
  feed depth r cs = some r'

section
variable {depth : Nat} {r r₁ r' : Reader} {c : Char} {cs ds : List Char}

theorem Reads.nil (depth : Nat) (r : Reader) : Reads depth r [] r := by
  cases depth <;> rfl

theorem Reads.append (h : Reads depth r cs r₁) (h' : Reads depth r₁ ds r') :
    Reads depth r (cs ++ ds) r' := by
  rw [Reads, feed_append, h, Option.bind_some]
  exact h'

theorem Reads.cons (r₁ : Reader) (h : step (enterAt depth) (resolveText depth) r c = some r₁)
    (h' : Reads depth r₁ cs r') : Reads depth r (c :: cs) r' := by
  rw [Reads, feed_cons, h, Option.bind_some]
  exact h'

theorem Reads.single (h : step (enterAt depth) (resolveText depth) r c = some r') :
    Reads depth r [c] r' :=
  Reads.cons r' h (Reads.nil depth r')

end

/-- A word is collected backwards, one character after the other. -/
theorem reads_word (depth : Nat) (r : Reader) {cs : List Char} (collected : List Char → Mode)
    (h : ∀ c ∈ cs, ∀ seen, step (enterAt depth) (resolveText depth)
      { r with mode := collected seen } c = some { r with mode := collected (c :: seen) })
    (seen : List Char) : Reads depth { r with mode := collected seen } cs
      { r with mode := collected (cs.reverse ++ seen) } := by
  induction cs generalizing seen with
  | nil => exact Reads.nil depth _
  | cons c cs ih =>
    refine Reads.cons _ (h c (by simp) seen) ?_
    have hcs := ih (fun d hd => h d (by simp [hd])) (c :: seen)
    simpa using hcs

/-! ## Text -/

section
variable {depth : Nat} {r : Reader} {cs : List Char}

/-- A reference to one of the entities that are always known. -/
theorem reads_entity {brackets : Nat} (cs : List Char) {d : Char}
    (hcs : cs.all isEntityChar = true)
    (hd : referent? r.letters cs = some (.char d)) :
    Reads depth { r with mode := .content brackets } ('&' :: (cs ++ [';']))
      { r with mode := .content 0, data := d :: r.data } := by
  refine Reads.cons { r with mode := .reference [] } ?_ ?_
  · simp [step]
  · refine Reads.append (reads_word depth r .reference (fun c hc seen => ?_) []) (Reads.single ?_)
    · have hentity := List.all_eq_true.1 hcs c hc
      rw [isEntityChar, Bool.and_eq_true, bne_iff_ne] at hentity
      simp [step, hentity]
    · simp [step, hd, push]

/-- A character of a text, as it is written. -/
theorem reads_escapeTextChar (depth : Nat) (r : Reader) (brackets : Nat) {c : Char}
    (hc : isDocumentChar c = true) :
    ∃ brackets', Reads depth { r with mode := .content brackets } (escapeTextChar c)
      { r with mode := .content brackets', data := c :: r.data } := by
  rw [escapeTextChar]
  split
  · subst c
    exact ⟨0, reads_entity "amp".toList rfl (by cases r.letters <;> rfl)⟩
  split
  · subst c
    exact ⟨0, reads_entity "lt".toList rfl (by cases r.letters <;> rfl)⟩
  split
  · subst c
    exact ⟨0, reads_entity "gt".toList rfl (by cases r.letters <;> rfl)⟩
  · rename_i hamp hlt hgt
    by_cases hbracket : c = ']'
    · refine ⟨min (brackets + 1) 2, Reads.single ?_⟩
      simp [step, hbracket, push]
    · exact ⟨0, Reads.single (by simp [step, hc, hamp, hlt, hgt, hbracket, push])⟩

/-- A text, as it is written. -/
theorem reads_escapeText (depth : Nat) (r : Reader) (brackets : Nat)
    (hcs : ∀ c ∈ cs, isDocumentChar c = true) :
    ∃ brackets', Reads depth { r with mode := .content brackets } (cs.flatMap escapeTextChar)
      { r with mode := .content brackets', data := cs.reverse ++ r.data } := by
  induction cs generalizing r brackets with
  | nil => exact ⟨brackets, Reads.nil depth _⟩
  | cons c cs ih =>
    obtain ⟨b₁, h₁⟩ := reads_escapeTextChar depth r brackets (hcs c (by simp))
    obtain ⟨b₂, h₂⟩ := ih { r with data := c :: r.data } b₁ fun d hd => hcs d (by simp [hd])
    refine ⟨b₂, ?_⟩
    rw [List.flatMap_cons]
    simpa using Reads.append h₁ h₂

end

/-! ## Start tags -/

/-- The reader is after the name or after an attribute of a start tag. -/
def AtTag (r : Reader) (tag : StartTag) : Prop :=
  r.mode = .inTag tag false ∨ (r.mode = .tagName tag.name.reverse ∧ tag.attrs = [])

section
variable {depth : Nat} {r : Reader} {tag : StartTag} {name value : String}

/-- What comes after a name or an attribute. -/
theorem step_atTag {c : Char} (ht : AtTag r tag) (hc : isTagSign c = true) :
    step (enterAt depth) (resolveText depth) r c = r.tagStep? tag false c := by
  have hdoc := isDocumentChar_sign hc
  rcases ht with hmode | ⟨hmode, hattrs⟩
  · simp [step, hdoc, hmode]
  · have hname := isNameChar_sign r.letters hc
    obtain ⟨n, attrs⟩ := tag
    obtain rfl : attrs = [] := hattrs
    simp only [step, hdoc, hmode, hname]
    simp

theorem reads_attrEntity {n v : List Char} (cs : List Char) {d : Char}
    (hcs : cs.all isEntityChar = true)
    (hd : referent? r.letters cs = some (.char d)) :
    Reads depth { r with mode := .attrValue tag n '"' v } ('&' :: (cs ++ [';']))
      { r with mode := .attrValue tag n '"' (d :: v) } := by
  refine Reads.cons { r with mode := .attrReference tag n '"' v [] } ?_ ?_
  · simp [step]
  · refine Reads.append (reads_word depth r (.attrReference tag n '"' v) (fun c hc seen => ?_) [])
      (Reads.single ?_)
    · have hentity := List.all_eq_true.1 hcs c hc
      rw [isEntityChar, Bool.and_eq_true, bne_iff_ne] at hentity
      simp [step, hentity]
    · simp [step, hd]

/-- A character of the value of an attribute, as it is written. -/
theorem reads_escapeValueChar (depth : Nat) (r : Reader) (tag : StartTag) (n v : List Char)
    {c : Char} (hc : isDocumentChar c = true) :
    ∃ v', Reads depth { r with mode := .attrValue tag n '"' v } (escapeValueChar c)
      { r with mode := .attrValue tag n '"' v' } := by
  rw [escapeValueChar]
  split
  · exact ⟨_, reads_attrEntity "quot".toList rfl (by cases r.letters <;> rfl)⟩
  rw [escapeTextChar]
  split
  · exact ⟨_, reads_attrEntity "amp".toList rfl (by cases r.letters <;> rfl)⟩
  split
  · exact ⟨_, reads_attrEntity "lt".toList rfl (by cases r.letters <;> rfl)⟩
  split
  · exact ⟨_, reads_attrEntity "gt".toList rfl (by cases r.letters <;> rfl)⟩
  · rename_i hquote hamp hlt hgt
    refine ⟨(if isSpace c then ' ' else c) :: v, Reads.single ?_⟩
    simp [step, hc, hquote, hamp, hlt]

theorem reads_escapeValue (depth : Nat) (r : Reader) (tag : StartTag) (n v : List Char)
    {cs : List Char} (hcs : ∀ c ∈ cs, isDocumentChar c = true) :
    ∃ v', Reads depth { r with mode := .attrValue tag n '"' v } (cs.flatMap escapeValueChar)
      { r with mode := .attrValue tag n '"' v' } := by
  induction cs generalizing v with
  | nil => exact ⟨v, Reads.nil depth _⟩
  | cons c cs ih =>
    obtain ⟨v₁, h₁⟩ := reads_escapeValueChar depth r tag n v (hcs c (by simp))
    obtain ⟨v₂, h₂⟩ := ih v₁ fun d hd => hcs d (by simp [hd])
    refine ⟨v₂, ?_⟩
    rw [List.flatMap_cons]
    exact Reads.append h₁ h₂

/-- An attribute, as it is written after a blank. -/
theorem reads_attr (depth : Nat) (ht : AtTag r tag) (hn : isWord name = true)
    (hv : ∀ c ∈ value.toList, isDocumentChar c = true) :
    ∃ v, Reads depth r (' ' :: (name.toList ++ ('=' :: '"' ::
        (value.toList.flatMap escapeValueChar ++ ['"']))))
      { r with mode := .inTag ⟨tag.name, (name.toList, v) :: tag.attrs⟩ false } := by
  simp only [isWord, Bool.and_eq_true, Bool.not_eq_true', List.isEmpty_eq_false_iff,
    List.all_eq_true] at hn
  obtain ⟨hne, hletters⟩ := hn
  obtain ⟨c, cs, hcs⟩ := List.exists_cons_of_ne_nil hne
  rw [hcs] at hletters ⊢
  have hc := hletters c (by simp)
  obtain ⟨v, hvalue⟩ := reads_escapeValue depth r tag (c :: cs) [] hv
  refine ⟨v.reverse, ?_⟩
  refine Reads.cons { r with mode := .inTag tag true } ?_ ?_
  · rw [step_atTag ht rfl]
    simp [tagStep?]
  refine Reads.cons { r with mode := .attrName tag [c] } ?_ ?_
  · simp [step, tagStep?, isDocumentChar_of_isAlpha hc, isNameStart_of_isAlpha r.letters hc,
      isSpace_of_isAlpha hc, ne_of_isAlpha hc (d := '/') rfl,
      ne_of_isAlpha hc (d := '>') rfl]
  refine Reads.append (reads_word depth r (.attrName tag) (fun d hd seen => ?_) [c]) ?_
  · have hd := hletters d (by simp [hd])
    simp [step, isDocumentChar_of_isAlpha hd, isNameChar_of_isAlpha r.letters hd]
  refine Reads.cons { r with mode := .attrQuote tag (c :: cs) } ?_ ?_
  · have hsign := isNameChar_sign (c := '=') r.letters rfl
    simp only [step, hsign]
    simp
  refine Reads.cons { r with mode := .attrValue tag (c :: cs) '"' [] } ?_ ?_
  · simp [step]
  refine Reads.append hvalue (Reads.single ?_)
  simp [step]

theorem toList_renderAttrs_cons (attrs : List (String × String)) :
    (renderAttrs ((name, value) :: attrs)).toList =
      ' ' :: (name.toList ++ ('=' :: '"' :: (value.toList.flatMap escapeValueChar ++ ['"']))) ++
        (renderAttrs attrs).toList := by
  simp [renderAttrs, escapeValue]

/-- The attributes of a start tag, as they are written. -/
theorem reads_renderAttrs (depth : Nat) (r : Reader) (tag : StartTag)
    {attrs : List (String × String)} (ht : AtTag r tag)
    (hn : ∀ a ∈ attrs, isWord a.1 = true)
    (hv : ∀ a ∈ attrs, ∀ c ∈ a.2.toList, isDocumentChar c = true) :
    ∃ (m : Mode) (given : List (List Char × List Char)),
      Reads depth r (renderAttrs attrs).toList { r with mode := m } ∧
      AtTag { r with mode := m } ⟨tag.name, given.reverse ++ tag.attrs⟩ ∧
      given.map (·.1) = attrs.map (·.1.toList) := by
  induction attrs generalizing r tag with
  | nil => exact ⟨r.mode, [], by simpa [renderAttrs] using Reads.nil depth r, by simpa using ht, rfl⟩
  | cons a attrs ih =>
    obtain ⟨name, value⟩ := a
    obtain ⟨v, h₁⟩ := reads_attr depth ht (hn (name, value) (by simp)) (hv (name, value) (by simp))
    obtain ⟨m, given, h₂, hat, hnames⟩ :=
      ih { r with mode := .inTag ⟨tag.name, (name.toList, v) :: tag.attrs⟩ false } _ (Or.inl rfl)
        (fun a ha => hn a (by simp [ha])) (fun a ha => hv a (by simp [ha]))
    refine ⟨m, (name.toList, v) :: given, ?_, ?_, by simp [hnames]⟩
    · rw [toList_renderAttrs_cons]
      exact Reads.append h₁ h₂
    · simpa using hat

end

/-! ## Names without prefixes -/

theorem splitName_word {s : String} (h : isWord s = true) :
    splitName s.toList = (none, s.toList) := by
  simp only [isWord, Bool.and_eq_true, List.all_eq_true] at h
  have hall : ∀ c ∈ s.toList, (decide (c ≠ ':')) = true := fun c hc => by
    simpa using ne_of_isAlpha (h.2 c hc) (d := ':') rfl
  rw [splitName, List.span_eq_takeWhile_dropWhile, List.takeWhile_eq_self_iff.2 hall,
    List.dropWhile_eq_nil_iff.2 hall]

theorem isQualifiedName_word (letters : Letters) {s : String} (h : isWord s = true) :
    isQualifiedName letters s.toList = true := by
  rw [isQualifiedName, splitName_word h]
  simp only [isWord, Bool.and_eq_true, Bool.not_eq_true', List.isEmpty_eq_false_iff,
    List.all_eq_true] at h
  obtain ⟨hne, hletters⟩ := h
  obtain ⟨c, cs, hcs⟩ := List.exists_cons_of_ne_nil hne
  rw [hcs] at hletters ⊢
  simp only [isPlainName, Bool.and_eq_true, List.all_eq_true]
  exact ⟨isNameStart_of_isAlpha letters (hletters c (by simp)),
    fun d hd => isNameChar_of_isAlpha letters (hletters d (by simp [hd]))⟩

theorem expand_word (scope : List (List Char × List Char)) {s : String} (h : isWord s = true) :
    expand? scope s.toList = some ([], s.toList) := by
  rw [expand?, splitName_word h]

theorem boundPrefix_word {s : String} (h : isWord s = true) (hx : s ≠ "xmlns") :
    boundPrefix? s.toList = none := by
  rw [boundPrefix?, splitName_word h]
  simp only [ite_eq_right_iff, reduceCtorEq, imp_false]
  exact fun heq => hx (String.toList_inj.1 heq)

theorem allDifferent_of_nodup {α : Type} [BEq α] [LawfulBEq α] {as : List α} (h : as.Nodup) :
    allDifferent as = true := by
  induction as with
  | nil => rfl
  | cons a as ih =>
    rw [List.nodup_cons] at h
    simp [allDifferent, h.1, ih h.2]

/-- Attributes that bind no namespace leave the scope as it is. -/
theorem bindAll_eq_self (scope : List (List Char × List Char)) {attrs : List (List Char × List Char)}
    (h : ∀ a ∈ attrs, boundPrefix? a.1 = none) : bindAll? scope attrs = some scope := by
  induction attrs with
  | nil => rfl
  | cons a attrs ih =>
    rw [bindAll?, h a (by simp)]
    exact ih fun b hb => h b (by simp [hb])

theorem mapM_eq_map {α β : Type} {f : α → Option β} {g : α → β} {as : List α}
    (h : ∀ a ∈ as, f a = some (g a)) : as.mapM f = some (as.map g) := by
  induction as with
  | nil => rfl
  | cons a as ih => simp [h a (by simp), ih fun b hb => h b (by simp [hb])]

/-- A start tag with words for names, none of them twice and none `xmlns`, is well-formed
    and leaves the scope as it is. -/
theorem scopeOf_words (letters : Letters) (scope : List (List Char × List Char)) {tag : StartTag}
    {name : String} {attrs : List (String × String)} (hname : tag.name = name.toList)
    (hw : isWord name = true) (hnames : tag.attrs.reverse.map (·.1) = attrs.map (·.1.toList))
    (ha : attrsNamed attrs = true) : scopeOf? letters scope [] tag = some scope := by
  simp only [attrsNamed, Bool.and_eq_true, List.all_eq_true, bne_iff_ne, decide_eq_true_eq] at ha
  obtain ⟨hwords, hnodup⟩ := ha
  have hgiven : ∀ a ∈ tag.attrs.reverse, ∃ n, isWord n = true ∧ n ≠ "xmlns" ∧ a.1 = n.toList := by
    intro a hmem
    obtain ⟨b, hb, heq⟩ := List.mem_map.1 (hnames ▸ List.mem_map_of_mem hmem)
    exact ⟨b.1, (hwords b hb).1, (hwords b hb).2, heq.symm⟩
  have hunbound : ∀ a ∈ tag.attrs.reverse, boundPrefix? a.1 = none := by
    intro a hmem
    obtain ⟨n, hn, hx, heq⟩ := hgiven a hmem
    rw [heq, boundPrefix_word hn hx]
  have hqualified : tag.attrs.reverse.all (fun a => isQualifiedName letters a.1) = true := by
    refine List.all_eq_true.2 fun a hmem => ?_
    obtain ⟨n, hn, -, heq⟩ := hgiven a hmem
    rw [heq, isQualifiedName_word letters hn]
  have hexpand : (tag.attrs.reverse.mapM fun a => expand? scope a.1) =
      some (tag.attrs.reverse.map fun a => (([] : List Char), a.1)) := by
    refine mapM_eq_map fun a hmem => ?_
    obtain ⟨n, hn, -, heq⟩ := hgiven a hmem
    rw [heq, expand_word scope hn]
  have hdifferent : (tag.attrs.reverse.map (·.1)).Nodup := by
    rw [hnames, ← Function.comp_def String.toList, ← List.map_map]
    exact hnodup.map fun a b hab => String.toList_inj.1 hab
  have hpairs : (tag.attrs.reverse.map fun a => (([] : List Char), a.1)).Nodup := by
    rw [← Function.comp_def (Prod.mk ([] : List Char)), ← List.map_map]
    exact hdifferent.map fun a b hab => (Prod.mk.inj hab).2
  have hruled : ruledAttributes [] tag.attrs.reverse = tag.attrs.reverse := by
    simp [ruledAttributes]
  have hfilter : (tag.attrs.reverse.filter fun a => (boundPrefix? a.1).isNone) =
      tag.attrs.reverse :=
    List.filter_eq_self.2 fun a hmem => by rw [hunbound a hmem]; rfl
  simp only [scopeOf?, hruled, hfilter, bindAll_eq_self scope hunbound, hname,
    isQualifiedName_word letters hw, hqualified, allDifferent_of_nodup hdifferent,
    Option.bind_eq_bind, Option.bind_some, expand_word scope hw, hexpand,
    allDifferent_of_nodup hpairs]
  rfl

/-! ## Elements -/

section
variable {depth : Nat} {r : Reader} {name : String} {attrs : List (String × String)}

/-- The reader inside an element of this name. -/
def Reader.inside (r : Reader) (name : String) : Reader :=
  { r with
    mode := .content 0
    elements := (name.toList, r.namespaces) :: r.elements
    rooted := true }

theorem openElement_words {tag : StartTag} (hrules : r.attributes = [])
    (hname : tag.name = name.toList) (hw : isWord name = true)
    (hnames : tag.attrs.reverse.map (·.1) = attrs.map (·.1.toList))
    (ha : attrsNamed attrs = true) : r.openElement? tag = some (r.inside name) := by
  have hscope := scopeOf_words r.letters r.namespaces hname hw hnames ha
  have hnone : r.rulesOf tag.name = [] := by simp [rulesOf, hrules]
  rw [openElement?, hnone, hscope, hname]
  rfl

/-- A start tag, up to its last bracket. -/
theorem reads_startTag (depth : Nat) (hopen : r.isInside = false → r.rooted = false)
    (hrules : r.attributes = []) (hw : isWord name = true) (ha : attrsNamed attrs = true)
    (hv : ∀ a ∈ attrs, ∀ c ∈ a.2.toList, isDocumentChar c = true) :
    ∃ (m : Mode) (tag : StartTag), Reads depth { r with mode := .opening }
        (name.toList ++ (renderAttrs attrs).toList) { r with mode := m } ∧
      AtTag { r with mode := m } tag ∧ tag.name = name.toList ∧
      { r with mode := m }.openElement? tag = some (r.inside name) := by
  have hword := hw
  simp only [isWord, Bool.and_eq_true, Bool.not_eq_true', List.isEmpty_eq_false_iff,
    List.all_eq_true] at hword
  obtain ⟨hne, hletters⟩ := hword
  obtain ⟨c, cs, hcs⟩ := List.exists_cons_of_ne_nil hne
  have hc : c.isAlpha = true := hletters c (by simp [hcs])
  have hfirst : step (enterAt depth) (resolveText depth) { r with mode := .opening } c =
      some { r with mode := .tagName [c] } := by
    have hinside : ({ r with mode := .opening } : Reader).isInside = r.isInside := rfl
    simp [step, isDocumentChar_of_isAlpha hc, isNameStart_of_isAlpha r.letters hc, hinside,
      ne_of_isAlpha hc (d := '!') rfl, ne_of_isAlpha hc (d := '?') rfl,
      ne_of_isAlpha hc (d := '/') rfl]
    exact hopen
  have hname : Reads depth { r with mode := .opening } name.toList
      { r with mode := .tagName name.toList.reverse } := by
    rw [hcs]
    refine Reads.cons _ hfirst ?_
    rw [List.reverse_cons]
    refine reads_word depth r .tagName (fun d hd seen => ?_) [c]
    have hd : d.isAlpha = true := hletters d (by simp [hcs, hd])
    simp [step, isDocumentChar_of_isAlpha hd, isNameChar_of_isAlpha r.letters hd]
  have hnamed := ha
  simp only [attrsNamed, Bool.and_eq_true, List.all_eq_true, bne_iff_ne] at hnamed
  obtain ⟨m, given, hattrs, hat, hnames⟩ := reads_renderAttrs depth
    { r with mode := .tagName name.toList.reverse } ⟨name.toList, []⟩ (Or.inr ⟨rfl, rfl⟩)
    (fun a hmem => (hnamed.1 a hmem).1) hv
  refine ⟨m, _, Reads.append hname hattrs, hat, rfl, ?_⟩
  exact openElement_words (r := { r with mode := m }) hrules rfl hw (by simpa using hnames) ha

/-- An end tag. -/
theorem reads_endTag (depth : Nat) (r : Reader) (brackets : Nat) (data : List Char)
    (hw : isWord name = true) :
    Reads depth { r.inside name with mode := .content brackets, data := data }
      ('<' :: '/' :: (name.toList ++ ['>']))
      ({ r with rooted := true, data := data } : Reader).resume := by
  simp only [isWord, Bool.and_eq_true, List.all_eq_true] at hw
  refine Reads.cons { r.inside name with mode := .opening, data := data } ?_ ?_
  · simp [step]
  refine Reads.cons { r.inside name with mode := .endName [], data := data } ?_ ?_
  · simp [step, isInside, Reader.inside]
  refine Reads.append (reads_word depth { r.inside name with data := data } .endName
    (fun d hd seen => ?_) []) (Reads.single ?_)
  · have hd : d.isAlpha = true := hw.2 d hd
    simp [step, isDocumentChar_of_isAlpha hd, isNameChar_of_isAlpha _ hd]
  · have hsign := isNameChar_sign (c := '>') r.letters rfl
    simp only [step, Reader.inside, hsign]
    simp [closeElement?, resume, isInside]

/-- An element whose children are read, after its first bracket. -/
theorem reads_element (depth : Nat) {ms : List Markup}
    (hopen : r.isInside = false → r.rooted = false) (hrules : r.attributes = [])
    (hw : isWord name = true) (ha : attrsNamed attrs = true)
    (hv : ∀ a ∈ attrs, ∀ c ∈ a.2.toList, isDocumentChar c = true)
    (hms : ∃ brackets, Reads depth (r.inside name) (renderAll ms).toList
      { r.inside name with
        mode := .content brackets
        data := (contents ms).toList.reverse ++ r.data }) :
    ∃ cs, (element name attrs ms).render.toList = '<' :: cs ∧
      Reads depth { r with mode := .opening } cs
        ({ r with
          rooted := true
          data := (contents ms).toList.reverse ++ r.data } : Reader).resume := by
  obtain ⟨m, tag, htag, hat, hname, hinside⟩ := reads_startTag depth hopen hrules hw ha hv
  obtain ⟨brackets, hms⟩ := hms
  cases ms with
  | nil =>
    refine ⟨name.toList ++ (renderAttrs attrs).toList ++ ['/', '>'], by simp [render], ?_⟩
    refine Reads.append htag (Reads.cons { r with mode := .emptyTag tag } ?_ (Reads.single ?_))
    · rw [step_atTag hat rfl]
      simp [tagStep?]
    · have hopened : ({ r with mode := .emptyTag tag } : Reader).openElement? tag =
          some (r.inside name) := hinside
      simp only [step, emptyElement?, hopened]
      simp [closeElement?, Reader.inside, hname, resume, isInside]
  | cons m ms =>
    refine ⟨name.toList ++ (renderAttrs attrs).toList ++ ('>' :: ((renderAll (m :: ms)).toList ++
      ('<' :: '/' :: (name.toList ++ ['>'])))), by simp [render, renderAll], ?_⟩
    refine Reads.append htag (Reads.cons (r.inside name) ?_ ?_)
    · rw [step_atTag hat rfl, ← hinside]
      simp [tagStep?]
    · exact Reads.append hms (reads_endTag depth r _ _ hw)

end

/-! ## Whole pieces of markup -/

/-- Whether no text and no value of an attribute has a character that a document may not
    hold. -/
def isReadable (m : Markup) : Bool :=
  (m.texts ++ m.values).all fun s => s.toList.all isDocumentChar

/-- `isReadable` of all pieces. -/
def isReadableAll (ms : List Markup) : Bool :=
  (textsAll ms ++ valuesAll ms).all fun s => s.toList.all isDocumentChar

theorem isReadable_text (s : String) :
    (text s).isReadable = true ↔ ∀ c ∈ s.toList, isDocumentChar c = true := by
  simp [isReadable, texts, values]

theorem isReadable_element (name : String) (attrs : List (String × String)) (ms : List Markup) :
    (element name attrs ms).isReadable = true ↔
      (∀ a ∈ attrs, ∀ c ∈ a.2.toList, isDocumentChar c = true) ∧ isReadableAll ms = true := by
  simp only [isReadable, isReadableAll, texts, values, List.all_append, Bool.and_eq_true,
    List.all_map, List.all_eq_true, Function.comp_apply]
  tauto

theorem isReadableAll_cons (m : Markup) (ms : List Markup) :
    isReadableAll (m :: ms) = true ↔ m.isReadable = true ∧ isReadableAll ms = true := by
  simp only [isReadable, isReadableAll, textsAll, valuesAll, List.all_append, Bool.and_eq_true]
  tauto

mutual

/-- **Reading a piece of markup as it is written gives its text as character data.** -/
theorem reads_render (depth : Nat) : ∀ (m : Markup) (r : Reader) (brackets : Nat),
    r.attributes = [] → r.rooted = true → r.isInside = true → m.wellNamed = true →
    m.isReadable = true → ∃ brackets', Reads depth { r with mode := .content brackets }
      m.render.toList { r with
        mode := .content brackets'
        data := m.content.toList.reverse ++ r.data }
  | .text s, r, brackets, _, _, _, _, hr => by
    simpa [render, escapeText] using
      reads_escapeText depth r brackets ((isReadable_text s).1 hr)
  | .element name attrs ms, r, brackets, hrules, hrooted, hinside, hn, hr => by
    rw [wellNamed, Bool.and_eq_true, Bool.and_eq_true] at hn
    obtain ⟨⟨hw, ha⟩, hns⟩ := hn
    obtain ⟨hv, hrs⟩ := (isReadable_element name attrs ms).1 hr
    have hms := reads_renderAll depth ms (r.inside name) 0 hrules rfl rfl hns hrs
    obtain ⟨cs, hcs, hreads⟩ := reads_element depth (r := r) (by simp [hinside]) hrules hw ha hv hms
    refine ⟨0, ?_⟩
    rw [hcs]
    refine Reads.cons { r with mode := .opening } ?_ ?_
    · simp [step]
    · have hresume : ({ r with
          rooted := true
          data := (contents ms).toList.reverse ++ r.data } : Reader).resume = { r with
          mode := .content 0
          data := (element name attrs ms).content.toList.reverse ++ r.data } := by
        have hin : ({ r with
          rooted := true
          data := (contents ms).toList.reverse ++ r.data } : Reader).isInside = true := hinside
        rw [resume, if_pos hin, content_element, ← hrooted]
      rwa [hresume] at hreads

theorem reads_renderAll (depth : Nat) : ∀ (ms : List Markup) (r : Reader) (brackets : Nat),
    r.attributes = [] → r.rooted = true → r.isInside = true → wellNamedAll ms = true →
    isReadableAll ms = true → ∃ brackets', Reads depth { r with mode := .content brackets }
      (renderAll ms).toList { r with
        mode := .content brackets'
        data := (contents ms).toList.reverse ++ r.data }
  | [], r, brackets, _, _, _, _, _ => ⟨brackets, by simpa [renderAll] using Reads.nil depth _⟩
  | m :: ms, r, brackets, hrules, hrooted, hinside, hn, hr => by
    rw [wellNamedAll, Bool.and_eq_true] at hn
    obtain ⟨hrm, hrs⟩ := (isReadableAll_cons m ms).1 hr
    obtain ⟨b₁, h₁⟩ := reads_render depth m r brackets hrules hrooted hinside hn.1 hrm
    obtain ⟨b₂, h₂⟩ := reads_renderAll depth ms
      { r with data := m.content.toList.reverse ++ r.data } b₁ hrules hrooted hinside hn.2 hrs
    refine ⟨b₂, ?_⟩
    rw [renderAll, String.toList_append]
    simpa using Reads.append h₁ h₂

end

/-- A document of one element, as it is written. -/
theorem reads_root (depth size : Nat) {name : String} {attrs : List (String × String)}
    {ms : List Markup} (hn : (element name attrs ms).wellNamed = true)
    (hr : (element name attrs ms).isReadable = true) :
    Reads depth (.start .standard false size) (element name attrs ms).render.toList
      { Reader.start .standard false size with
        rooted := true
        data := (contents ms).toList.reverse } := by
  rw [wellNamed, Bool.and_eq_true, Bool.and_eq_true] at hn
  obtain ⟨⟨hw, ha⟩, hns⟩ := hn
  obtain ⟨hv, hrs⟩ := (isReadable_element name attrs ms).1 hr
  have hms := reads_renderAll depth ms ((start .standard false size).inside name) 0 rfl rfl rfl
    hns hrs
  obtain ⟨cs, hcs, hreads⟩ := reads_element depth (r := start .standard false size)
    (fun _ => rfl) rfl hw ha hv hms
  rw [hcs]
  refine Reads.cons { start .standard false size with mode := .opening } ?_ ?_
  · simp [step, start]
  · simpa [resume, isInside, start] using hreads

end SourceScribe.Markup
