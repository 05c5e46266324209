/-
  The notation of grammars.

  A definition has a category, constructors with fields, and perhaps attributes.  Its written
  form is a list of texts, names and marks, that may stand on one line or on many with any
  white space between them (`Definition.Laid`); only the name of the category and the equals
  sign after it stay on one line.

  The texts of a definition are solid, and no two names stand side by side
  (`Definition.parted`), so the keyword `attributes` can only be found where it was written.
-/
import Mathlib.Data.List.Infix
import SourceScribe.Asdl.Basic
import SourceScribe.Proofs.Text.Trail

namespace SourceScribe.Asdl

open Text (IsGap Trail Solid Parted isBlank isLineBoundary forall_mem_of_all mem_intercalate)

/-! ## Definitions -/

/-- A constructor: a type with its fields.  The only constructor of a category may have no
    name of its own. -/
structure Constructor where
  name : Option String
  fields : List Field
deriving DecidableEq

/-- A definition of a category. -/
structure Definition where
  category : String
  constructors : List Constructor
  attributes : List Field

/-- The characters that have a meaning of their own. -/
def marks : List Char := ['\x7b', '\x7d', '=', '|', '(', ')', ',', '*', '?']

/-- The word before a list of attributes. -/
def keyword : List Char := ['a', 't', 't', 'r', 'i', 'b', 'u', 't', 'e', 's']

/-- A name has no white space and no marks, and the keyword is not in it. -/
def IsName (s : String) : Prop :=
  s.toList ≠ [] ∧ (∀ c ∈ s.toList, isBlank c = false ∧ c ∉ marks) ∧ ¬ keyword <:+: s.toList

instance (s : String) : Decidable (IsName s) :=
  have := List.decidableBAll (fun c => isBlank c = false ∧ c ∉ marks) s.toList
  inferInstanceAs (Decidable (_ ∧ _ ∧ _))

/-- A field has names for itself and for its category, and a known qualifier. -/
def Field.IsSound (f : Field) : Prop :=
  IsName f.name ∧ IsName f.category ∧ f.qualifier ∈ ["", "*", "?"]

instance (f : Field) : Decidable f.IsSound := inferInstanceAs (Decidable (_ ∧ _ ∧ _))

/-- A constructor has a name, or fields and no other constructor beside it; its fields have
    different names. -/
def Constructor.IsSound (alone : Bool) (c : Constructor) : Prop :=
  (match c.name with
    | some name => IsName name
    | none => alone = true ∧ c.fields ≠ []) ∧
  (∀ f ∈ c.fields, f.IsSound) ∧ (c.fields.map (·.name)).Nodup

instance (alone : Bool) (c : Constructor) : Decidable (c.IsSound alone) :=
  match h : c.name with
  | some _ => decidable_of_iff (_ ∧ _) (by rw [Constructor.IsSound, h])
  | none => decidable_of_iff ((_ ∧ _) ∧ _) (by rw [Constructor.IsSound, h])

/-- A definition has a name for its category, and at least one constructor. -/
def Definition.IsSound (d : Definition) : Prop :=
  IsName d.category ∧ d.constructors ≠ [] ∧
  (∀ c ∈ d.constructors, c.IsSound (d.constructors.length = 1)) ∧ ∀ f ∈ d.attributes, f.IsSound

instance (d : Definition) : Decidable d.IsSound := inferInstanceAs (Decidable (_ ∧ _ ∧ _ ∧ _))

/-! ## Their written form -/

/-- A field: its category, the qualifier, a blank and its name. -/
def Field.text (f : Field) : String := f.category ++ f.qualifier ++ " " ++ f.name

/-- Fields between commas in parentheses. -/
def listTexts (fields : List Field) : List (List Char) :=
  ['('] :: ([[',']].intercalate (fields.map fun f => [f.text.toList]) ++ [[')']])

/-- A constructor: its name and its fields, if it has them. -/
def Constructor.texts (c : Constructor) : List (List Char) :=
  c.name.toList.map String.toList ++ if c.fields = [] then [] else listTexts c.fields

/-- Constructors between bars. -/
def Definition.sumTexts (d : Definition) : List (List Char) :=
  [['|']].intercalate (d.constructors.map (·.texts))

/-- The attributes after their keyword, if there are any. -/
def Definition.attributeTexts (d : Definition) : List (List Char) :=
  if d.attributes = [] then [] else keyword :: listTexts d.attributes

/-- `cs` is a layout of a definition: the category with the equals sign, then all the rest. -/
def Definition.Laid (d : Definition) (cs : List Char) : Prop :=
  ∃ gap, IsGap gap ∧ (∀ c ∈ gap, isLineBoundary c = false) ∧
    Trail ((d.category.toList ++ gap ++ ['=']) :: (d.sumTexts ++ d.attributeTexts)) cs

/-! ## The texts are solid and parted -/

/-- A text that stands by itself, without the keyword in it. -/
def Fit (w : List Char) : Prop := Solid w ∧ ¬ keyword <:+: w

theorem not_isLineBoundary {c : Char} (h : isBlank c = false) : isLineBoundary c = false := by
  cases hc : isLineBoundary c
  · rfl
  · exact absurd (Text.isBlank_of_isLineBoundary hc) (by rw [h]; exact Bool.false_ne_true)

theorem solid_of_not_isBlank {w : List Char} (hne : w ≠ []) (h : ∀ c ∈ w, isBlank c = false) :
    Solid w where
  nonempty := hne
  head c hc := h c (List.mem_of_mem_head? hc)
  last c hc := h c (List.mem_of_getLast? hc)
  unbroken c hc := not_isLineBoundary (h c hc)

theorem fit_mark {c : Char} (hc : isBlank c = false) : Fit [c] := by
  refine ⟨solid_of_not_isBlank (List.cons_ne_nil _ _) (List.forall_mem_singleton.2 hc), fun h => ?_⟩
  have hlength : 10 ≤ 1 := h.length_le
  omega

theorem IsName.fit {s : String} (h : IsName s) : Fit s.toList :=
  ⟨solid_of_not_isBlank h.1 fun c hc => (h.2.1 c hc).1, h.2.2⟩

theorem Field.toList_text (f : Field) :
    f.text.toList = (f.category.toList ++ f.qualifier.toList) ++ ([' '] ++ f.name.toList) := by
  simp [text]

/-- A category with its qualifier. -/
theorem Field.IsSound.fit_category {f : Field} (h : f.IsSound) :
    Fit (f.category.toList ++ f.qualifier.toList) ∧
      ' ' ∉ f.category.toList ++ f.qualifier.toList := by
  obtain ⟨_, hcategory, hqualifier⟩ := h
  have hmarks : ∀ c ∈ f.qualifier.toList, isBlank c = false ∧ c ∉ keyword := by
    simp only [List.mem_cons, List.not_mem_nil, or_false] at hqualifier
    rcases hqualifier with hq | hq | hq <;> rw [hq] <;> exact forall_mem_of_all (by decide)
  have hblank : ∀ c ∈ f.category.toList ++ f.qualifier.toList, isBlank c = false := fun c hc =>
    (List.mem_append.1 hc).elim (fun hc => (hcategory.2.1 c hc).1) fun hc => (hmarks c hc).1
  have hkey : ¬ keyword <:+: f.qualifier.toList := fun hi =>
    (hmarks 'a' (hi.subset (by decide))).2 (by decide)
  refine ⟨⟨solid_of_not_isBlank (fun h => hcategory.1 (List.append_eq_nil_iff.1 h).1) hblank,
    Text.not_infix_append hcategory.2.2 hkey (.inr fun c hc => ?_)⟩, fun hc => ?_⟩
  · exact (hmarks c (List.mem_of_mem_head? hc)).2
  · exact Bool.noConfusion (hblank ' ' hc)

theorem Field.IsSound.fit {f : Field} (h : f.IsSound) : Fit f.text.toList := by
  obtain ⟨⟨hcategory, hcategoryKey⟩, _⟩ := h.fit_category
  obtain ⟨hname, hnameKey⟩ := h.1.fit
  rw [Field.toList_text]
  generalize f.category.toList ++ f.qualifier.toList = xs at *
  generalize f.name.toList = ys at *
  refine ⟨⟨?_, ?_, ?_, ?_⟩, ?_⟩
  · simp
  · cases xs with
    | nil => exact absurd rfl hcategory.nonempty
    | cons c xs => exact hcategory.head
  · intro c hc
    rw [← List.append_assoc, List.getLast?_append_of_ne_nil _ hname.nonempty] at hc
    exact hname.last c hc
  · intro c hc
    simp only [List.mem_append, List.mem_singleton] at hc
    rcases hc with hc | rfl | hc
    · exact hcategory.unbroken c hc
    · decide
    · exact hname.unbroken c hc
  · have hblank : ¬ keyword <:+: [' '] := by decide
    exact Text.not_infix_append hcategoryKey
      (Text.not_infix_append hblank hnameKey (.inl (by simp; decide))) (.inr (by simp; decide))

/-! Marks are not the keyword's, so texts beside a mark are parted. -/

theorem parted_mark {c : Char} (hc : c ∉ keyword) (w : List Char) : Parted keyword [c] w :=
  .inl (by simpa using hc)

theorem parted_before_mark {c : Char} (hc : c ∉ keyword) (w : List Char) : Parted keyword w [c] :=
  .inr (by simpa using hc)

theorem isChain_intercalate {c : Char} (hc : c ∉ keyword) :
    ∀ {groups : List (List (List Char))}, (∀ g ∈ groups, g.IsChain (Parted keyword)) →
      ([[c]].intercalate groups).IsChain (Parted keyword)
  | [], _ => List.isChain_nil
  | [g], h => by
    rw [List.intercalate_singleton]
    exact h g List.mem_cons_self
  | g :: g' :: groups, h => by
    obtain ⟨hg, hgroups⟩ := List.forall_mem_cons.1 h
    rw [List.intercalate_cons_cons]
    refine (hg.append (List.isChain_singleton _) ?_).append (isChain_intercalate hc hgroups) ?_
    · rintro w - _ ⟨⟩
      exact parted_before_mark hc w
    · rintro _ hv w -
      simp only [List.getLast?_append, List.getLast?_singleton] at hv
      cases hv
      exact parted_mark hc w

theorem fit_listTexts {fields : List Field} (h : ∀ f ∈ fields, f.IsSound) :
    ∀ w ∈ listTexts fields, Fit w := by
  intro w hw
  simp only [listTexts, List.mem_cons, List.mem_append, List.not_mem_nil, or_false] at hw
  rcases hw with rfl | hw | rfl
  · exact fit_mark (by decide)
  · rcases mem_intercalate hw with rfl | ⟨g, hg, hw⟩
    · exact fit_mark (by decide)
    · obtain ⟨f, hf, rfl⟩ := List.mem_map.1 hg
      rw [List.mem_singleton.1 hw]
      exact (h f hf).fit
  · exact fit_mark (by decide)

theorem parted_listTexts (fields : List Field) : (listTexts fields).IsChain (Parted keyword) := by
  have hfields : ([[',']].intercalate (fields.map fun f => [f.text.toList])).IsChain
      (Parted keyword) := by
    refine isChain_intercalate (by decide) fun g hg => ?_
    obtain ⟨f, _, rfl⟩ := List.mem_map.1 hg
    exact List.isChain_singleton _
  refine List.isChain_cons.2 ⟨fun w _ => parted_mark (by decide) w, ?_⟩
  refine hfields.append (List.isChain_singleton _) ?_
  rintro w - _ ⟨⟩
  exact parted_before_mark (by decide) w

theorem Constructor.IsSound.fit {alone : Bool} {c : Constructor} (h : c.IsSound alone) :
    ∀ w ∈ c.texts, Fit w := by
  intro w hw
  obtain ⟨hname, hfields, _⟩ := h
  rcases List.mem_append.1 hw with hw | hw
  · cases hc : c.name with
    | none => rw [hc] at hw; exact absurd hw List.not_mem_nil
    | some name =>
      rw [hc] at hw hname
      rw [List.mem_singleton.1 hw]
      exact IsName.fit hname
  · split at hw
    · exact absurd hw List.not_mem_nil
    · exact fit_listTexts hfields w hw

theorem Constructor.parted (c : Constructor) : c.texts.IsChain (Parted keyword) := by
  have hlist : (if c.fields = [] then [] else listTexts c.fields).IsChain (Parted keyword) := by
    split
    · exact List.isChain_nil
    · exact parted_listTexts c.fields
  rw [texts]
  cases c.name with
  | none => exact hlist
  | some name =>
    refine List.isChain_cons.2 ⟨fun w hw => ?_, hlist⟩
    split at hw
    · cases hw
    · cases hw
      exact parted_before_mark (by decide) _

theorem Definition.IsSound.fit_sumTexts {d : Definition} (h : d.IsSound) :
    ∀ w ∈ d.sumTexts, Fit w := by
  intro w hw
  rcases mem_intercalate hw with rfl | ⟨g, hg, hw⟩
  · exact fit_mark (by decide)
  · obtain ⟨c, hc, rfl⟩ := List.mem_map.1 hg
    exact (h.2.2.1 c hc).fit w hw

theorem Definition.parted_sumTexts (d : Definition) : d.sumTexts.IsChain (Parted keyword) := by
  refine isChain_intercalate (by decide) fun g hg => ?_
  obtain ⟨c, _, rfl⟩ := List.mem_map.1 hg
  exact c.parted

theorem Definition.IsSound.solid_texts {d : Definition} (h : d.IsSound) :
    ∀ w ∈ d.sumTexts ++ d.attributeTexts, Solid w := by
  intro w hw
  rcases List.mem_append.1 hw with hw | hw
  · exact (h.fit_sumTexts w hw).1
  · rw [attributeTexts] at hw
    split at hw
    · exact absurd hw List.not_mem_nil
    · rcases List.mem_cons.1 hw with rfl | hw
      · exact solid_of_not_isBlank (by decide) (forall_mem_of_all (by decide))
      · exact (fit_listTexts h.2.2.2 w hw).1

/-- The category with the equals sign. -/
theorem Definition.IsSound.solid_left {d : Definition} (h : d.IsSound) {gap : List Char}
    (hunbroken : ∀ c ∈ gap, isLineBoundary c = false) :
    Solid (d.category.toList ++ gap ++ ['=']) := by
  obtain ⟨hcategory, _⟩ := h.1.fit
  refine ⟨by simp, fun c hc => ?_, fun c hc => ?_, fun c hc => ?_⟩
  · rw [List.append_assoc, List.head?_append_of_ne_nil _ hcategory.nonempty] at hc
    exact hcategory.head c hc
  · rw [List.getLast?_append_of_ne_nil _ (List.cons_ne_nil _ _)] at hc
    cases hc
    decide
  · simp only [List.mem_append, List.mem_singleton] at hc
    rcases hc with (hc | hc) | rfl
    · exact hcategory.unbroken c hc
    · exact hunbroken c hc
    · decide

/-! ## Marks of a definition are not in its texts -/

/-- A mark that is no qualifier is in no field. -/
theorem Field.IsSound.not_mem_text {f : Field} (hf : f.IsSound) {c : Char} (hc : c ∈ marks)
    (hstar : c ≠ '*') (hquestion : c ≠ '?') : c ∉ f.text.toList := by
  obtain ⟨hname, hcategory, hqualifier⟩ := hf
  have hq : c ∉ f.qualifier.toList := by
    simp only [List.mem_cons, List.not_mem_nil, or_false] at hqualifier
    rcases hqualifier with hq | hq | hq <;> rw [hq] <;> simp [hstar, hquestion]
  have hblank : c ≠ ' ' := by
    rintro rfl
    exact absurd hc (by decide)
  rw [Field.toList_text]
  simp only [List.mem_append, List.mem_singleton, not_or]
  exact ⟨⟨fun h => (hcategory.2.1 c h).2 hc, hq⟩, hblank, fun h => (hname.2.1 c h).2 hc⟩

theorem Constructor.IsSound.not_mem_name {alone : Bool} {c : Constructor} (hc : c.IsSound alone)
    {m : Char} (hm : m ∈ marks) : ∀ w ∈ c.name.toList.map String.toList, m ∉ w := by
  obtain ⟨hname, _⟩ := hc
  cases h : c.name with
  | none => exact nofun
  | some name =>
    rw [h] at hname
    exact List.forall_mem_singleton.2 fun hmem => (hname.2.1 m hmem).2 hm

/-- The marks that stand outside of constructors. -/
def outerMarks : List Char := ['\x7b', '\x7d', '=', '|']

theorem not_mem_listTexts {fields : List Field} (hfields : ∀ f ∈ fields, f.IsSound) :
    ∀ w ∈ listTexts fields, ∀ m ∈ outerMarks, m ∉ w := by
  intro w hw
  simp only [listTexts, List.mem_cons, List.mem_append, List.not_mem_nil, or_false] at hw
  rcases hw with rfl | hw | rfl
  · exact forall_mem_of_all (by decide)
  · rcases mem_intercalate hw with rfl | ⟨g, hg, hw⟩
    · exact forall_mem_of_all (by decide)
    · obtain ⟨f, hf, rfl⟩ := List.mem_map.1 hg
      rw [List.mem_singleton.1 hw]
      have hmarks : ∀ m ∈ outerMarks, m ∈ marks ∧ m ≠ '*' ∧ m ≠ '?' :=
        forall_mem_of_all (by decide)
      intro m hm
      obtain ⟨hm, hstar, hquestion⟩ := hmarks m hm
      exact (hfields f hf).not_mem_text hm hstar hquestion
  · exact forall_mem_of_all (by decide)

theorem Constructor.IsSound.not_mem_texts {alone : Bool} {c : Constructor} (hc : c.IsSound alone) :
    ∀ w ∈ c.texts, ∀ m ∈ outerMarks, m ∉ w := by
  intro w hw m hm
  rcases List.mem_append.1 hw with hw | hw
  · have hmarks : ∀ m ∈ outerMarks, m ∈ marks := forall_mem_of_all (by decide)
    exact hc.not_mem_name (hmarks m hm) w hw
  · split at hw
    · exact absurd hw List.not_mem_nil
    · exact not_mem_listTexts hc.2.1 w hw m hm

theorem Definition.IsSound.not_mem_texts {d : Definition} (hd : d.IsSound) :
    ∀ w ∈ d.sumTexts ++ d.attributeTexts, ∀ m ∈ outerMarks, m ≠ '|' → m ∉ w := by
  intro w hw m hm hbar
  rcases List.mem_append.1 hw with hw | hw
  · rcases mem_intercalate hw with rfl | ⟨g, hg, hw⟩
    · simpa using hbar
    · obtain ⟨c, hc, rfl⟩ := List.mem_map.1 hg
      exact (hd.2.2.1 c hc).not_mem_texts w hw m hm
  · rw [attributeTexts] at hw
    split at hw
    · exact absurd hw List.not_mem_nil
    · rcases List.mem_cons.1 hw with rfl | hw
      · have hkey : ∀ m ∈ outerMarks, m ∉ keyword := forall_mem_of_all (by decide)
        exact hkey m hm
      · exact not_mem_listTexts hd.2.2.2 w hw m hm

end SourceScribe.Asdl
