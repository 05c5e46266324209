/-
  White space in a definition.

  Two texts side by side, with white space between them, are part of a definition.  If their
  seam is at a mark (`Meets`), it does not matter how much white space there is: names, fields
  and categories are read without the white space around them.  Only attributes are kept with
  it, so they may differ by white space if the seam is in their list (`clauseOf_respaced`).
-/
import SourceScribe.Proofs.Asdl.Outline
import SourceScribe.Proofs.Text.Seam

namespace SourceScribe.Asdl

open Text (IsGap Apart isBlank stripChars splitChars ink ink_eq_nil_iff)

/-! ## Constructors -/

/-- The pieces of a list, from the text after its parenthesis. -/
def listPieces (cs : List Char) : List (List Char) :=
  splitChars [','] ((splitChars [')'] cs).headD [])

/-- The pieces of the first list in a text. -/
def fieldPieces (cs : List Char) : List (List Char) :=
  match splitChars ['('] cs with
  | _ :: inside :: _ => listPieces inside
  | _ => []

/-- The name of a constructor. -/
def nameChars (cs : List Char) : List Char := stripChars ((splitChars ['('] cs).headD [])

theorem constructorName_ofList (cs : List Char) :
    constructorName (String.ofList cs) = String.ofList (nameChars cs) := by
  rw [constructorName, before_ofList, strip_ofList]
  rfl

theorem inParentheses_ofList (cs : List Char) :
    inParentheses (String.ofList cs) = (fieldPieces cs).map String.ofList := by
  have hsplit : Text.splitOn "(" (String.ofList cs) = (splitChars ['('] cs).map String.ofList :=
    splitOn_ofList _ _
  rw [inParentheses, fieldPieces, hsplit]
  rcases splitChars ['('] cs with _ | ⟨before, _ | ⟨inside, rest⟩⟩
  · rfl
  · rfl
  · simp only [List.map_cons, before_ofList, splitOn_ofList]
    rfl

/-- Two texts of constructors that say the same. -/
structure ReadsAs (cs ds : List Char) : Prop where
  name : nameChars cs = nameChars ds
  fields : (fieldPieces cs).map stripChars = (fieldPieces ds).map stripChars

namespace ReadsAs

variable {cs ds es : List Char}

theorem refl (cs : List Char) : ReadsAs cs cs := ⟨rfl, rfl⟩

theorem symm (h : ReadsAs cs ds) : ReadsAs ds cs := ⟨h.name.symm, h.fields.symm⟩

theorem trans (h : ReadsAs cs ds) (h' : ReadsAs ds es) : ReadsAs cs es :=
  ⟨h.name.trans h'.name, h.fields.trans h'.fields⟩

end ReadsAs

/-- Fields are read without the white space around them. -/
theorem fieldsOf_congr {ps qs : List (List Char)} (h : ps.map stripChars = qs.map stripChars) :
    fieldsOf (ps.map String.ofList) = fieldsOf (qs.map String.ofList) := by
  induction ps generalizing qs with
  | nil =>
    obtain rfl : qs = [] := List.map_eq_nil_iff.1 h.symm
    rfl
  | cons p ps ih =>
    cases qs with
    | nil => cases h
    | cons q qs =>
      obtain ⟨hp, hps⟩ := List.cons.inj h
      have hfield : Field.ofText (String.ofList p) = Field.ofText (String.ofList q) := by
        rw [Field.ofText, Field.ofText, strip_ofList, strip_ofList, hp]
      rw [List.map_cons, List.map_cons, fieldsOf, fieldsOf, hfield, ih hps]

theorem ReadsAs.ofTexts {cs ds : List Char} (h : ReadsAs cs ds) (name category : String)
    (attributes : List String) :
    NodeType.ofTexts name category (inParentheses (String.ofList cs)) attributes
      = NodeType.ofTexts name category (inParentheses (String.ofList ds)) attributes := by
  rw [NodeType.ofTexts, NodeType.ofTexts, inParentheses_ofList, inParentheses_ofList,
    fieldsOf_congr h.fields]

theorem sumTypes_congr {cs ds : List (List Char)} (h : List.Forall₂ ReadsAs cs ds)
    (category : String) (attributes : List String) :
    sumTypes category attributes (cs.map String.ofList)
      = sumTypes category attributes (ds.map String.ofList) := by
  induction h with
  | nil => rfl
  | cons hc _ ih =>
    rw [List.map_cons, List.map_cons, sumTypes, sumTypes, ih, hc.ofTexts, constructorName_ofList,
      constructorName_ofList, hc.name]

/-- Constructors that say the same give the same types. -/
theorem constructorTypes_congr {cs ds : List (List Char)} (h : List.Forall₂ ReadsAs cs ds)
    (category : String) (attributes : List String) :
    constructorTypes category attributes (cs.map String.ofList)
      = constructorTypes category attributes (ds.map String.ofList) := by
  rcases h with _ | ⟨hc, _ | ⟨hc', h⟩⟩
  · rfl
  · simp only [List.map_cons, List.map_nil, constructorTypes, productType, constructorName_ofList,
      hc.name, hc.ofTexts]
  · exact sumTypes_congr (.cons hc (.cons hc' h)) category attributes

/-! ## Seams in constructors -/

/-- The seam of two parts of a constructor is at a mark, or one of them is blank.  Commas and
    closing parentheses are marks only after an opening one. -/
def Joint (us vs : List Char) : Prop :=
  IsGap us ∨ IsGap vs ∨ (ink us).getLast? = some '(' ∨ (ink vs).head? = some '(' ∨
    '(' ∈ us ∧ ((ink us).getLast? = some ',' ∨ (ink us).getLast? = some ')' ∨
      (ink vs).head? = some ',' ∨ (ink vs).head? = some ')')

/-- The end of a text after its last ink is white space. -/
theorem isGap_of_getLast? {m : Char} {us last : List Char} (hu : (ink us).getLast? = some m)
    (hlast : last <:+ us) (hm : m ∉ last) : IsGap last := by
  refine (Text.getLast?_ink_of_suffix hlast).resolve_right fun heq => hm ?_
  exact List.mem_of_mem_filter (List.mem_of_getLast? (heq.trans hu))

/-- The beginning of a text before its first ink is white space. -/
theorem isGap_of_head? {m : Char} {vs first : List Char} (hv : (ink vs).head? = some m)
    (hfirst : first <+: vs) (hm : m ∉ first) : IsGap first := by
  refine (Text.head?_ink_of_prefix hfirst).resolve_right fun heq => hm ?_
  exact List.mem_of_mem_filter (List.mem_of_mem_head? (heq.trans hv))

/-- The seam of two parts of a list in parentheses is at a mark, or one of them is blank. -/
def ListJoint (us vs : List Char) : Prop :=
  IsGap us ∨ IsGap vs ∨ (ink us).getLast? = some ',' ∨ (ink us).getLast? = some ')' ∨
    (ink vs).head? = some ',' ∨ (ink vs).head? = some ')'

section

variable {us vs : List Char}

/-- Before any parenthesis, the seam is at an end of the name. -/
theorem Joint.in_name (h : Joint us vs) (hopen : '(' ∉ us) :
    IsGap us ∨ IsGap (Text.beforeChars ['('] vs) := by
  have hfirst := Text.isPrefix_beforeChars (List.cons_ne_nil '(' []) vs
  rcases h with h | h | h | h | ⟨h, -⟩
  · exact .inl h
  · exact .inr (h.of_subset hfirst.subset)
  · exact absurd (List.mem_of_mem_filter (List.mem_of_getLast? h)) hopen
  · exact .inr (isGap_of_head? h hfirst (Text.not_mem_beforeChars '(' vs))
  · exact absurd h hopen

/-- The same seam, between the parentheses next to it. -/
theorem Joint.in_list (h : Joint us vs) :
    ListJoint (Text.afterLast '(' us) (Text.beforeChars ['('] vs) := by
  have hlast := Text.isSuffix_afterLast '(' us
  have hfirst := Text.isPrefix_beforeChars (List.cons_ne_nil '(' []) vs
  rcases Text.getLast?_ink_of_suffix hlast with hgap | hink
  · exact .inl hgap
  rcases Text.head?_ink_of_prefix hfirst with hgap | hink'
  · exact .inr (.inl hgap)
  rcases h with h | h | h | h | ⟨-, h⟩
  · exact .inl (h.of_subset hlast.subset)
  · exact .inr (.inl (h.of_subset hfirst.subset))
  · exact .inl (isGap_of_getLast? h hlast (Text.not_mem_afterLast '(' us))
  · exact .inr (.inl (isGap_of_head? h hfirst (Text.not_mem_beforeChars '(' vs)))
  · rw [ListJoint, hink, hink']
    exact .inr (.inr h)

/-- Before the list is closed, the seam is at an end of a piece. -/
theorem ListJoint.in_piece (h : ListJoint us vs) (hopen : ')' ∉ us) :
    IsGap (Text.afterLast ',' us) ∨
      IsGap (Text.beforeChars [','] (Text.beforeChars [')'] vs)) := by
  have hmore := Text.isPrefix_beforeChars (List.cons_ne_nil ')' []) vs
  have hcut := Text.not_mem_beforeChars ')' vs
  generalize Text.beforeChars [')'] vs = more at hmore hcut ⊢
  have hlast := Text.isSuffix_afterLast ',' us
  have hfirst := Text.isPrefix_beforeChars (List.cons_ne_nil ',' []) more
  rcases h with h | h | h | h | h | h
  · exact .inl (h.of_subset hlast.subset)
  · exact .inr (h.of_subset (hfirst.trans hmore).subset)
  · exact .inl (isGap_of_getLast? h hlast (Text.not_mem_afterLast ',' us))
  · exact absurd (List.mem_of_mem_filter (List.mem_of_getLast? h)) hopen
  · exact .inr (isGap_of_head? h (hfirst.trans hmore) (Text.not_mem_beforeChars ',' more))
  · exact .inr ((isGap_of_head? h hmore hcut).of_subset hfirst.subset)

end

section

variable {us vs w w' : List Char} (hw : IsGap w) (hw' : IsGap w')

include hw hw'

theorem stripChars_seam (h : IsGap us ∨ IsGap vs) :
    stripChars (us ++ (w ++ vs)) = stripChars (us ++ (w' ++ vs)) := by
  rcases h with h | h
  · rw [Text.stripChars_gap_append h, Text.stripChars_gap_append h, Text.stripChars_gap_append hw,
      Text.stripChars_gap_append hw']
  · rw [Text.stripChars_append_gap (hw.append h), Text.stripChars_append_gap (hw'.append h)]

/-- A seam in a list: the pieces are the same without the white space around them. -/
theorem listPieces_seam (h : ListJoint us vs) :
    (listPieces (us ++ (w ++ vs))).map stripChars
      = (listPieces (us ++ (w' ++ vs))).map stripChars := by
  obtain ⟨init, rest, hall, -, hsplit⟩ := Text.splitChars_mark_seam ')' us vs
  rw [listPieces, listPieces, hsplit w (hw.not_mem rfl), hsplit w' (hw'.not_mem rfl)]
  cases init with
  | cons inside init => rfl
  | nil =>
    -- the list goes on behind the seam
    have hopen := Text.not_mem_afterLast ')' us
    rw [Text.afterLast_eq_self (hall.1 rfl)] at hopen ⊢
    have hpiece := h.in_piece hopen
    generalize Text.beforeChars [')'] vs = more at hpiece ⊢
    obtain ⟨init, rest, -, -, hcomma⟩ := Text.splitChars_mark_seam ',' us more
    show (splitChars [','] (us ++ (w ++ more))).map stripChars
      = (splitChars [','] (us ++ (w' ++ more))).map stripChars
    rw [hcomma w (hw.not_mem rfl), hcomma w' (hw'.not_mem rfl), List.map_append, List.map_append,
      List.map_cons, List.map_cons, stripChars_seam hw hw' hpiece]

/-- A seam in a constructor. -/
theorem readsAs_seam (h : Joint us vs) : ReadsAs (us ++ (w ++ vs)) (us ++ (w' ++ vs)) := by
  obtain ⟨init, rest, hall, -, hsplit⟩ := Text.splitChars_mark_seam '(' us vs
  have hleft := hsplit w (hw.not_mem rfl)
  have hright := hsplit w' (hw'.not_mem rfl)
  rcases init with _ | ⟨name, _ | ⟨inside, init⟩⟩
  · -- no parenthesis yet: the seam is in the name
    have hopen := Text.not_mem_afterLast '(' us
    rw [Text.afterLast_eq_self (hall.1 rfl)] at hopen hleft hright
    refine ⟨?_, ?_⟩
    · rw [nameChars, nameChars, hleft, hright]
      exact stripChars_seam hw hw' (h.in_name hopen)
    · rw [fieldPieces, fieldPieces, hleft, hright]
      cases rest <;> rfl
  · -- the seam is in the list
    refine ⟨?_, ?_⟩
    · rw [nameChars, nameChars, hleft, hright]
      rfl
    · rw [fieldPieces, fieldPieces, hleft, hright]
      exact listPieces_seam hw hw' h.in_list
  · -- the list is before the seam
    refine ⟨?_, ?_⟩
    · rw [nameChars, nameChars, hleft, hright]
      rfl
    · rw [fieldPieces, fieldPieces, hleft, hright]
      rfl

end

/-- White space around a constructor does not matter. -/
theorem readsAs_strip (cs : List Char) : ReadsAs (stripChars cs) cs := by
  obtain ⟨gap, gap', hgap, hgap', hcs⟩ := Text.exists_gap_stripChars cs
  have hbefore : ReadsAs ([] ++ (gap ++ (stripChars cs ++ gap')))
      ([] ++ ([] ++ (stripChars cs ++ gap'))) :=
    readsAs_seam hgap Text.isGap_nil (.inl Text.isGap_nil)
  have hbehind : ReadsAs (stripChars cs ++ (gap' ++ [])) (stripChars cs ++ ([] ++ [])) :=
    readsAs_seam hgap' Text.isGap_nil (.inr (.inl Text.isGap_nil))
  rw [List.nil_append, List.nil_append, List.nil_append, ← hcs] at hbefore
  rw [List.append_nil, List.append_nil, List.append_nil] at hbehind
  exact (hbefore.trans hbehind).symm

/-! ## Seams in definitions -/

theorem forall₂_readsAs_refl (cs : List (List Char)) : List.Forall₂ ReadsAs cs cs :=
  List.forall₂_same.2 fun c _ => .refl c

/-- A seam between the equals sign and the attributes. -/
theorem clauseFrom_seam {rs ys w w' : List Char} (hw : IsGap w) (hw' : IsGap w')
    (h : Joint (Text.afterLast '|' rs) (Text.beforeChars ['|'] ys)) (category : String)
    (attributes : List String) :
    clauseFrom category (String.ofList (rs ++ (w ++ ys))) attributes
      = clauseFrom category (String.ofList (rs ++ (w' ++ ys))) attributes := by
  have htexts : ∀ cs, (Text.splitOn "|" (String.ofList cs)).map Text.strip
      = ((splitChars ['|'] cs).map stripChars).map String.ofList := by
    intro cs
    rw [splitOn_ofList, List.map_map, List.map_map]
    exact List.map_congr_left fun c _ => strip_ofList c
  obtain ⟨init, rest, -, -, hsplit⟩ := Text.splitChars_mark_seam '|' rs ys
  have hseam := ((readsAs_strip _).trans (readsAs_seam hw hw' h)).trans (readsAs_strip _).symm
  rw [clauseFrom, clauseFrom, htexts, htexts, hsplit w (hw.not_mem rfl),
    hsplit w' (hw'.not_mem rfl), constructorTypes_congr]
  rw [List.map_append, List.map_append]
  exact List.rel_append (forall₂_readsAs_refl _) (.cons hseam (forall₂_readsAs_refl _))

/-- What a text says after the equals sign. -/
def rightClause (category : String) (right : List Char) : Except Fault Clause :=
  match splitChars keyword right with
  | [sum] => clauseFrom category (String.ofList sum) []
  | [sum, list] => clauseFrom category (String.ofList sum) (inParentheses (String.ofList list))
  | _ => .error .severalAttributeLists

theorem clauseOf_ofList (cs : List Char) :
    clauseOf (String.ofList cs) = match splitChars ['='] cs with
      | [left, right] => rightClause (String.ofList (stripChars left)) right
      | _ => .error .severalEqualsSigns := by
  have hequals : Text.splitOn "=" (String.ofList cs) = (splitChars ['='] cs).map String.ofList :=
    splitOn_ofList _ _
  have hkeyword : ∀ right, Text.splitOn "attributes" (String.ofList right)
      = (splitChars keyword right).map String.ofList := splitOn_ofList "attributes"
  rw [clauseOf, hequals]
  rcases splitChars ['='] cs with _ | ⟨left, _ | ⟨right, _ | ⟨more, rest⟩⟩⟩
  · rfl
  · rfl
  · simp only [List.map_cons, List.map_nil, hkeyword, rightClause, strip_ofList]
    rcases splitChars keyword right with _ | ⟨sum, _ | ⟨list, _ | ⟨more, rest⟩⟩⟩ <;> rfl
  · rfl

/-- The open constructor at the end of a text: its ink since the last equals sign or bar. -/
def opened (cs : List Char) : List Char := ink (Text.afterLast '|' (Text.afterLast '=' cs))

/-- A text with the open constructor `xs` can be broken off before the text `ls`: their seam
    is at a mark or the keyword, or there is nothing on one side. -/
def Meets (xs ls : List Char) : Prop :=
  xs = [] ∨ ls = [] ∨ ls.head? = some '|' ∨ keyword <+: ls ∨
    xs.getLast? = some '(' ∨ ls.head? = some '(' ∨
    '(' ∈ xs ∧ (xs.getLast? = some ',' ∨ xs.getLast? = some ')' ∨
      ls.head? = some ',' ∨ ls.head? = some ')')

instance (xs ls : List Char) : Decidable (Meets xs ls) :=
  inferInstanceAs (Decidable (_ ∨ _))

theorem Meets.append {xs ls : List Char} (h : Meets xs ls) (hne : ls ≠ []) (more : List Char) :
    Meets xs (ls ++ more) := by
  have hhead : (ls ++ more).head? = ls.head? := List.head?_append_of_ne_nil ls hne
  rcases h with h | h | h | h | h
  · exact .inl h
  · exact absurd h hne
  · exact .inr (.inr (.inl (hhead.trans h)))
  · exact .inr (.inr (.inr (.inl (h.trans (List.prefix_append ls more)))))
  · rw [← hhead] at h
    exact .inr (.inr (.inr (.inr h)))

theorem isBlank_of_mem_keyword {c : Char} (hc : c ∈ keyword) : isBlank c = false := by
  have hall : ∀ c ∈ keyword, isBlank c = false := Text.forall_mem_of_all (by decide)
  exact hall c hc

/-- What is before the keyword if the text begins with it. -/
theorem isGap_beforeChars_keyword {ys : List Char} (h : keyword <+: ys.dropWhile isBlank) :
    IsGap (Text.beforeChars keyword ys) := by
  obtain ⟨rest, hrest⟩ := h
  have hgap : IsGap (ys.takeWhile isBlank) := fun c hc => List.mem_takeWhile_imp hc
  have hys : ys = ys.takeWhile isBlank ++ keyword ++ rest := by
    rw [List.append_assoc, hrest, List.takeWhile_append_dropWhile]
  have hbefore : Text.beforeChars keyword (ys.takeWhile isBlank ++ keyword ++ rest)
      = ys.takeWhile isBlank :=
    Text.beforeChars_append (hgap.not_mem (by decide)) rest
  rw [hys, hbefore]
  exact hgap

/-- Where a text can be broken off, the seam of its last constructor is at a mark. -/
theorem Meets.joint {xs ys : List Char} (h : Meets (opened xs) (ys.dropWhile isBlank)) :
    Joint (Text.afterLast '|' (Text.afterLast '=' xs))
      (Text.beforeChars ['|'] (Text.beforeChars keyword ys)) := by
  have hbar := Text.isPrefix_beforeChars (List.cons_ne_nil '|' []) (Text.beforeChars keyword ys)
  have hfirst := hbar.trans (Text.isPrefix_beforeChars (List.cons_ne_nil _ _) ys)
  rcases Text.head?_ink_of_prefix hfirst with hgap | hhead
  · exact .inr (.inl hgap)
  rw [Meets, Text.head?_dropWhile_isBlank, ← hhead] at h
  rcases h with h | h | h | h | h | h | ⟨h, h'⟩
  · exact .inl (ink_eq_nil_iff.1 h)
  · have hys : IsGap ys := List.dropWhile_eq_nil_iff.1 h
    exact .inr (.inl (hys.of_subset hfirst.subset))
  · exact .inr (.inl (isGap_of_head? (hhead ▸ h) hfirst (Text.not_mem_beforeChars '|' _)))
  · exact .inr (.inl ((isGap_beforeChars_keyword h).of_subset hbar.subset))
  · exact .inr (.inr (.inl h))
  · exact .inr (.inr (.inr (.inl h)))
  · exact .inr (.inr (.inr (.inr ⟨List.mem_of_mem_filter h, h'⟩)))

/-- The marks at which a constructor can be broken off. -/
def breakMarks : List Char := ['|', '(', ',', ')']

theorem not_mem_keyword_of_mem_breakMarks {c : Char} (hc : c ∈ breakMarks) : c ∉ keyword := by
  have hall : ∀ c ∈ breakMarks, c ∉ keyword := Text.forall_mem_of_all (by decide)
  exact hall c hc

/-- The keyword is not across a seam behind a mark. -/
theorem apart_of_getLast? {rs : List Char}
    (h : ∀ c ∈ (ink (Text.afterLast '|' rs)).getLast?, c ∈ breakMarks) (ys : List Char) :
    Apart keyword rs ys := by
  refine Text.Parted.apart (.inl fun c hc hmem => ?_)
  have hink := Text.getLast?_ink hc (isBlank_of_mem_keyword hmem)
  refine not_mem_keyword_of_mem_breakMarks ?_ hmem
  rcases Text.getLast?_ink_afterLast (show isBlank '|' = false by decide) hink with rfl | hlast
  · decide
  · exact h c hlast

/-- The keyword is not across a seam before a mark. -/
theorem apart_of_head? {ys : List Char} (h : ∀ c ∈ (ink ys).head?, c ∈ breakMarks)
    (rs : List Char) : Apart keyword rs ys := by
  refine Text.Parted.apart (.inr fun c hc hmem => ?_)
  have hink := Text.head?_ink hc (isBlank_of_mem_keyword hmem)
  exact not_mem_keyword_of_mem_breakMarks (h c hink) hmem

/-- The keyword is not across a seam before the keyword. -/
theorem apart_of_keyword {ys : List Char} (h : keyword <+: ys.dropWhile isBlank)
    (rs : List Char) : Apart keyword rs ys := by
  cases ys with
  | nil => exact absurd h (by decide)
  | cons c ys =>
    cases hc : isBlank c
    · rw [List.dropWhile_cons_of_neg (by simp [hc])] at h
      exact Text.apart_of_prefix (by decide) h
    · refine Text.Parted.apart (.inr fun d hd hmem => ?_)
      cases hd
      exact Bool.noConfusion (hc.symm.trans (isBlank_of_mem_keyword hmem))

/-- Where a text can be broken off, the keyword is not across the seam. -/
theorem Meets.apart {xs ys : List Char} (h : Meets (opened xs) (ys.dropWhile isBlank)) :
    Apart keyword (Text.afterLast '=' xs) ys := by
  have hleft : ∀ m ∈ breakMarks, (opened xs).getLast? = some m →
      Apart keyword (Text.afterLast '=' xs) ys := by
    refine fun m hm hlast => apart_of_getLast? (fun c hc => ?_) ys
    cases hlast.symm.trans hc
    exact hm
  have hright : ∀ m ∈ breakMarks, (ys.dropWhile isBlank).head? = some m →
      Apart keyword (Text.afterLast '=' xs) ys := by
    refine fun m hm hhead => apart_of_head? (fun c hc => ?_) _
    rw [Text.head?_dropWhile_isBlank] at hhead
    cases hhead.symm.trans hc
    exact hm
  rcases h with h | h | h | h | h | h | ⟨-, h | h | h | h⟩
  · refine apart_of_getLast? (fun c hc => ?_) ys
    cases (congrArg List.getLast? h).symm.trans hc
  · have hys : IsGap ys := List.dropWhile_eq_nil_iff.1 h
    refine apart_of_head? (fun c hc => ?_) _
    rw [ink_eq_nil_iff.2 hys] at hc
    cases hc
  · exact hright _ (by decide) h
  · exact apart_of_keyword h _
  · exact hleft _ (by decide) h
  · exact hright _ (by decide) h
  · exact hleft _ (by decide) h
  · exact hleft _ (by decide) h
  · exact hright _ (by decide) h
  · exact hright _ (by decide) h

/-! ## Attributes -/

/-- A text without its white space. -/
def looseText (s : String) : String := String.ofList (ink s.toList)

/-- A type with the white space taken out of its attributes. -/
def NodeType.loose (t : NodeType) : NodeType :=
  { t with attributes := t.attributes.map looseText }

/-- A clause with the white space taken out of the attributes. -/
def Clause.loose (c : Clause) : Clause := { c with types := c.types.map NodeType.loose }

theorem loose_ofTexts (name category : String) (fields attributes : List String) :
    (NodeType.ofTexts name category fields attributes).map NodeType.loose
      = NodeType.ofTexts name category fields (attributes.map looseText) := by
  rw [NodeType.ofTexts, NodeType.ofTexts]
  cases fieldsOf fields <;> rfl

theorem loose_sumTypes (category : String) (attributes cs : List String) :
    (sumTypes category attributes cs).map (List.map NodeType.loose)
      = sumTypes category (attributes.map looseText) cs := by
  induction cs with
  | nil => rfl
  | cons c cs ih =>
    rw [sumTypes, sumTypes, ← ih, ← loose_ofTexts]
    cases NodeType.ofTexts (constructorName c) category (inParentheses c) attributes with
    | error f => rfl
    | ok t => cases sumTypes category attributes cs <;> rfl

theorem loose_constructorTypes (category : String) (attributes cs : List String) :
    (constructorTypes category attributes cs).map (List.map NodeType.loose)
      = constructorTypes category (attributes.map looseText) cs := by
  rcases cs with _ | ⟨c, _ | ⟨c', cs⟩⟩
  · rfl
  · rw [constructorTypes, constructorTypes, productType, productType, ← loose_ofTexts]
    cases NodeType.ofTexts (if constructorName c = "" then category else constructorName c)
      category (inParentheses c) attributes <;> rfl
  · exact loose_sumTypes category attributes _

theorem loose_clauseFrom (category sum : String) (attributes : List String) :
    (clauseFrom category sum attributes).map Clause.loose
      = clauseFrom category sum (attributes.map looseText) := by
  rw [clauseFrom, clauseFrom, ← loose_constructorTypes]
  cases constructorTypes category attributes ((Text.splitOn "|" sum).map Text.strip) <;> rfl

theorem listPieces_ink (cs : List Char) : listPieces (ink cs) = (listPieces cs).map ink := by
  rw [listPieces, listPieces, ← Text.splitChars_ink (by decide), Text.splitChars_ink (by decide)]
  cases splitChars [')'] cs <;> rfl

theorem fieldPieces_ink (cs : List Char) : fieldPieces (ink cs) = (fieldPieces cs).map ink := by
  rw [fieldPieces, fieldPieces, Text.splitChars_ink (by decide)]
  rcases splitChars ['('] cs with _ | ⟨before, _ | ⟨inside, rest⟩⟩
  · rfl
  · rfl
  · exact listPieces_ink inside

/-- The attributes of two texts with the same ink differ by white space only. -/
theorem map_looseText_inParentheses {cs ds : List Char} (h : ink cs = ink ds) :
    (inParentheses (String.ofList cs)).map looseText
      = (inParentheses (String.ofList ds)).map looseText := by
  have hink : ∀ cs, (inParentheses (String.ofList cs)).map looseText
      = (fieldPieces (ink cs)).map String.ofList := by
    intro cs
    rw [inParentheses_ofList, fieldPieces_ink, List.map_map, List.map_map]
    refine List.map_congr_left fun p _ => ?_
    rw [Function.comp, looseText, String.toList_ofList]
    rfl
  rw [hink, hink, h]

/-! ## Definitions -/

/-- White space before a definition does not matter. -/
theorem clauseOf_gap_append {gap : List Char} (hgap : IsGap gap) (ys : List Char) :
    clauseOf (String.ofList (gap ++ ys)) = clauseOf (String.ofList ys) := by
  have hequals : ∀ c ∈ gap, c ∉ ['='] := by
    rintro c hc hmem
    exact hgap.not_mem rfl (List.mem_singleton.1 hmem ▸ hc)
  have hsplitGap := Text.splitChars_of_not_mem (List.cons_ne_nil '=' []) hequals
  obtain ⟨init, last, left, rest, hinit, hys, hboth⟩ :=
    Text.splitChars_append_of_apart (List.cons_ne_nil '=' []) (Text.apart_singleton '=' gap ys)
  obtain ⟨rfl, hlast⟩ :=
    List.append_inj' (show [] ++ [gap] = init ++ [last] from hsplitGap.symm.trans hinit) rfl
  cases hlast
  rw [clauseOf_ofList, clauseOf_ofList, hboth, hys, List.nil_append]
  rcases rest with _ | ⟨right, _ | ⟨more, rest⟩⟩
  · rfl
  · simp only [Text.stripChars_gap_append hgap]
  · rfl

theorem keyword_ne_nil : keyword ≠ [] := by decide

/-- A text with white space at a seam, split at the keyword. -/
theorem splitChars_keyword_seam {rs ys : List Char} (h : Apart keyword rs ys) :
    ∃ init last rest, splitChars keyword rs = init ++ [last] ∧
      ∀ w, IsGap w → splitChars keyword (rs ++ (w ++ ys))
        = init ++ (last ++ (w ++ Text.beforeChars keyword ys)) :: rest := by
  obtain ⟨init, last, first, rest, hrs, hys, hsplit⟩ := Text.splitChars_seam keyword_ne_nil h
  obtain ⟨rest', hys'⟩ := Text.exists_splitChars_cons keyword ys
  cases hys.symm.trans hys'
  refine ⟨init, last, rest, hrs, fun w hw => hsplit w fun c hc hmem => ?_⟩
  exact Bool.noConfusion ((hw c hc).symm.trans (isBlank_of_mem_keyword hmem))

section

variable {rs ys w w' : List Char} (hw : IsGap w) (hw' : IsGap w') (hapart : Apart keyword rs ys)
  (hjoint : Joint (Text.afterLast '|' rs) (Text.beforeChars ['|'] (Text.beforeChars keyword ys)))

include hw hw' hapart hjoint

/-- A seam before the attributes. -/
theorem rightClause_seam (hfree : splitChars keyword rs = [rs]) (category : String) :
    rightClause category (rs ++ (w ++ ys)) = rightClause category (rs ++ (w' ++ ys)) := by
  obtain ⟨init, last, rest, hrs, hsplit⟩ := splitChars_keyword_seam hapart
  obtain ⟨rfl, hlast⟩ :=
    List.append_inj' (show [] ++ [rs] = init ++ [last] from hfree.symm.trans hrs) rfl
  cases hlast
  rw [rightClause, rightClause, hsplit w hw, hsplit w' hw']
  rcases rest with _ | ⟨list, _ | ⟨more, rest⟩⟩
  · exact clauseFrom_seam hw hw' hjoint category []
  · exact clauseFrom_seam hw hw' hjoint category _
  · rfl

/-- A seam anywhere: the attributes may differ by white space. -/
theorem loose_rightClause_seam (category : String) :
    (rightClause category (rs ++ (w ++ ys))).map Clause.loose
      = (rightClause category (rs ++ (w' ++ ys))).map Clause.loose := by
  obtain ⟨init, last, rest, hrs, hsplit⟩ := splitChars_keyword_seam hapart
  cases init with
  | nil =>
    obtain rfl := Text.eq_of_splitChars keyword_ne_nil hrs
    rw [rightClause_seam hw hw' hapart hjoint hrs]
  | cons sum init =>
    rw [rightClause, rightClause, hsplit w hw, hsplit w' hw']
    cases init with
    | cons list init => cases init <;> rfl
    | nil =>
      cases rest with
      | cons list rest => rfl
      | nil =>
        have hink : ink (last ++ (w ++ Text.beforeChars keyword ys))
            = ink (last ++ (w' ++ Text.beforeChars keyword ys)) := by
          simp only [Text.ink_append, ink_eq_nil_iff.2 hw, ink_eq_nil_iff.2 hw']
        exact (loose_clauseFrom _ _ _).trans ((congrArg _ (map_looseText_inParentheses hink)).trans
          (loose_clauseFrom _ _ _).symm)

end

/-- **White space at a mark does not matter.**  A definition in which there is other white
    space at a place where it can be broken off says the same, but for white space in its
    attributes; and if its attributes are not before that place, it says the same at all. -/
theorem clauseOf_respaced {xs ys w w' : List Char} (hw : IsGap w) (hw' : IsGap w')
    (hequals : '=' ∈ xs) (h : Meets (opened xs) (ys.dropWhile isBlank)) :
    (clauseOf (String.ofList (xs ++ (w ++ ys)))).map Clause.loose
        = (clauseOf (String.ofList (xs ++ (w' ++ ys)))).map Clause.loose ∧
      (¬ keyword <:+: Text.afterLast '=' xs → clauseOf (String.ofList (xs ++ (w ++ ys)))
        = clauseOf (String.ofList (xs ++ (w' ++ ys)))) := by
  obtain ⟨init, rest, hall, hmore, hsplit⟩ := Text.splitChars_mark_seam '=' xs ys
  rw [clauseOf_ofList, clauseOf_ofList, hsplit w (hw.not_mem rfl), hsplit w' (hw'.not_mem rfl)]
  rcases init with _ | ⟨left, _ | ⟨more, init⟩⟩
  · exact absurd hequals (hall.1 rfl)
  · cases rest with
    | cons more rest => exact ⟨rfl, fun _ => rfl⟩
    | nil =>
      rw [Text.beforeChars_eq_self (hmore.1 rfl)]
      refine ⟨loose_rightClause_seam hw hw' h.apart h.joint _, fun hfree => ?_⟩
      exact rightClause_seam hw hw' h.apart h.joint (Text.splitChars_eq_singleton hfree) _
  · cases init <;> exact ⟨rfl, fun _ => rfl⟩

end SourceScribe.Asdl
