/-
  Names on the page of a grammar.

  A page has two columns of groups, and a group has boxes of types (`Group`, `pageText`).  The
  name of a type is in a box of its own inside that of the type (`nameBox`).

  `shows_pageText`: the box of the name of every type in the groups is on the page.
  `boxes_pageText`: if no text of the groups has a `<` in it, the box of a name begins on the
  page as often as the name is among those of the types in the groups; what stands between is
  calm (`IsCalm`), so no box begins there.
-/
import Mathlib.Data.List.Infix
import SourceScribe.Asdl.Page

namespace SourceScribe.Asdl

/-! ## Occurrences -/

/-- How often a word begins in a text. -/
def occurrences (word : List Char) : List Char → Nat
  | [] => 0
  | c :: cs => (if word <+: c :: cs then 1 else 0) + occurrences word cs

section
variable {word text : List Char}

theorem exists_split (h : 0 < occurrences word text) :
    ∃ before after, text = before ++ word ++ after := by
  induction text with
  | nil => cases h
  | cons c cs ih =>
    by_cases hhere : word <+: c :: cs
    · obtain ⟨after, hafter⟩ := hhere
      exact ⟨[], after, hafter.symm⟩
    · rw [occurrences, if_neg hhere, Nat.zero_add] at h
      obtain ⟨before, after, rfl⟩ := ih h
      exact ⟨c :: before, after, rfl⟩

theorem occurrences_pos (hword : word ≠ []) (before after : List Char) :
    0 < occurrences word (before ++ word ++ after) := by
  induction before with
  | nil =>
    obtain ⟨c, cs, rfl⟩ := List.exists_cons_of_ne_nil hword
    have hhere : c :: cs <+: c :: (cs ++ after) := List.prefix_append (c :: cs) after
    rw [List.nil_append, List.cons_append, occurrences, if_pos hhere]
    omega
  | cons c before ih =>
    rw [List.cons_append, List.cons_append, occurrences]
    omega

/-- A word that begins a text and begins later in it again. -/
theorem one_lt_occurrences (hword : word ≠ []) {c : Char} {cs before after : List Char}
    (hhere : word <+: c :: cs) (hlater : cs = before ++ word ++ after) :
    1 < occurrences word (c :: cs) := by
  have hpos := occurrences_pos hword before after
  rw [occurrences, if_pos hhere, hlater]
  omega

/-- A word that begins only once splits a text in one way. -/
theorem split_unique (hword : word ≠ []) (hone : occurrences word text ≤ 1)
    {before before' after after' : List Char} (h : text = before ++ word ++ after)
    (h' : text = before' ++ word ++ after') : before = before' := by
  induction text generalizing before before' with
  | nil => simp_all
  | cons c cs ih =>
    cases before with
    | nil =>
      cases before' with
      | nil => rfl
      | cons c' before' =>
        have htwice := one_lt_occurrences hword ⟨after, h.symm⟩ (List.cons.inj h').2
        omega
    | cons d before =>
      cases before' with
      | nil =>
        have htwice := one_lt_occurrences hword ⟨after', h'.symm⟩ (List.cons.inj h).2
        omega
      | cons d' before' =>
        obtain ⟨rfl, hcs⟩ := List.cons.inj h
        obtain ⟨rfl, hcs'⟩ := List.cons.inj h'
        rw [occurrences] at hone
        rw [ih (by omega) hcs hcs']

end

theorem existsUnique_split {word text : String} (hword : word ≠ "")
    (hone : occurrences word.toList text.toList = 1) :
    ∃! split : String × String, text = split.1 ++ word ++ split.2 := by
  have hne : word.toList ≠ [] := fun h => hword (String.toList_inj.1 h)
  have hpos : 0 < occurrences word.toList text.toList := by omega
  obtain ⟨before, after, htext⟩ := exists_split hpos
  refine ⟨(String.ofList before, String.ofList after), ?_, ?_⟩
  · show text = String.ofList before ++ word ++ String.ofList after
    rw [← String.toList_inj]
    simpa using htext
  · rintro ⟨before', after'⟩ h
    have htext' : text.toList = before'.toList ++ word.toList ++ after'.toList := by
      rw [h]
      simp
    have hbefore := split_unique hne hone.le htext' htext
    rw [hbefore] at htext'
    have hafter := List.append_cancel_left (htext'.symm.trans htext)
    rw [Prod.mk.injEq, ← String.toList_inj, ← String.toList_inj, hbefore, hafter]
    simp

/-! ## Texts between the boxes -/

/-- A name in a box of its own. -/
def nameBox (name : String) : String := "<div>" ++ name ++ "</div>"

/-- No box of a name begins in the text, whatever comes after it. -/
def isCalm : List Char → Bool
  | [] => true
  -- all of the tag has to be in the text, or what comes after could make it that of a box
  | c :: cs => (c ≠ '<' || 4 ≤ cs.length && cs.take 4 ≠ ['d', 'i', 'v', '>']) && isCalm cs

theorem isCalm_of_not_mem {cs : List Char} (h : '<' ∉ cs) : isCalm cs = true := by
  induction cs with
  | nil => rfl
  | cons c cs ih =>
    rw [List.mem_cons, not_or] at h
    simp [isCalm, Ne.symm h.1, ih h.2]

theorem isCalm_append {cs ds : List Char} (hcs : isCalm cs = true) (hds : isCalm ds = true) :
    isCalm (cs ++ ds) = true := by
  induction cs with
  | nil => exact hds
  | cons c cs ih =>
    rw [isCalm, Bool.and_eq_true] at hcs
    rw [List.cons_append, isCalm, ih hcs.2, Bool.and_true]
    simp only [Bool.or_eq_true, Bool.and_eq_true, decide_eq_true_eq] at hcs ⊢
    refine hcs.1.imp_right fun ⟨hlong, hnot⟩ => ⟨by simp; omega, ?_⟩
    rwa [List.take_append_of_le_length hlong]

/-- A text in which no box of a name begins. -/
def IsCalm (s : String) : Prop := isCalm s.toList = true

instance (s : String) : Decidable (IsCalm s) := inferInstanceAs (Decidable (_ = true))

namespace IsCalm

variable {s t : String}

theorem of_not_mem (h : '<' ∉ s.toList) : IsCalm s := isCalm_of_not_mem h

theorem append (hs : IsCalm s) (ht : IsCalm t) : IsCalm (s ++ t) := by
  rw [IsCalm, String.toList_append]
  exact isCalm_append hs ht

theorem join {texts : List String} (h : ∀ s ∈ texts, IsCalm s) : IsCalm (String.join texts) := by
  induction texts with
  | nil => rfl
  | cons s texts ih =>
    rw [String.join_cons]
    exact (h s List.mem_cons_self).append (ih fun t ht => h t (List.mem_cons_of_mem s ht))

end IsCalm

/-- How often the box of a name begins in a text. -/
def boxes (name s : String) : Nat := occurrences (nameBox name).toList s.toList

section
variable {name s t : String}

theorem toList_nameBox (name : String) :
    (nameBox name).toList = ['<', 'd', 'i', 'v', '>'] ++ name.toList ++ "</div>".toList := by
  rw [nameBox, String.toList_append, String.toList_append]
  rfl

theorem existsUnique_nameBox {text : String} (h : boxes name text = 1) :
    ∃! split : String × String, text = split.1 ++ nameBox name ++ split.2 := by
  refine existsUnique_split ?_ h
  intro hempty
  have hchars := toList_nameBox name
  rw [hempty] at hchars
  cases hchars

theorem boxes_append (h : IsCalm s) (t : String) : boxes name (s ++ t) = boxes name t := by
  rw [IsCalm] at h
  rw [boxes, boxes, String.toList_append]
  generalize s.toList = cs at h
  induction cs with
  | nil => rfl
  | cons c cs ih =>
    rw [isCalm, Bool.and_eq_true] at h
    have hnot : ¬ (nameBox name).toList <+: c :: (cs ++ t.toList) := by
      rw [toList_nameBox]
      rintro ⟨more, hmore⟩
      obtain ⟨rfl, hcs⟩ := List.cons.inj hmore
      simp only [ne_eq, not_true_eq_false, decide_false, Bool.false_or, Bool.and_eq_true,
        decide_eq_true_eq] at h
      have htake : (cs ++ t.toList).take 4 = cs.take 4 := List.take_append_of_le_length h.1.1
      refine h.1.2 ?_
      rw [← htake, ← hcs]
      rfl
    rw [List.cons_append, occurrences, if_neg hnot, ih h.2, Nat.zero_add]

/-- Names without a `<` in them are told apart by their boxes. -/
theorem nameBox_prefix_iff {m : String} {rest : List Char} (hname : '<' ∉ name.toList)
    (hm : '<' ∉ m.toList) :
    (nameBox name).toList <+: (nameBox m).toList ++ rest ↔ m = name := by
  constructor
  · rintro ⟨more, h⟩
    rw [toList_nameBox, toList_nameBox] at h
    simp only [List.append_assoc, List.append_cancel_left_eq] at h
    have hbefore : ∀ cs more : List Char, '<' ∉ cs →
        (cs ++ ("</div>".toList ++ more)).takeWhile (· ≠ '<') = cs := by
      intro cs more hcs
      rw [List.takeWhile_append_of_pos fun c hc => by simpa using fun (h : c = '<') => hcs (h ▸ hc)]
      simp
    rw [← String.toList_inj, ← hbefore m.toList rest hm, ← h, hbefore name.toList more hname]
  · rintro rfl
    exact List.prefix_append _ _

theorem boxes_nameBox {m : String} (hname : '<' ∉ name.toList) (hm : '<' ∉ m.toList)
    (t : String) : boxes name (nameBox m ++ t) = (if m = name then 1 else 0) + boxes name t := by
  have htail : boxes name ("div>" ++ m ++ "</div>" ++ t) = boxes name t := by
    refine boxes_append (IsCalm.append (.of_not_mem ?_) (by decide)) t
    rw [String.toList_append, List.mem_append, not_or]
    exact ⟨by decide, hm⟩
  have hsplit : (nameBox m ++ t).toList = '<' :: ("div>" ++ m ++ "</div>" ++ t).toList := by
    simp [nameBox]
  rw [← htail, boxes, hsplit, occurrences, ← hsplit, String.toList_append, boxes]
  simp only [nameBox_prefix_iff hname hm]

/-- The box around the types of a group has the same tag, but goes on with a line break. -/
theorem boxes_wrapper (hname : ¬ "\n ".toList <+: name.toList) (t : String) :
    boxes name ("<div>\n " ++ t) = boxes name t := by
  have hnot : ¬ (nameBox name).toList <+: ("<div>\n " ++ t).toList := by
    rw [toList_nameBox, String.toList_append]
    rintro ⟨more, h⟩
    simp only [List.append_assoc, List.cons_append, List.nil_append, String.reduceToList,
      List.cons.injEq, true_and] at h
    rcases hcs : name.toList with _ | ⟨c, _ | ⟨d, cs⟩⟩
    · simp [hcs] at h
    · simp [hcs] at h
    · simp only [hcs, List.cons_append, List.cons.injEq] at h
      exact hname ⟨cs, by rw [hcs, h.1, h.2.1]; rfl⟩
  have htail : boxes name ("div>\n " ++ t) = boxes name t := boxes_append (by decide) t
  have hsplit : ("<div>\n " ++ t).toList = '<' :: ("div>\n " ++ t).toList := by simp
  rw [← htail, boxes, hsplit, occurrences, ← hsplit, if_neg hnot, Nat.zero_add, boxes]

end

/-! ## Groups on the page -/

/-- A group as it is shown. -/
structure Group where
  heading : String
  types : List NodeType

/-- The box of a group. -/
def Group.text (group : Group) : String :=
  "          " ++ "          <div class=\"category " ++ group.heading ++ "\"><span>"
    ++ group.heading ++ "</span><div>\n            "
    ++ String.join (group.types.map fun t => "            " ++ typeBox t ++ "\n            ")
    ++ "          </div></div>\n        "

/-- A column of groups. -/
def columnText (number : Nat) (groups : List Group) : String :=
  "      <div class=\"col" ++ toString number ++ "\">\n        "
    ++ String.join (groups.map Group.text) ++ "      </div>\n    "

/-- A page with its style rules and its two columns. -/
def pageText (rules : List (String × String)) (left right : List Group) : String :=
  pageHead ++ String.join ((Entries.sortByName rules).map ruleLine)
    ++ "    </style>\n  </head>\n\n\n  <body>\n    " ++ columnText 1 left ++ columnText 2 right
    ++ "  </body>\n</html>"

/-! ## Names shown -/

/-- The name is in a box of its own in the text. -/
def Shows (text name : String) : Prop := ∃ before after, text = before ++ nameBox name ++ after

namespace Shows

variable {s t name : String}

theorem append_left (h : Shows t name) (s : String) : Shows (s ++ t) name := by
  obtain ⟨before, after, rfl⟩ := h
  exact ⟨s ++ before, after, by simp only [String.append_assoc]⟩

theorem append_right (h : Shows s name) (t : String) : Shows (s ++ t) name := by
  obtain ⟨before, after, rfl⟩ := h
  exact ⟨before, after ++ t, by simp only [String.append_assoc]⟩

theorem join {texts : List String} (hs : s ∈ texts) (h : Shows s name) :
    Shows (String.join texts) name := by
  obtain ⟨front, back, rfl⟩ := List.append_of_mem hs
  rw [String.join_append, String.join_cons]
  exact (h.append_right _).append_left _

end Shows

/-- The box of a type has that of its name in it. -/
theorem typeBox_eq (t : NodeType) : typeBox t
    = "<div class=\"type " ++ t.category ++ "\">\n        " ++ nameBox t.name ++
      ("\n        " ++ String.join (t.fields.map fieldBox) ++ "    </div>") := by
  unfold typeBox nameBox
  apply String.toList_inj.1
  simp

theorem shows_group {group : Group} {t : NodeType} (ht : t ∈ group.types) :
    Shows group.text t.name := by
  have hbox : Shows (typeBox t) t.name := ⟨_, _, typeBox_eq t⟩
  have htypes : Shows (String.join (group.types.map fun t =>
      "            " ++ typeBox t ++ "\n            ")) t.name :=
    Shows.join (List.mem_map_of_mem ht) ((hbox.append_left _).append_right _)
  exact (htypes.append_left _).append_right _

theorem shows_column {groups : List Group} {group : Group} (hgroup : group ∈ groups)
    {t : NodeType} (ht : t ∈ group.types) (number : Nat) :
    Shows (columnText number groups) t.name :=
  ((Shows.join (List.mem_map_of_mem hgroup) (shows_group ht)).append_left _).append_right _

/-- The name of every type in the groups is shown on the page. -/
theorem shows_pageText (rules : List (String × String)) {left right : List Group} {group : Group}
    (hgroup : group ∈ left ++ right) {t : NodeType} (ht : t ∈ group.types) :
    Shows (pageText rules left right) t.name := by
  unfold pageText
  rcases List.mem_append.1 hgroup with hleft | hright
  · exact (((shows_column hleft ht 1).append_left _).append_right _).append_right _
  · exact ((shows_column hright ht 2).append_left _).append_right _

/-! ## Names counted -/

/-- Texts without a `<` in them. -/
def Unmarked (texts : List String) : Prop := ∀ s ∈ texts, '<' ∉ s.toList

instance (texts : List String) : Decidable (Unmarked texts) := List.decidableBAll _ texts

/-- The texts of a type that are shown in its box. -/
def NodeType.texts (t : NodeType) : List String :=
  t.name :: t.category :: t.fields.flatMap fun f => [f.category, f.qualifier, f.name]

/-- Neither the heading of the group nor a text of its types has a `<` in it. -/
def Group.IsUnmarked (group : Group) : Prop :=
  '<' ∉ group.heading.toList ∧ ∀ t ∈ group.types, Unmarked t.texts

theorem isCalm_fieldBox {f : Field} (h : Unmarked [f.category, f.qualifier, f.name]) :
    IsCalm (fieldBox f) := by
  have hcategory : IsCalm f.category := .of_not_mem (h _ (by simp))
  have hqualifier : IsCalm f.qualifier := .of_not_mem (h _ (by simp))
  have hname : IsCalm f.name := .of_not_mem (h _ (by simp))
  unfold fieldBox
  have hopen := ((IsCalm.append (s := "          <span title=\"") (by decide) hcategory).append
    (t := "\" class=\"field ") (by decide)).append hcategory
  exact (((hopen.append (by decide)).append hqualifier).append hname).append (by decide)

theorem isCalm_pageHead : IsCalm pageHead := by
  unfold pageHead
  iterate 12 refine IsCalm.append ?_ (by decide)
  decide

section
variable {name : String} (hname : '<' ∉ name.toList)

include hname

theorem boxes_typeBox {t : NodeType} (h : Unmarked t.texts) (rest : String) :
    boxes name (typeBox t ++ rest) = (if t.name = name then 1 else 0) + boxes name rest := by
  have ht : '<' ∉ t.name.toList := h _ List.mem_cons_self
  have hcategory : IsCalm t.category := .of_not_mem (h _ (by simp [NodeType.texts]))
  have hfields : IsCalm (String.join (t.fields.map fieldBox)) := by
    refine IsCalm.join fun s hs => ?_
    obtain ⟨f, hf, rfl⟩ := List.mem_map.1 hs
    refine isCalm_fieldBox fun x hx => h x ?_
    exact List.mem_cons_of_mem _ (List.mem_cons_of_mem _ (List.mem_flatMap.2 ⟨f, hf, hx⟩))
  have hbefore : IsCalm ("<div class=\"type " ++ t.category ++ "\">\n        ") :=
    (IsCalm.append (by decide) hcategory).append (by decide)
  have hafter : IsCalm ("\n        " ++ String.join (t.fields.map fieldBox) ++ "    </div>") :=
    (IsCalm.append (by decide) hfields).append (by decide)
  rw [typeBox_eq, String.append_assoc, String.append_assoc, boxes_append hbefore,
    boxes_nameBox hname ht, boxes_append hafter]

theorem boxes_types {types : List NodeType} (h : ∀ t ∈ types, Unmarked t.texts) (rest : String) :
    boxes name (String.join (types.map fun t => "            " ++ (typeBox t ++ "\n            "))
      ++ rest) = (types.map (·.name)).count name + boxes name rest := by
  induction types with
  | nil => simp
  | cons t types ih =>
    rw [List.map_cons, String.join_cons, String.append_assoc, String.append_assoc,
      String.append_assoc, boxes_append (by decide), boxes_typeBox hname (h t List.mem_cons_self),
      boxes_append (by decide), ih fun u hu => h u (List.mem_cons_of_mem t hu), List.map_cons,
      List.count_cons]
    simp only [beq_iff_eq]
    omega

variable (hindent : ¬ "\n ".toList <+: name.toList)

include hindent

theorem boxes_group {group : Group} (h : group.IsUnmarked) (rest : String) :
    boxes name (group.text ++ rest) = (group.types.map (·.name)).count name + boxes name rest := by
  have hheading : IsCalm group.heading := .of_not_mem h.1
  have hstart : IsCalm ("          " ++ "          <div class=\"category " ++ group.heading ++
      "\"><span>" ++ group.heading) :=
    ((IsCalm.append (by decide) hheading).append (by decide)).append hheading
  have hwrapper : "</span><div>\n            " = "</span>" ++ ("<div>\n " ++ "           ") := by
    decide
  unfold Group.text
  rw [hwrapper]
  generalize "          " ++ "          <div class=\"category " ++ group.heading ++ "\"><span>"
    ++ group.heading = start at hstart
  simp only [String.append_assoc]
  rw [boxes_append hstart, boxes_append (by decide), boxes_wrapper hindent,
    boxes_append (by decide), boxes_types hname h.2, boxes_append (by decide)]

theorem boxes_groups {groups : List Group} (h : ∀ g ∈ groups, g.IsUnmarked) (rest : String) :
    boxes name (String.join (groups.map Group.text) ++ rest) =
      (groups.flatMap fun g => g.types.map (·.name)).count name + boxes name rest := by
  induction groups with
  | nil => simp
  | cons g groups ih =>
    rw [List.map_cons, String.join_cons, String.append_assoc,
      boxes_group hname hindent (h g List.mem_cons_self),
      ih fun g' hg' => h g' (List.mem_cons_of_mem g hg'), List.flatMap_cons, List.count_append,
      Nat.add_assoc]

theorem boxes_column {groups : List Group} (h : ∀ g ∈ groups, g.IsUnmarked) {number : Nat}
    (hnumber : IsCalm (toString number)) (rest : String) :
    boxes name (columnText number groups ++ rest) =
      (groups.flatMap fun g => g.types.map (·.name)).count name + boxes name rest := by
  have hopen : IsCalm ("      <div class=\"col" ++ toString number ++ "\">\n        ") :=
    (IsCalm.append (by decide) hnumber).append (by decide)
  unfold columnText
  rw [String.append_assoc, String.append_assoc, boxes_append hopen, boxes_groups hname hindent h,
    boxes_append (by decide)]

/-- **The box of a name begins on a page as often as the name is among those of the types
    shown.** -/
theorem boxes_pageText {rules : List (String × String)} {left right : List Group}
    (hrules : ∀ r ∈ rules, IsCalm r.1 ∧ IsCalm r.2) (hgroups : ∀ g ∈ left ++ right, g.IsUnmarked) :
    boxes name (pageText rules left right) =
      ((left ++ right).flatMap fun g => g.types.map (·.name)).count name := by
  have hlines : IsCalm (String.join ((Entries.sortByName rules).map ruleLine)) := by
    refine IsCalm.join fun s hs => ?_
    obtain ⟨r, hr, rfl⟩ := List.mem_map.1 hs
    obtain ⟨hselector, hstyle⟩ := hrules r ((List.mergeSort_perm _ _).mem_iff.1 hr)
    unfold ruleLine
    exact ((IsCalm.append (by decide) hselector).append hstyle).append (by decide)
  unfold pageText
  simp only [String.append_assoc]
  rw [boxes_append isCalm_pageHead, boxes_append hlines, boxes_append (by decide),
    boxes_column hname hindent (fun g hg => hgroups g (List.mem_append_left _ hg)) (by decide),
    boxes_column hname hindent (fun g hg => hgroups g (List.mem_append_right _ hg)) (by decide),
    List.flatMap_append, List.count_append]
  have hcalm : IsCalm "  </body>\n</html>" := by decide
  have hend : boxes name ("  </body>\n</html>" ++ "") = boxes name "" := boxes_append hcalm ""
  rw [String.append_empty] at hend
  rw [hend]
  rfl

end

end SourceScribe.Asdl
