/-
  What the page of a grammar shows.

  The types come to the page on three ways: those of modules, statements and expressions and of
  other sums by the name of their category, those of products and the built-in ones by their
  own.  `Outline.Showable.shown_perm`: together these are all types of the grammar, each of them
  once.

  `page_shows_every_type_once`: a grammar in which no name comes twice has no page just if
  there are more groups than colours, and if it has one, every type is in one group and there
  once.  Its name is in a box on the page, and if no text of the grammar has a `<` in it, there
  is only one such box.
-/
import Mathlib.Data.List.Nodup
import Mathlib.Data.List.Perm.Basic
import SourceScribe.Proofs.Asdl.Boxes
import SourceScribe.Proofs.Asdl.Lines
import SourceScribe.Proofs.Text.Seam

namespace SourceScribe.Asdl

/-! ## The page of a layout -/

namespace Layout

/-- The types of these names, in the order in which they are shown. -/
def typesNamed (l : Layout) (names : List String) : List NodeType :=
  (sortFolded names).filterMap fun n => l.grammar.types.lookup n

theorem groupBox_eq {l : Layout} {name heading : String} {names : List String}
    (h : l.group name = .ok (heading, names)) :
    l.groupBox name = .ok (Group.text ⟨heading, l.typesNamed names⟩) := by
  rw [groupBox, h]
  rfl

theorem groupBoxes_eq {l : Layout} {names : List String} {groups : List Group}
    (h : List.Forall₂ (fun name group => l.groupBox name = .ok (Group.text group)) names groups) :
    l.groupBoxes names = .ok (String.join (groups.map Group.text)) := by
  induction h with
  | nil => rfl
  | cons hbox _ ih =>
    rw [groupBoxes, hbox, ih, List.map_cons, String.join_cons]
    rfl

theorem page_eq {l : Layout} {left right : List Group}
    (hleft : l.groupBoxes ["mod", "stmt", "expr"] = .ok (String.join (left.map Group.text)))
    (hright : l.groupBoxes (l.sums ++ ["product_types", "builtin"])
      = .ok (String.join (right.map Group.text))) :
    l.page = .ok (pageText l.rules left right) := by
  rw [page, column, column, hleft, hright]
  rfl

end Layout

/-! ## Colours -/

/-- The colours are enough for as many names. -/
theorem exists_colourAll (rule : String → String) {colours names : List String}
    (h : names.length ≤ colours.length) (rules : List (String × String)) :
    ∃ all, colourAll rule rules colours names = .ok all := by
  induction names generalizing rules colours with
  | nil => exact ⟨rules, by rw [colourAll]⟩
  | cons name names ih =>
    cases colours with
    | nil => exact absurd h (by simp)
    | cons colour colours =>
      rw [colourAll]
      exact ih (by simpa using h) _

theorem colourAll_of_short (rule : String → String) {colours names : List String}
    (h : colours.length < names.length) (rules : List (String × String)) :
    colourAll rule rules colours names = .error .outOfColours := by
  induction names generalizing rules colours with
  | nil => exact absurd h (by simp)
  | cons name names ih =>
    cases colours with
    | nil => rfl
    | cons colour colours =>
      rw [colourAll]
      exact ih (by simpa using h) _

/-- A rule was there, or it is that of a name with one of the colours. -/
theorem mem_colourAll {rule : String → String} {colours names : List String}
    {rules all : List (String × String)} (h : colourAll rule rules colours names = .ok all)
    {r : String × String} (hr : r ∈ all) :
    r ∈ rules ∨ r.1 ∈ names ∧ ∃ colour ∈ colours, r.2 = rule colour := by
  induction names generalizing rules colours with
  | nil =>
    rw [colourAll] at h
    cases h
    exact .inl hr
  | cons name names ih =>
    cases colours with
    | nil => cases h
    | cons colour colours =>
      rw [colourAll] at h
      rcases ih h with hrules | ⟨hname, later, hlater, hrule⟩
      · rcases mem_store hrules with rfl | hold
        · exact .inr ⟨List.mem_cons_self, colour, List.mem_cons_self, rfl⟩
        · exact .inl hold
      · exact .inr ⟨List.mem_cons_of_mem _ hname, later, List.mem_cons_of_mem _ hlater, hrule⟩

/-- No box begins in a style rule. -/
theorem isCalm_rule : (∀ colour ∈ softColours.reverse, IsCalm (builtinRule colour)) ∧
    ∀ colour ∈ (softColours ++ strongColours).reverse, IsCalm (groupRule colour) := by
  have hcolours : ∀ colour ∈ softColours ++ strongColours, IsCalm colour := by decide +kernel
  constructor
  · intro colour hcolour
    have hcalm := hcolours colour (List.mem_append_left _ (List.mem_reverse.1 hcolour))
    exact (IsCalm.append (by decide) hcalm).append (by decide)
  · intro colour hcolour
    have hcalm := hcolours colour (List.mem_reverse.1 hcolour)
    exact (IsCalm.append (by decide) hcalm).append (by decide)

/-! ## The groups of an outline -/

theorem perm_sortNames (names : List String) : (sortNames names).Perm names :=
  List.mergeSort_perm _ _

theorem perm_sortFolded (names : List String) : (sortFolded names).Perm names := by
  have hsort := (List.mergeSort_perm (names.map fun n => (Text.lower n, n))
    fun a b => decide (a.1 ≤ b.1)).map Prod.snd
  rwa [List.map_map, Function.comp_def, List.map_id'] at hsort

/-- The category of a piece of the first line. -/
def builtinCategory (piece : String) : Category := ⟨piece, [lastWord piece], true⟩

namespace Outline

variable (o : Outline)

/-- The clauses of modules, statements and expressions. -/
def mains : List Clause := o.clauses.filter fun c => isMain c.category

/-- All other clauses. -/
def others : List Clause := o.clauses.filter fun c => !isMain c.category

/-- Those of them with a single type. -/
def products : List Clause := o.others.filter fun c => c.typeNames.length = 1

/-- Those of them with several types. -/
def sums : List Clause := o.others.filter fun c => c.typeNames.length ≠ 1

/-- The names of the types in a category. -/
def typesOf (category : String) : List String :=
  ((o.clauses.map fun c => (c.category, c.typeNames)).lookup category).getD []

/-- An outline that can be shown: the main categories are defined, no category is named like
    one of the two groups that are not categories, and no name comes twice. -/
structure Showable : Prop where
  mains : ∀ n ∈ ["mod", "stmt", "expr"], n ∈ o.clauses.map (·.category)
  groups : ∀ n ∈ ["builtin", "product_types"], n ∉ o.categoryNames
  types : o.typeNames.Nodup
  categories : o.categoryNames.Nodup

/-- The layout of an outline with these style rules. -/
def layout (rules : List (String × String)) : Layout where
  grammar := o.grammar
  builtins := sortNames (o.pieces.map lastWord)
  products := sortNames (o.products.map fun c => c.typeNames.headD "")
  sums := sortNames (o.sums.map (·.category))
  rules := rules

/-- The style rules are those of the groups beside the main ones. -/
def Colours (rules : List (String × String)) : Prop :=
  ∀ r ∈ rules, r.1 ∈ (o.layout []).builtins ++ ((o.layout []).products ++ (o.layout []).sums) ∧
    IsCalm r.2

/-- All texts that come on the page: the names of the categories, and those of the types with
    their fields. -/
def texts : List String := o.categoryNames ++ o.typeEntries.flatMap (·.2.texts)

/-- The group of a category. -/
def categoryGroup (l : Layout) (category : String) : Group :=
  ⟨category, l.typesNamed (o.typesOf category)⟩

/-- The groups on the left side. -/
def leftGroups (l : Layout) : List Group := ["mod", "stmt", "expr"].map (o.categoryGroup l)

/-- The groups on the right side. -/
def rightGroups (l : Layout) : List Group :=
  l.sums.map (o.categoryGroup l) ++ [⟨"", l.typesNamed l.products⟩, ⟨"", l.typesNamed l.builtins⟩]

/-- The names of all types in the groups, as they come there. -/
def shownNames : List String :=
  (["mod", "stmt", "expr"] ++ sortNames (o.sums.map (·.category))).flatMap o.typesOf ++
    (sortNames (o.products.map fun c => c.typeNames.headD "") ++
      sortNames (o.pieces.map lastWord))

end Outline

/-- What is stored under a name that comes once is found there. -/
theorem lookup_of_nodup {α : Type} {entries : List (String × α)}
    (h : (entries.map Prod.fst).Nodup) {name : String} {value : α}
    (hmem : (name, value) ∈ entries) : entries.lookup name = some value := by
  induction entries with
  | nil => exact absurd hmem List.not_mem_nil
  | cons e entries ih =>
    obtain ⟨key, first⟩ := e
    rw [List.map_cons, List.nodup_cons] at h
    rcases List.mem_cons.1 hmem with heq | hlater
    · cases heq
      exact List.lookup_cons_self
    · have hne : name ≠ key := by
        rintro rfl
        exact h.1 (List.mem_map.2 ⟨_, hlater, rfl⟩)
      rw [List.lookup_cons, beq_false_of_ne hne]
      exact ih h.2 hlater

namespace Outline.Showable

variable {o : Outline} (h : o.Showable)

include h

theorem nodup_clauses : (o.clauses.map (·.category)).Nodup :=
  (List.nodup_append.1 h.categories).2.1

theorem isMain_piece {p : String} (hp : p ∈ o.pieces) : isMain p = false := by
  rw [isMain, decide_eq_false_iff_not]
  intro hmain
  exact (List.nodup_append.1 h.categories).2.2 p hp p (h.mains p hmain) rfl

/-- The categories beside the main ones: those of the first line, and other clauses. -/
theorem filter_categories : (o.grammar.categories.map (·.2)).filter (fun c => !isMain c.name)
    = o.pieces.map builtinCategory ++ o.others.map (·.categoryEntry.2) := by
  have hpieces : ∀ c ∈ o.pieces.map builtinCategory, (!isMain c.name) = true := by
    intro c hc
    obtain ⟨p, hp, rfl⟩ := List.mem_map.1 hc
    rw [builtinCategory, h.isMain_piece hp]
    rfl
  rw [o.categories_grammar h.categories, categoryEntries, List.map_append, List.filter_append,
    List.map_map, List.map_map]
  refine congr (congrArg _ (List.filter_eq_self.2 hpieces)) ?_
  rw [List.filter_map]
  rfl

/-- The groups of the layout are those of the outline. -/
theorem layout_of : Layout.of o.grammar = (do
    let rules ← colourAll builtinRule [] softColours.reverse (o.layout []).builtins
    let rules ← colourAll groupRule rules (softColours ++ strongColours).reverse
      ((o.layout []).products ++ (o.layout []).sums)
    return o.layout rules) := by
  have hbuiltins : (o.pieces.map builtinCategory ++ o.others.map (·.categoryEntry.2)).filter
      (·.builtin) = o.pieces.map builtinCategory := by
    simp [List.filter_append, List.filter_map, Function.comp_def, builtinCategory,
      Clause.categoryEntry]
  have hdefined : (o.pieces.map builtinCategory ++ o.others.map (·.categoryEntry.2)).filter
      (fun c => !c.builtin) = o.others.map (·.categoryEntry.2) := by
    simp [List.filter_append, List.filter_map, Function.comp_def, builtinCategory,
      Clause.categoryEntry]
  rw [Layout.of, h.filter_categories]
  simp only [hbuiltins, hdefined, List.filter_map, List.map_map]
  rfl

omit h in
theorem length_groups (rules : List (String × String)) :
    (o.layout rules).builtins.length = o.pieces.length ∧
      ((o.layout rules).products ++ (o.layout rules).sums).length = o.others.length := by
  have hothers := (List.filter_append_perm (fun c : Clause => decide (c.typeNames.length = 1))
    o.others).length_eq
  refine ⟨by rw [layout, (perm_sortNames _).length_eq, List.length_map], ?_⟩
  rw [layout, List.length_append, (perm_sortNames _).length_eq, (perm_sortNames _).length_eq,
    List.length_map, List.length_map, ← hothers, List.length_append, products, sums]
  simp only [decide_not]

/-- There are colours for seven built-in types, and for twenty other groups. -/
theorem layout_of_cases :
    ((7 < o.pieces.length ∨ 20 < o.others.length) ∧
      Layout.of o.grammar = .error .outOfColours) ∨
    (¬ (7 < o.pieces.length ∨ 20 < o.others.length) ∧
      ∃ rules, Layout.of o.grammar = .ok (o.layout rules) ∧ o.Colours rules) := by
  obtain ⟨hbuiltins, hgroups⟩ := length_groups (o := o) []
  have hsoft : softColours.reverse.length = 7 := rfl
  have hall : (softColours ++ strongColours).reverse.length = 20 := rfl
  by_cases hfew : 7 < o.pieces.length
  · refine .inl ⟨.inl hfew, ?_⟩
    rw [h.layout_of, colourAll_of_short _ (by omega)]
    rfl
  obtain ⟨rules, hrules⟩ := exists_colourAll builtinRule
    (show (o.layout []).builtins.length ≤ softColours.reverse.length by omega) []
  by_cases hothers : 20 < o.others.length
  · refine .inl ⟨.inr hothers, ?_⟩
    have hfail : colourAll groupRule rules (softColours ++ strongColours).reverse
        ((o.layout []).products ++ (o.layout []).sums) = .error .outOfColours :=
      colourAll_of_short groupRule (by omega) rules
    rw [h.layout_of, hrules]
    show (colourAll groupRule rules _ _ >>= _) = _
    rw [hfail]
    rfl
  · obtain ⟨more, hmore⟩ := exists_colourAll groupRule
      (show ((o.layout []).products ++ (o.layout []).sums).length
        ≤ (softColours ++ strongColours).reverse.length by omega) rules
    refine .inr ⟨by omega, more, ?_, fun r hr => ?_⟩
    · rw [h.layout_of, hrules]
      show (colourAll groupRule rules _ _ >>= _) = _
      rw [hmore]
      rfl
    · rcases mem_colourAll hmore hr with hr | ⟨hname, colour, hcolour, hrule⟩
      · rcases mem_colourAll hrules hr with hnone | ⟨hname, colour, hcolour, hrule⟩
        · exact absurd hnone List.not_mem_nil
        · exact ⟨List.mem_append_left _ hname, hrule ▸ isCalm_rule.1 colour hcolour⟩
      · exact ⟨List.mem_append_right _ hname, hrule ▸ isCalm_rule.2 colour hcolour⟩

/-! ## What is shown -/

theorem lookup_category {c : Clause} (hc : c ∈ o.clauses) :
    o.grammar.categories.lookup c.category = some c.categoryEntry.2 := by
  rw [o.categories_grammar h.categories]
  refine lookup_of_nodup (by rw [map_fst_categoryEntries]; exact h.categories) ?_
  exact List.mem_append_right _ (List.mem_map.2 ⟨c, hc, rfl⟩)

/-- The group of a clause has the types of the clause. -/
theorem group_category (rules : List (String × String)) {c : Clause} (hc : c ∈ o.clauses) :
    (o.layout rules).group c.category = .ok (c.category, c.typeNames) := by
  have hne : ∀ n ∈ ["builtin", "product_types"], c.category ≠ n := by
    rintro n hn rfl
    exact h.groups _ hn (List.mem_append_right _ (List.mem_map.2 ⟨c, hc, rfl⟩))
  have hlookup : (o.layout rules).grammar.categories.lookup c.category = some c.categoryEntry.2 :=
    h.lookup_category hc
  rw [Layout.group, if_neg (hne _ (by simp)), if_neg (hne _ (by simp)), hlookup]
  rfl

/-- The main categories are those of the main clauses. -/
theorem perm_mains : ["mod", "stmt", "expr"].Perm (o.mains.map (·.category)) := by
  have hnodup : (o.mains.map (·.category)).Nodup :=
    (List.filter_sublist.map _).nodup h.nodup_clauses
  rw [List.perm_ext_iff_of_nodup (by decide) hnodup]
  intro n
  constructor
  · intro hn
    obtain ⟨c, hc, rfl⟩ := List.mem_map.1 (h.mains n hn)
    exact List.mem_map.2 ⟨c, List.mem_filter.2 ⟨hc, decide_eq_true hn⟩, rfl⟩
  · intro hn
    obtain ⟨c, hc, rfl⟩ := List.mem_map.1 hn
    exact of_decide_eq_true (List.mem_filter.1 hc).2

theorem typesOf_category {c : Clause} (hc : c ∈ o.clauses) :
    o.typesOf c.category = c.typeNames := by
  have hnodup : ((o.clauses.map fun c => (c.category, c.typeNames)).map Prod.fst).Nodup := by
    rw [List.map_map]
    exact h.nodup_clauses
  rw [typesOf, lookup_of_nodup hnodup (List.mem_map.2 ⟨c, hc, rfl⟩)]
  rfl

theorem flatMap_typesOf (cs : List Clause) (hcs : ∀ c ∈ cs, c ∈ o.clauses) :
    (cs.map (·.category)).flatMap o.typesOf = cs.flatMap (·.typeNames) := by
  rw [List.flatMap_map]
  exact List.flatMap_congr fun c hc => h.typesOf_category (hcs c hc)

omit h in
theorem flatMap_products :
    o.products.flatMap (·.typeNames) = o.products.map fun c => c.typeNames.headD "" := by
  have hone : ∀ c ∈ o.products, c.typeNames = [c.typeNames.headD ""] := by
    intro c hc
    obtain ⟨n, hn⟩ := List.length_eq_one_iff.1 (of_decide_eq_true (List.mem_filter.1 hc).2)
    rw [hn]
    rfl
  rw [List.flatMap_congr hone, List.map_eq_flatMap]

/-- The names in the groups are all names of types. -/
theorem shownNames_perm : o.shownNames.Perm o.typeNames := by
  have hmains : (["mod", "stmt", "expr"].flatMap o.typesOf).Perm
      (o.mains.flatMap (·.typeNames)) := by
    rw [← h.flatMap_typesOf o.mains fun c hc => List.mem_of_mem_filter hc]
    exact h.perm_mains.flatMap_right _
  have hsums : ((sortNames (o.sums.map (·.category))).flatMap o.typesOf).Perm
      (o.sums.flatMap (·.typeNames)) := by
    rw [← h.flatMap_typesOf o.sums fun c hc =>
      List.mem_of_mem_filter (List.mem_of_mem_filter hc)]
    exact (perm_sortNames _).flatMap_right _
  have hproducts : (sortNames (o.products.map fun c => c.typeNames.headD "")).Perm
      (o.products.flatMap (·.typeNames)) := by
    rw [flatMap_products]
    exact perm_sortNames _
  -- the clauses fall into the three kinds
  have hclauses := (List.filter_append_perm (fun c : Clause => isMain c.category)
    o.clauses).flatMap_right (·.typeNames)
  have hothers := (List.filter_append_perm (fun c : Clause => decide (c.typeNames.length = 1))
    o.others).flatMap_right (·.typeNames)
  rw [List.flatMap_append] at hclauses hothers
  rw [List.perm_iff_count]
  intro n
  have hcounts := And.intro (hmains.count_eq n) (And.intro (hsums.count_eq n)
    (And.intro (hproducts.count_eq n) ((perm_sortNames (o.pieces.map lastWord)).count_eq n)))
  have hkinds := And.intro (hclauses.count_eq n) (hothers.count_eq n)
  simp only [shownNames, typeNames, List.flatMap_append, List.count_append, Outline.mains,
    sums, products, others, decide_not] at hcounts hkinds ⊢
  omega

theorem filterMap_lookup :
    (o.typeNames.filterMap fun n => o.grammar.types.lookup n) = o.grammar.types.map Prod.snd := by
  have hnodup : (o.typeEntries.map Prod.fst).Nodup := by
    rw [map_fst_typeEntries]
    exact h.types
  rw [o.types_grammar h.types, ← map_fst_typeEntries, List.filterMap_map, ← List.filterMap_eq_map]
  exact List.filterMap_congr fun e he => lookup_of_nodup hnodup he

omit h in
theorem typesNamed_perm (l : Layout) (names : List String) :
    (l.typesNamed names).Perm (names.filterMap fun n => l.grammar.types.lookup n) :=
  (perm_sortFolded names).filterMap _

/-- The types on the page are those of the grammar. -/
theorem shown_perm (rules : List (String × String)) :
    ((o.leftGroups (o.layout rules) ++ o.rightGroups (o.layout rules)).flatMap (·.types)).Perm
      (o.grammar.types.map Prod.snd) := by
  have hgroups : (o.leftGroups (o.layout rules) ++ o.rightGroups (o.layout rules)).flatMap (·.types)
      = (["mod", "stmt", "expr"] ++ (o.layout rules).sums).flatMap
          (fun n => (o.layout rules).typesNamed (o.typesOf n)) ++
        ((o.layout rules).typesNamed (o.layout rules).products ++
          (o.layout rules).typesNamed (o.layout rules).builtins) := by
    simp [leftGroups, rightGroups, List.flatMap_append, List.flatMap_map, categoryGroup]
  rw [hgroups, ← h.filterMap_lookup]
  refine List.Perm.trans ?_ (h.shownNames_perm.filterMap _)
  rw [shownNames, List.filterMap_append, List.filterMap_append, List.filterMap_flatMap]
  refine List.Perm.append ?_ ((typesNamed_perm _ _).append (typesNamed_perm _ _))
  exact List.Perm.flatMap_left _ fun n _ => typesNamed_perm _ _

omit h in
theorem map_name_typeEntries : o.typeEntries.map (·.2.name) = o.typeNames := by
  simp [typeEntries, typeNames, Function.comp_def, Clause.typeEntries, Clause.typeNames,
    List.map_flatMap]

/-- The name of every type comes once in the groups. -/
theorem count_shown (rules : List (String × String)) {n : String}
    (hn : n ∈ o.grammar.types.map Prod.fst) :
    ((o.leftGroups (o.layout rules) ++ o.rightGroups (o.layout rules)).flatMap
      fun group => group.types.map (·.name)).count n = 1 := by
  have hnames : (o.grammar.types.map Prod.snd).map (·.name) = o.typeNames := by
    rw [o.types_grammar h.types, List.map_map, ← map_name_typeEntries]
    rfl
  rw [o.types_grammar h.types, map_fst_typeEntries] at hn
  rw [← List.map_flatMap, ((h.shown_perm rules).map _).count_eq, hnames]
  exact List.count_eq_one_of_mem h.types hn

theorem groupBox_category (rules : List (String × String)) {n : String}
    (hn : n ∈ o.clauses.map (·.category)) : (o.layout rules).groupBox n
      = .ok (Group.text (o.categoryGroup (o.layout rules) n)) := by
  obtain ⟨c, hc, rfl⟩ := List.mem_map.1 hn
  rw [Layout.groupBox_eq (h.group_category rules hc), categoryGroup, h.typesOf_category hc]

omit h in
theorem mem_clauses_of_mem_sums {rules : List (String × String)} {n : String}
    (hn : n ∈ (o.layout rules).sums) : n ∈ o.clauses.map (·.category) := by
  obtain ⟨c, hc, rfl⟩ := List.mem_map.1 ((perm_sortNames _).mem_iff.1 hn)
  exact List.mem_map.2 ⟨c, List.mem_of_mem_filter (List.mem_of_mem_filter hc), rfl⟩

/-- The page has the groups of both sides. -/
theorem page_layout (rules : List (String × String)) : (o.layout rules).page
    = .ok (pageText rules (o.leftGroups (o.layout rules)) (o.rightGroups (o.layout rules))) := by
  refine Layout.page_eq (Layout.groupBoxes_eq ?_) (Layout.groupBoxes_eq ?_)
  · rw [leftGroups, List.forall₂_map_right_iff, List.forall₂_same]
    exact fun n hn => h.groupBox_category rules (h.mains n hn)
  · rw [rightGroups]
    refine List.rel_append ?_ (.cons (Layout.groupBox_eq rfl) (.cons (Layout.groupBox_eq rfl) .nil))
    rw [List.forall₂_map_right_iff, List.forall₂_same]
    exact fun n hn => h.groupBox_category rules (mem_clauses_of_mem_sums hn)

end Outline.Showable

/-! ## Names in boxes -/

theorem not_mem_lastWord (piece : String) : ' ' ∉ (lastWord piece).toList := by
  have hmem : lastWord piece ∈ Text.splitOn " " piece := by
    rw [lastWord, List.getLastD_eq_getLast?, List.getLast?_eq_some_getLast (splitOn_ne_nil _ _)]
    exact List.getLast_mem _
  obtain ⟨word, hword, heq⟩ := List.mem_map.1 hmem
  rw [← heq, String.toList_ofList]
  exact Text.not_mem_of_mem_splitChars hword

/-- No type of a source is named as a new line with a blank begins. -/
theorem not_indented {s : String} {o : Outline} (ho : outline s = .ok o) {n : String}
    (hn : n ∈ o.typeNames) : ¬ "\n ".toList <+: n.toList := by
  unfold outline at ho
  split at ho
  · cases ho
  obtain ⟨ds, -, ho⟩ := ok_of_bind_ok ho
  obtain ⟨cs, hcs, ho⟩ := ok_of_bind_ok ho
  cases ho
  rcases List.mem_append.1 hn with hpiece | hclause
  · obtain ⟨p, -, rfl⟩ := List.mem_map.1 hpiece
    exact fun hbegin => not_mem_lastWord p (hbegin.subset (by decide))
  · obtain ⟨c, hc, hn⟩ := List.mem_flatMap.1 hclause
    obtain ⟨t, ht, rfl⟩ := List.mem_map.1 hn
    obtain ⟨text, htext⟩ := exists_strip_of_clausesOf hcs hc ht
    have hstrip : t.name.toList = Text.stripChars text.toList := by
      rw [htext, Text.strip, String.toList_ofList]
    rintro ⟨rest, hrest⟩
    have hfirst : (Text.stripChars text.toList).head? = some '\n' := by
      rw [← hstrip, ← hrest]
      rfl
    cases Text.isBlank_of_head?_stripChars hfirst

namespace Outline.Showable

variable {o : Outline} (h : o.Showable) {rules : List (String × String)}

include h

theorem heading_mem {group : Group}
    (hgroup : group ∈ o.leftGroups (o.layout rules) ++ o.rightGroups (o.layout rules)) :
    group.heading = "" ∨ group.heading ∈ o.categoryNames := by
  have hclause : ∀ n ∈ o.clauses.map (·.category), n ∈ o.categoryNames :=
    fun n hn => List.mem_append_right _ hn
  rcases List.mem_append.1 hgroup with hleft | hright
  · obtain ⟨n, hn, rfl⟩ := List.mem_map.1 hleft
    exact .inr (hclause n (h.mains n hn))
  rcases List.mem_append.1 hright with hsum | hrest
  · obtain ⟨n, hn, rfl⟩ := List.mem_map.1 hsum
    exact .inr (hclause n (mem_clauses_of_mem_sums hn))
  · rcases List.mem_cons.1 hrest with rfl | hrest
    · exact .inl rfl
    · exact .inl (List.mem_singleton.1 hrest ▸ rfl)

theorem isUnmarked_group (htexts : Unmarked o.texts) {group : Group}
    (hgroup : group ∈ o.leftGroups (o.layout rules) ++ o.rightGroups (o.layout rules)) :
    group.IsUnmarked := by
  constructor
  · rcases h.heading_mem hgroup with hnone | hcategory
    · rw [hnone]
      exact List.not_mem_nil
    · exact htexts _ (List.mem_append_left _ hcategory)
  · intro t ht x hx
    have hshown := (h.shown_perm rules).mem_iff.1 (List.mem_flatMap.2 ⟨group, hgroup, ht⟩)
    rw [o.types_grammar h.types] at hshown
    obtain ⟨e, he, rfl⟩ := List.mem_map.1 hshown
    exact htexts x (List.mem_append_right _ (List.mem_flatMap.2 ⟨e, he, hx⟩))

omit h in
theorem not_mem_of_mem_typeNames (htexts : Unmarked o.texts) {n : String} (hn : n ∈ o.typeNames) :
    '<' ∉ n.toList := by
  rw [← map_name_typeEntries] at hn
  obtain ⟨e, he, rfl⟩ := List.mem_map.1 hn
  exact htexts _ (List.mem_append_right _ (List.mem_flatMap.2 ⟨e, he, List.mem_cons_self⟩))

/-- Rules stand under names of types, or of categories. -/
theorem not_mem_of_colours (htexts : Unmarked o.texts) (hrules : o.Colours rules)
    {r : String × String} (hr : r ∈ rules) : '<' ∉ r.1.toList := by
  have htypes : ∀ n ∈ (o.layout []).products ++ (o.layout []).builtins, '<' ∉ n.toList :=
    fun n hn => not_mem_of_mem_typeNames htexts
      (h.shownNames_perm.mem_iff.1 (List.mem_append_right _ hn))
  rcases List.mem_append.1 (hrules r hr).1 with hbuiltin | hother
  · exact htypes _ (List.mem_append_right _ hbuiltin)
  rcases List.mem_append.1 hother with hproduct | hsum
  · exact htypes _ (List.mem_append_left _ hproduct)
  · exact htexts _ (List.mem_append_left _ (List.mem_append_right _ (mem_clauses_of_mem_sums hsum)))

/-- If no text has a `<` in it, the box of every name begins once on the page. -/
theorem boxes_page {s : String} (ho : outline s = .ok o) (htexts : Unmarked o.texts)
    (hrules : o.Colours rules) {n : String} (hn : n ∈ o.grammar.types.map Prod.fst) :
    boxes n (pageText rules (o.leftGroups (o.layout rules)) (o.rightGroups (o.layout rules)))
      = 1 := by
  have hname : n ∈ o.typeNames := by rwa [o.types_grammar h.types, map_fst_typeEntries] at hn
  rw [boxes_pageText (not_mem_of_mem_typeNames htexts hname) (not_indented ho hname)
    (fun r hr => ⟨.of_not_mem (h.not_mem_of_colours htexts hrules hr), (hrules r hr).2⟩)
    (fun group hgroup => h.isUnmarked_group htexts hgroup)]
  exact h.count_shown rules hn

theorem shows_page (rules : List (String × String)) {n : String}
    (hn : n ∈ o.grammar.types.map Prod.fst) :
    Shows (pageText rules (o.leftGroups (o.layout rules)) (o.rightGroups (o.layout rules))) n := by
  have hcount := h.count_shown rules hn
  have hmem : n ∈ (o.leftGroups (o.layout rules) ++ o.rightGroups (o.layout rules)).flatMap
      fun group => group.types.map (·.name) := List.count_pos_iff.1 (by omega)
  obtain ⟨group, hgroup, hn⟩ := List.mem_flatMap.1 hmem
  obtain ⟨t, ht, rfl⟩ := List.mem_map.1 hn
  exact shows_pageText rules hgroup ht

end Outline.Showable

/-- **Every type is on the page once.**  A source of which the outline can be shown is read.
    It gets no page just if there are more than seven built-in types or more than twenty
    categories beside the main ones.  Otherwise the page has the main categories on its left
    side, the types in its groups are those of the grammar in some order, and the name of
    every type comes in one group only, and there once.

    So the name of every type is in a box of its own in the text of the page; and if no name of
    a category, type or field has a `<` in it, there is just one place of the page where this
    box is. -/
theorem page_shows_every_type_once {s : String} {o : Outline} (ho : outline s = .ok o)
    (h : o.Showable) :
    ∃ g, Grammar.read s = .ok g ∧
      (Layout.of g = .error .outOfColours ↔ 7 < o.pieces.length ∨ 20 < o.others.length) ∧
      (¬ (7 < o.pieces.length ∨ 20 < o.others.length) →
        ∃ text rules left right, g.page = .ok text ∧ text = pageText rules left right ∧
          left.map (·.heading) = ["mod", "stmt", "expr"] ∧
          ((left ++ right).flatMap (·.types)).Perm (g.types.map Prod.snd) ∧
          (∀ n ∈ g.types.map Prod.fst,
            ((left ++ right).flatMap fun group => group.types.map (·.name)).count n = 1 ∧
            ∃ before after, text = before ++ ("<div>" ++ n ++ "</div>") ++ after) ∧
          (Unmarked o.texts → ∀ n ∈ g.types.map Prod.fst,
            ∃! split : String × String,
              text = split.1 ++ ("<div>" ++ n ++ "</div>") ++ split.2)) := by
  refine ⟨o.grammar, by rw [read_eq_outline, ho]; rfl, ?_, ?_⟩
  · rcases h.layout_of_cases with ⟨hmany, herror⟩ | ⟨hfew, rules, hlayout, -⟩
    · simp [hmany, herror]
    · simp [hfew, hlayout]
  · intro hfew
    rcases h.layout_of_cases with ⟨hmany, -⟩ | ⟨-, rules, hlayout, hrules⟩
    · exact absurd hmany hfew
    refine ⟨_, rules, _, _, ?_, rfl, rfl, h.shown_perm rules,
      fun n hn => ⟨h.count_shown rules hn, h.shows_page rules hn⟩, fun htexts n hn => ?_⟩
    · rw [Grammar.page, hlayout]
      exact h.page_layout rules
    · exact existsUnique_nameBox (h.boxes_page ho htexts hrules hn)

/-- A source with types of every kind. -/
def pageSource : String :=
  "-- types are str, int\n\x7b\nmod = M(int n)\nstmt = S | T\nexpr = E\narg = (str name)\n"
    ++ "op = Or | And\n\x7d\n"

/-- What it says. -/
def pageOutline : Outline :=
  ⟨["-- types are str", " int\n"],
    [⟨"mod", [⟨"M", "mod", [⟨"n", "int", ""⟩], []⟩]⟩,
     ⟨"stmt", [⟨"S", "stmt", [], []⟩, ⟨"T", "stmt", [], []⟩]⟩,
     ⟨"expr", [⟨"E", "expr", [], []⟩]⟩,
     ⟨"arg", [⟨"arg", "arg", [⟨"name", "str", ""⟩], []⟩]⟩,
     ⟨"op", [⟨"Or", "op", [], []⟩, ⟨"And", "op", [], []⟩]⟩]⟩

theorem outline_pageSource : outline pageSource = .ok pageOutline := by
  rw [outline_eq]
  cbv

theorem page_pageSource : pageOutline.Showable ∧ Unmarked pageOutline.texts ∧
    ∃ g text, Grammar.read pageSource = .ok g ∧ g.page = .ok text ∧
      g.types.map Prod.fst = ["str", "int\n", "M", "S", "T", "E", "arg", "Or", "And"] ∧
      ∀ n ∈ ["str", "int\n", "M", "S", "T", "E", "arg", "Or", "And"],
        ∃! split : String × String, text = split.1 ++ ("<div>" ++ n ++ "</div>") ++ split.2 := by
  have hshowable : pageOutline.Showable := ⟨by decide, by decide, by decide +kernel, by decide⟩
  have htexts : Unmarked pageOutline.texts := by decide +kernel
  obtain ⟨g, hread, -, hpage⟩ := page_shows_every_type_once outline_pageSource hshowable
  obtain ⟨text, -, -, -, htext, -, -, -, -, hone⟩ := hpage (by decide)
  have hnames : g.types.map Prod.fst
      = ["str", "int\n", "M", "S", "T", "E", "arg", "Or", "And"] := by
    rw [read_eq_outline, outline_pageSource] at hread
    cases hread
    rw [pageOutline.types_grammar hshowable.types]
    decide +kernel
  rw [hnames] at hone
  exact ⟨hshowable, htexts, g, text, hread, htext, hnames, hone htexts⟩

end SourceScribe.Asdl
