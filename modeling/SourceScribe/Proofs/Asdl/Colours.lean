/-
  Which categories are coloured on the page of a grammar.

  The boxes of types and fields bear the name of their category as style class, but the rule
  of a category stands under its own name only if it has several types; else it stands under
  the name of its type (`Category.ruleName`).  `mem_rules_iff`: these are the names with a
  rule.

  `rule_of_category_iff`: so there is a rule for the boxes of a category just if it has several
  types, or some category is of a single type that bears the name of the first.
-/
import SourceScribe.Proofs.Asdl.Display

namespace SourceScribe.Asdl

open Entries

/-! ## Names with a rule -/

/-- The name under which a category gets its rule: that of its only type, or its own. -/
def Category.ruleName (c : Category) : String :=
  if c.builtin || c.types.length = 1 then c.types.headD "" else c.name

/-- Giving out colours adds rules under just the names that get one. -/
theorem mem_map_fst_colourAll {rule : String → String} {colours names : List String}
    {rules all : List (String × String)} (h : colourAll rule rules colours names = .ok all)
    {n : String} : n ∈ all.map Prod.fst ↔ n ∈ rules.map Prod.fst ∨ n ∈ names := by
  induction names generalizing rules colours with
  | nil =>
    rw [colourAll] at h
    cases h
    simp
  | cons name names ih =>
    cases colours with
    | nil => cases h
    | cons colour colours =>
      rw [colourAll] at h
      rw [ih h, mem_map_fst_store_iff, List.mem_cons, or_assoc, or_left_comm]

/-- The rules of a layout stand under the rule names of the categories beside the main
    ones. -/
theorem mem_rules_iff {g : Grammar} {l : Layout} (h : Layout.of g = .ok l) {n : String} :
    n ∈ l.rules.map Prod.fst ↔
      ∃ c ∈ g.categories.map Prod.snd, isMain c.name = false ∧ c.ruleName = n := by
  rw [Layout.of] at h
  simp only [bind, Except.bind] at h
  split at h
  · cases h
  · rename_i builtinRules hbuiltins
    split at h
    · cases h
    · rename_i rules hrules
      cases h
      rw [mem_map_fst_colourAll hrules, mem_map_fst_colourAll hbuiltins]
      simp only [sortNames, List.map_nil, List.not_mem_nil, false_or, List.mem_append,
        List.mem_mergeSort, List.mem_map, List.mem_filter]
      -- a category is built in, or has one type, or has several
      constructor
      · rintro (⟨c, ⟨⟨hc, hmain⟩, hkind⟩, rfl⟩ | ⟨c, ⟨⟨⟨hc, hmain⟩, hown⟩, hkind⟩, rfl⟩ |
          ⟨c, ⟨⟨⟨hc, hmain⟩, hown⟩, hkind⟩, rfl⟩) <;>
        exact ⟨c, hc, by simpa using hmain, by simp_all [Category.ruleName]⟩
      · rintro ⟨c, hc, hmain, rfl⟩
        rw [Category.ruleName]
        by_cases hbuiltin : c.builtin = true
        · exact .inl ⟨c, by simp [hc, hmain, hbuiltin], by simp [hbuiltin]⟩
        by_cases hone : c.types.length = 1
        · exact .inr (.inl ⟨c, by simp [hc, hmain, hbuiltin, hone], by simp [hone]⟩)
        · exact .inr (.inr ⟨c, by simp [hc, hmain, hbuiltin, hone], by simp [hbuiltin, hone]⟩)

/-! ## Categories of a source -/

theorem mem_update {α : Type} {entries more : List (String × α)} {e : String × α}
    (h : e ∈ update entries more) : e ∈ entries ∨ e ∈ more := by
  induction more generalizing entries with
  | nil => exact .inl h
  | cons first more ih =>
    rcases ih h with hstored | hlater
    · rcases mem_store hstored with rfl | hold
      · exact .inr List.mem_cons_self
      · exact .inl hold
    · exact .inr (List.mem_cons_of_mem _ hlater)

theorem nodup_map_fst_store {α : Type} {entries : List (String × α)}
    (h : (entries.map Prod.fst).Nodup) (name : String) (value : α) :
    ((store entries name value).map Prod.fst).Nodup := by
  rw [map_fst_store]
  split_ifs with hold
  · exact h
  · rw [List.nodup_append_comm]
    exact List.nodup_cons.2 ⟨hold, h⟩

theorem nodup_map_fst_update {α : Type} {entries : List (String × α)}
    (h : (entries.map Prod.fst).Nodup) (more : List (String × α)) :
    ((update entries more).map Prod.fst).Nodup := by
  induction more generalizing entries with
  | nil => exact h
  | cons e more ih => exact ih (nodup_map_fst_store h e.1 e.2)

/-- What is stored of a source: categories that were said, each under its name, no name
    twice. -/
theorem categories_of_read {s : String} {g : Grammar} (h : Grammar.read s = .ok g) :
    (g.categories.map Prod.fst).Nodup ∧
    ∀ e ∈ g.categories, e.1 = e.2.name ∧ (e.2.builtin = true → e.2.types.length = 1) := by
  rw [read_eq_outline] at h
  cases ho : outline s with
  | error f => rw [ho] at h; cases h
  | ok o =>
    rw [ho] at h
    cases h
    rw [o.grammar_eq]
    have hnone : (([] : List (String × Category)).map Prod.fst).Nodup := List.nodup_nil
    refine ⟨nodup_map_fst_update hnone _, fun e he => ?_⟩
    rcases mem_update he with hnone | he
    · exact absurd hnone List.not_mem_nil
    rcases List.mem_append.1 he with hpiece | hclause
    · obtain ⟨p, -, rfl⟩ := List.mem_map.1 hpiece
      exact ⟨rfl, fun _ => rfl⟩
    · obtain ⟨clause, -, rfl⟩ := List.mem_map.1 hclause
      exact ⟨rfl, fun hbuiltin => nomatch hbuiltin⟩

/-- A category that was read is known by its name. -/
theorem category_ext_of_read {s : String} {g : Grammar} (h : Grammar.read s = .ok g)
    {c d : Category} (hc : c ∈ g.categories.map Prod.snd) (hd : d ∈ g.categories.map Prod.snd)
    (hname : c.name = d.name) : c = d := by
  obtain ⟨hnodup, hentries⟩ := categories_of_read h
  obtain ⟨e, he, rfl⟩ := List.mem_map.1 hc
  obtain ⟨f, hf, rfl⟩ := List.mem_map.1 hd
  have hkey : e.1 = f.1 := by rw [(hentries e he).1, (hentries f hf).1, hname]
  rw [List.inj_on_of_nodup_map hnodup he hf hkey]

/-! ## Style classes -/

theorem exists_typeBox (t : NodeType) : ∃ rest,
    typeBox t = "<div class=\"type " ++ t.category ++ "\">\n        <div>" ++ rest := by
  unfold typeBox
  generalize "<div class=\"type " ++ t.category ++ "\">\n        <div>" = start
  exact ⟨_, by rw [String.append_assoc, String.append_assoc, String.append_assoc]⟩

theorem exists_fieldBox (f : Field) : ∃ rest, fieldBox f =
    "          <span title=\"" ++ f.category ++ "\" class=\"field " ++ f.category ++ "\">"
      ++ rest := by
  unfold fieldBox
  generalize "          <span title=\"" ++ f.category ++ "\" class=\"field " ++ f.category
    ++ "\">" = start
  exact ⟨_, by rw [String.append_assoc, String.append_assoc]⟩

/-- **Which categories are coloured.**  Let a source be read and laid out, and take a category
    that is not built in and not one of the main three.  The boxes of its types and of the
    fields that hold it are of the style class of its name.  There is a rule for them just if
    the category has several types, or some category beside the main ones, built in or not, has
    a single type that bears this name.  The colour of a category of a single type goes to a
    rule under the name of the type. -/
theorem rule_of_category_iff {s : String} {g : Grammar} {l : Layout}
    (hread : Grammar.read s = .ok g) (hlayout : Layout.of g = .ok l) {c : Category}
    (hc : c ∈ g.categories.map Prod.snd) (hdefined : c.builtin = false)
    (hmain : isMain c.name = false) :
    (∀ t : NodeType, t.category = c.name →
      ∃ rest, typeBox t = "<div class=\"type " ++ c.name ++ "\">\n        <div>" ++ rest) ∧
    (∀ f : Field, f.category = c.name → ∃ rest, fieldBox f =
      "          <span title=\"" ++ c.name ++ "\" class=\"field " ++ c.name ++ "\">" ++ rest) ∧
    ((l.rules.lookup c.name).isSome ↔ c.types.length ≠ 1 ∨
      ∃ d ∈ g.categories.map Prod.snd, isMain d.name = false ∧ d.types = [c.name]) ∧
    ∀ n, c.types = [n] → (l.rules.lookup n).isSome := by
  have hrule : ∀ n, (l.rules.lookup n).isSome ↔
      ∃ d ∈ g.categories.map Prod.snd, isMain d.name = false ∧ d.ruleName = n := by
    intro n
    rw [← mem_rules_iff hlayout, List.lookup_isSome_iff, List.mem_map]
    exact exists_congr fun e => and_congr_right fun _ => beq_iff_eq.trans eq_comm
  have hsingle : ∀ (d : Category) (n : String), d.types = [n] → d.ruleName = n := by
    intro d n hn
    simp [Category.ruleName, hn]
  refine ⟨fun t ht => ht ▸ exists_typeBox t, fun f hf => hf ▸ exists_fieldBox f, ?_, ?_⟩
  · rw [hrule]
    constructor
    · rintro ⟨d, hd, hother, hname⟩
      obtain ⟨e, he, rfl⟩ := List.mem_map.1 hd
      have hbuiltin := ((categories_of_read hread).2 e he).2
      by_cases hone : e.2.types.length = 1
      · obtain ⟨n, hn⟩ := List.length_eq_one_iff.1 hone
        rw [hsingle e.2 n hn] at hname
        exact .inr ⟨e.2, hd, hother, hname ▸ hn⟩
      · have hown : e.2.builtin = false := by
          rw [← Bool.not_eq_true]
          exact fun h => hone (hbuiltin h)
        have hself : e.2.name = c.name := by simpa [Category.ruleName, hown, hone] using hname
        rw [← category_ext_of_read hread hd hc hself]
        exact .inl hone
    · rintro (hseveral | ⟨d, hd, hother, hone⟩)
      · exact ⟨c, hc, hmain, by simp [Category.ruleName, hdefined, hseveral]⟩
      · exact ⟨d, hd, hother, hsingle d _ hone⟩
  · intro n hn
    exact (hrule n).2 ⟨c, hc, hmain, hsingle c n hn⟩

/-- A source in which single types are named like their category or not. -/
def singleSource : String :=
  "-- types are str\n\x7b\nmod = M\nstmt = S\nexpr = E\nhandler = Handler(str name)\n"
    ++ "arg = (str name)\nalias = Alias\nname = alias\n\x7d\n"

/-- What it says. -/
def singleOutline : Outline :=
  ⟨["-- types are str\n"],
    [⟨"mod", [⟨"M", "mod", [], []⟩]⟩, ⟨"stmt", [⟨"S", "stmt", [], []⟩]⟩,
     ⟨"expr", [⟨"E", "expr", [], []⟩]⟩,
     ⟨"handler", [⟨"Handler", "handler", [⟨"name", "str", ""⟩], []⟩]⟩,
     ⟨"arg", [⟨"arg", "arg", [⟨"name", "str", ""⟩], []⟩]⟩,
     ⟨"alias", [⟨"Alias", "alias", [], []⟩]⟩, ⟨"name", [⟨"alias", "name", [], []⟩]⟩]⟩

theorem outline_singleSource : outline singleSource = .ok singleOutline := by
  rw [outline_eq]
  cbv

/-- The first category gets no colour, its type does; the second is named like its type, and
    the third like that of another category. -/
theorem rule_of_category_single : ∃ g l, Grammar.read singleSource = .ok g ∧
    Layout.of g = .ok l ∧
    (l.rules.lookup "handler").isSome = false ∧ (l.rules.lookup "Handler").isSome = true ∧
    (l.rules.lookup "arg").isSome = true ∧ (l.rules.lookup "alias").isSome = true := by
  have hshowable : singleOutline.Showable :=
    ⟨by decide, by decide, by decide +kernel, by decide⟩
  have hread : Grammar.read singleSource = .ok singleOutline.grammar := by
    rw [read_eq_outline, outline_singleSource]
    rfl
  obtain ⟨l, hl⟩ : ∃ l, Layout.of singleOutline.grammar = .ok l := by
    rcases hshowable.layout_of_cases with ⟨hmany, -⟩ | ⟨-, rules, hl, -⟩
    · exact absurd hmany (by decide)
    · exact ⟨_, hl⟩
  have hcategories : singleOutline.grammar.categories.map Prod.snd
      = singleOutline.categoryEntries.map Prod.snd :=
    congrArg _ (singleOutline.categories_grammar hshowable.categories)
  have hmem : ∀ c ∈ singleOutline.categoryEntries.map Prod.snd,
      c ∈ singleOutline.grammar.categories.map Prod.snd := fun c hc => hcategories ▸ hc
  have hhandler := rule_of_category_iff hread hl
    (hmem ⟨"handler", ["Handler"], false⟩ (by decide)) rfl (by decide)
  have harg := rule_of_category_iff hread hl (hmem ⟨"arg", ["arg"], false⟩ (by decide)) rfl
    (by decide)
  have halias := rule_of_category_iff hread hl (hmem ⟨"alias", ["Alias"], false⟩ (by decide)) rfl
    (by decide)
  rw [hcategories] at hhandler harg halias
  exact ⟨_, l, hread, hl, Bool.eq_false_iff.2 fun h => absurd (hhandler.2.2.1.1 h)
      (by decide +kernel),
    hhandler.2.2.2 _ rfl, harg.2.2.1.2 (by decide +kernel), halias.2.2.1.2 (by decide +kernel)⟩

end SourceScribe.Asdl
