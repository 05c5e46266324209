/-
  Reading all definitions, one after the other.

  `LaidOut ds cs`: the text `cs` has layouts of the definitions `ds` in their order, each
  beginning on a line of its own.  Lines are put together again to the definitions
  (`gather_of_laidOut`), up to blank lines, and storing them adds their categories and types
  at the end of a grammar that has none of these names yet (`defineAll_of_laid`).
-/
import SourceScribe.Proofs.Asdl.Definitions

namespace SourceScribe.Asdl

open Text (IsGap Trail Solid isBlank isLineBoundary isBlankLine cutAfterBoundary)

/-- Layouts of definitions one after the other.  All but the last end with the end of a
    line. -/
inductive LaidOut : List Definition → List Char → Prop
  | nil {gap : List Char} : IsGap gap → LaidOut [] gap
  | last {d : Definition} {cs : List Char} : d.Laid cs → LaidOut [d] cs
  | cons {d next : Definition} {ds : List Definition} {cs rest : List Char} : d.Laid cs →
      (∀ c ∈ cs.getLast?, isLineBoundary c = true) → LaidOut (next :: ds) rest →
      LaidOut (d :: next :: ds) (cs ++ rest)

/-! ## Lines -/

theorem gather_blank {current : Option String} {line : List Char} (h : isBlankLine line = true)
    (lines : List String) :
    gather current (String.ofList line :: lines) = gather current lines := by
  have hempty : (Text.strip (String.ofList line)).isEmpty = true := by
    rw [strip_ofList, List.isEmpty_iff.1 h]
    rfl
  cases current <;> rw [gather, if_pos hempty]

theorem isEmpty_strip {line : List Char} (h : isBlankLine line = false) :
    ¬ (Text.strip (String.ofList line)).isEmpty = true := by
  rw [strip_ofList, String.isEmpty_iff]
  intro hnil
  rw [isBlankLine, List.isEmpty_eq_false_iff] at h
  exact h (by simpa using congrArg String.toList hnil)

theorem gather_blanks {current : Option String} {blanks : List (List Char)}
    (h : ∀ l ∈ blanks, isBlankLine l = true) (lines : List String) :
    gather current (blanks.map String.ofList ++ lines) = gather current lines := by
  induction blanks with
  | nil => rfl
  | cons l blanks ih =>
    obtain ⟨hl, hblanks⟩ := List.forall_mem_cons.1 h
    rw [List.map_cons, List.cons_append, gather_blank hl, ih hblanks]

/-- From white space alone comes just the definition that is missing. -/
theorem gather_gap {gap : List Char} (h : IsGap gap) :
    gather none ((cutAfterBoundary gap).map String.ofList) = .ok [none] := by
  have hblank : ∀ l ∈ cutAfterBoundary gap, isBlankLine l = true := by
    intro l hl
    refine Text.isBlankLine_iff.2 fun c hc => h c ?_
    rw [← Text.cutAfterBoundary_flatten gap]
    exact List.mem_flatten.2 ⟨l, hl, hc⟩
  have hgather : gather none ((cutAfterBoundary gap).map String.ofList ++ []) = gather none [] :=
    gather_blanks hblank []
  rwa [List.append_nil] at hgather

/-- Lines without an equals sign belong to the definition above. -/
theorem gather_later {lines : List (List Char)} (h : ∀ l ∈ lines, '=' ∉ l) (d : String)
    (more : List String) : gather (some d) (lines.map String.ofList ++ more)
      = gather (some (d ++ String.ofList (lines.filter fun l => !isBlankLine l).flatten)) more := by
  induction lines generalizing d with
  | nil => simp
  | cons l lines ih =>
    obtain ⟨hl, hlines⟩ := List.forall_mem_cons.1 h
    rw [List.map_cons, List.cons_append]
    cases hblank : isBlankLine l
    · have hequals : ¬ (String.ofList l).toList.contains '=' = true := by simpa using hl
      rw [gather, if_neg (isEmpty_strip hblank), if_neg hequals, ih hlines]
      simp [hblank, String.append_assoc]
    · rw [gather_blank hblank, ih hlines]
      simp [hblank]

/-- The lines of a definition: one with the equals sign begins it, the others belong to
    it. -/
theorem gather_laid {d : Definition} (hd : d.IsSound) {cs : List Char} (h : d.Laid cs)
    (hreturn : '\r' ∉ cs) (current : Option String) (more : List String) :
    gather current ((cutAfterBoundary cs).map String.ofList ++ more)
      = match current with
        | none => gather (some (String.ofList (Text.dropBlankLines cs))) more
        | some before => do return some before ::
            (← gather (some (String.ofList (Text.dropBlankLines cs))) more) := by
  obtain ⟨gap, hgap, hunbroken, htrail⟩ := h
  obtain ⟨blanks, first, later, hcut, hblanks, hfirst, hsub, rest, hrest, hlater⟩ :=
    htrail.exists_lines (hd.solid_left hunbroken) hreturn
  have hequals : (String.ofList first).toList.contains '=' = true := by
    rw [String.toList_ofList, List.contains_iff_mem]
    exact hsub (by simp)
  have hlaterEquals : ∀ l ∈ later, '=' ∉ l := fun l hl hmem =>
    not_mem_of_trail hrest (by decide)
      (fun w hw => hd.not_mem_texts w hw '=' (by decide) (by decide)) (hlater l hl hmem)
  have hdrop : Text.dropBlankLines cs
      = first ++ (later.filter fun l => !isBlankLine l).flatten := by
    have hnone : blanks.filter (fun l => !isBlankLine l) = [] := by
      simpa [List.filter_eq_nil_iff] using hblanks
    rw [Text.dropBlankLines, hcut, List.filter_append, hnone]
    simp [hfirst]
  rw [hcut, hdrop, List.map_append, List.append_assoc, gather_blanks hblanks, List.map_cons,
    List.cons_append]
  cases current with
  | none =>
    rw [gather, if_neg (isEmpty_strip hfirst), if_pos hequals]
    simp only [gather_later hlaterEquals, String.ofList_append]
  | some before =>
    rw [gather, if_neg (isEmpty_strip hfirst), if_pos hequals]
    simp only [gather_later hlaterEquals, String.ofList_append]

theorem Definition.Laid.dropBlankLines {d : Definition} (hd : d.IsSound) {cs : List Char}
    (h : d.Laid cs) (hreturn : '\r' ∉ cs) : d.Laid (Text.dropBlankLines cs) := by
  obtain ⟨gap, hgap, hunbroken, htrail⟩ := h
  have hsolid := List.forall_mem_cons.2 ⟨hd.solid_left hunbroken, hd.solid_texts⟩
  exact ⟨gap, hgap, hunbroken, (htrail.dropBlankLines hsolid hreturn).1⟩

/-- The lines of all definitions fall into layouts of the definitions, after what was put
    together before. -/
theorem gather_of_laidOut {ds : List Definition} {cs : List Char} (h : LaidOut ds cs)
    (hne : ds ≠ []) (hsound : ∀ d ∈ ds, d.IsSound) (hreturn : '\r' ∉ cs) :
    ∃ texts, List.Forall₂ Definition.Laid ds texts ∧ ∀ current : Option String,
      gather current ((cutAfterBoundary cs).map String.ofList)
        = .ok (current.toList.map some ++ texts.map fun t => some (String.ofList t)) := by
  induction h with
  | nil => exact absurd rfl hne
  | @last d cs hlaid =>
    have hd := hsound d List.mem_cons_self
    refine ⟨[Text.dropBlankLines cs], .cons (hlaid.dropBlankLines hd hreturn) .nil,
      fun current => ?_⟩
    have hgather := gather_laid hd hlaid hreturn current []
    rw [List.append_nil] at hgather
    rw [hgather]
    cases current <;> rfl
  | @cons d next ds cs rest hlaid hends _ ih =>
    obtain ⟨hd, hsound⟩ := List.forall_mem_cons.1 hsound
    simp only [List.mem_append, not_or] at hreturn
    obtain ⟨texts, htexts, hrest⟩ := ih (List.cons_ne_nil _ _) hsound hreturn.2
    refine ⟨Text.dropBlankLines cs :: texts, .cons (hlaid.dropBlankLines hd hreturn.1) htexts,
      fun current => ?_⟩
    rw [Text.cutAfterBoundary_append hreturn.1 hends, List.map_append,
      gather_laid hd hlaid hreturn.1, hrest]
    cases current <;> rfl

/-! ## Storing -/

/-- A type with the white space around its attributes taken off. -/
def NodeType.tidy (t : NodeType) : NodeType := { t with attributes := t.attributes.map Text.strip }

/-- The names of the types of a definition. -/
def Definition.typeNames (d : Definition) : List String :=
  d.constructors.map fun c => c.name.getD d.category

/-- The types of a definition, as they are meant to be stored. -/
def Definition.entries (d : Definition) : List (String × NodeType) :=
  (d.types (d.attributes.map (·.text))).map fun t => (t.name, t)

/-- The category of a definition. -/
def Definition.categoryEntry (d : Definition) : String × Category :=
  (d.category, ⟨d.category, d.typeNames, false⟩)

theorem store_of_not_mem {α : Type} {entries : List (String × α)} {name : String}
    (h : name ∉ entries.map Prod.fst) (value : α) :
    Entries.store entries name value = entries ++ [(name, value)] := by
  have hany : ¬ entries.any (·.1 = name) = true := by
    simp only [List.any_eq_true, decide_eq_true_eq, not_exists, not_and]
    exact fun e he heq => h (heq ▸ List.mem_map_of_mem he)
  rw [Entries.store, if_neg hany]

/-- Entries with new names come at the end. -/
theorem update_of_new {α : Type} {entries more : List (String × α)}
    (hdistinct : (more.map Prod.fst).Nodup)
    (hnew : ∀ n ∈ more.map Prod.fst, n ∉ entries.map Prod.fst) :
    Entries.update entries more = entries ++ more := by
  induction more generalizing entries with
  | nil => exact (List.append_nil entries).symm
  | cons e more ih =>
    rw [List.map_cons, List.nodup_cons] at hdistinct
    rw [List.map_cons, List.forall_mem_cons] at hnew
    have hlater : ∀ n ∈ more.map Prod.fst, n ∉ (entries ++ [e]).map Prod.fst := by
      intro n hn hmem
      rw [List.map_append, List.mem_append] at hmem
      rcases hmem with hmem | hmem
      · exact hnew.2 n hn hmem
      · exact hdistinct.1 (List.mem_singleton.1 hmem ▸ hn)
    have hstep : Entries.update entries (e :: more) = Entries.update (entries ++ [e]) more := by
      rw [Entries.update, List.foldl_cons, store_of_not_mem hnew.1]
      rfl
    rw [hstep, ih hdistinct.2 hlater, List.append_assoc]
    rfl

theorem foldl_addType (types : List NodeType) (g : Grammar) :
    types.foldl .addType g
      = { g with types := Entries.update g.types (types.map fun t => (t.name, t)) } := by
  induction types generalizing g with
  | nil => rfl
  | cons t types ih => rw [List.foldl_cons, ih]; rfl

theorem Definition.map_name_types (d : Definition) (attributes : List String) :
    (d.types attributes).map (·.name) = d.typeNames := by
  rw [types, typesOf, List.map_map]
  rfl

theorem Definition.map_tidy_types {d : Definition} {attributes : List String}
    (h : attributes.map Text.strip = d.attributes.map (·.text)) :
    ((d.types attributes).map fun t => (t.name, t)).map (fun e => (e.1, e.2.tidy)) = d.entries := by
  simp [entries, types, typesOf, NodeType.tidy, h]

/-- A definition with new names is stored after what is there. -/
theorem define_of_new {d : Definition} {t : List Char} (hd : d.IsSound) (hlaid : d.Laid t)
    {g : Grammar} (hcategory : d.category ∉ g.categories.map Prod.fst)
    (hdistinct : d.typeNames.Nodup) (hnew : ∀ n ∈ d.typeNames, n ∉ g.types.map Prod.fst) :
    ∃ types, types.map Prod.fst = d.typeNames ∧
      types.map (fun e => (e.1, e.2.tidy)) = d.entries ∧
      define (String.ofList t) g
        = .ok () ⟨g.categories ++ [d.categoryEntry], g.types ++ types⟩ := by
  obtain ⟨attributes, hattributes, hdefine⟩ := define_of_laid hd hlaid
  have hnames : ((d.types attributes).map fun t => (t.name, t)).map Prod.fst = d.typeNames := by
    rw [List.map_map]
    exact d.map_name_types attributes
  refine ⟨_, hnames, d.map_tidy_types hattributes, ?_⟩
  rw [hdefine, foldl_addType, update_of_new (hnames ▸ hdistinct) fun n hn => hnew n (hnames ▸ hn),
    Grammar.addCategory, store_of_not_mem hcategory, d.map_name_types]
  rfl

/-- All definitions are stored, after what is there. -/
theorem defineAll_of_laid {ds : List Definition} {texts : List (List Char)}
    (htexts : List.Forall₂ Definition.Laid ds texts) (hsound : ∀ d ∈ ds, d.IsSound) (g : Grammar)
    (hcategories : (ds.map (·.category)).Nodup)
    (hnewCategories : ∀ d ∈ ds, d.category ∉ g.categories.map Prod.fst)
    (htypes : (ds.flatMap (·.typeNames)).Nodup)
    (hnewTypes : ∀ n ∈ ds.flatMap (·.typeNames), n ∉ g.types.map Prod.fst) :
    ∃ g', defineAll (texts.map fun t => some (String.ofList t)) g = .ok () g' ∧
      g'.categories = g.categories ++ ds.map (·.categoryEntry) ∧
      g'.types.map (fun e => (e.1, e.2.tidy))
        = g.types.map (fun e => (e.1, e.2.tidy)) ++ ds.flatMap (·.entries) := by
  induction htexts generalizing g with
  | nil => exact ⟨g, rfl, by simp, by simp⟩
  | @cons d t ds texts hlaid _ ih =>
    obtain ⟨hd, hsound⟩ := List.forall_mem_cons.1 hsound
    rw [List.map_cons, List.nodup_cons] at hcategories
    rw [List.flatMap_cons] at htypes hnewTypes
    obtain ⟨hnew, hnewCategories⟩ := List.forall_mem_cons.1 hnewCategories
    obtain ⟨hown, hlater, hapart⟩ := List.nodup_append.1 htypes
    obtain ⟨types, hnames, htidy, hstep⟩ := define_of_new hd hlaid hnew hown fun n hn =>
      hnewTypes n (List.mem_append_left _ hn)
    -- the names of the later definitions are new beside those of this one too
    have hmoreCategories :
        ∀ e ∈ ds, e.category ∉ (g.categories ++ [d.categoryEntry]).map Prod.fst := by
      intro e he hmem
      rw [List.map_append, List.mem_append] at hmem
      rcases hmem with hmem | hmem
      · exact hnewCategories e he hmem
      · have hsame : e.category = d.category := List.mem_singleton.1 hmem
        exact hcategories.1 (hsame ▸ List.mem_map_of_mem he)
    have hmoreTypes : ∀ n ∈ ds.flatMap (·.typeNames), n ∉ (g.types ++ types).map Prod.fst := by
      intro n hn hmem
      rw [List.map_append, List.mem_append, hnames] at hmem
      rcases hmem with hmem | hmem
      · exact hnewTypes n (List.mem_append_right _ hn) hmem
      · exact hapart n hmem n hn rfl
    obtain ⟨g', hall, hc, ht⟩ := ih hsound ⟨g.categories ++ [d.categoryEntry], g.types ++ types⟩
      hcategories.2 hmoreCategories hlater hmoreTypes
    refine ⟨g', (bind_of_ok hstep).trans hall, ?_, ?_⟩
    · rw [hc, List.append_assoc]
      rfl
    · rw [ht, List.map_append, htidy, List.append_assoc, List.flatMap_cons]

end SourceScribe.Asdl
