/-
  When a page looks the same the second time.

  A template has a gap for each node of the tree that the table comes to (`visit_of_template`), and
  that of a statement stands before those of all other nodes that add to it (`pairwise_visits`).
  So a first page shows for a statement the lines recorded before and its own, `headLines`, but
  not those of the nodes that it holds; a later page shows all that is recorded.

  `page_repeats_iff`: the second page is the same just if every line that is recorded for a
  statement that is shown was among these.  A statement with more lines has a longer text
  (`length_render_add_le`), so the pages cannot agree by chance.
-/
import SourceScribe.Proofs.Page.Template

namespace SourceScribe.Page

open SourceScribe.Language (ClassInfo)

variable {classes : List ClassInfo}

/-! ## Where the gaps of a template stand -/

theorem rowPieces_cons {path : Path} {owner : Option Path} {fields : List (String × Tree)}
    {name : String} {names : List String} {rows : List Piece}
    (h : rowPieces (fieldTemplates classes path owner fields) (name :: names) = some rows) :
    ∃ t value more, fields.lookup name = some t ∧
      template classes (path.field name) owner t = some value ∧
      rowPieces (fieldTemplates classes path owner fields) names = some more ∧
      rows = fieldPieces name value ++ more := by
  simp only [rowPieces, lookup_fieldTemplates, Option.bind_eq_bind, Option.bind_eq_some_iff,
    Option.join_eq_some_iff, Option.map_eq_some_iff, Option.pure_def, Option.some.injEq] at h
  obtain ⟨value, ⟨t, ht, hvalue⟩, more, hmore, rfl⟩ := h
  exact ⟨t, value, more, ht, hvalue, hmore, rfl⟩

theorem visits_fieldPieces (name : String) (value : List Piece) :
    visits (fieldPieces name value) = visits value := by
  simp [fieldPieces]

/-- A gap in the rows of fields is one of a field. -/
theorem mem_visits_rowPieces {path : Path} {owner : Option Path} {fields : List (String × Tree)}
    {u : Visit} {names : List String} {rows : List Piece}
    (h : rowPieces (fieldTemplates classes path owner fields) names = some rows)
    (hu : u ∈ visits rows) : ∃ name ∈ names, ∃ t value, fields.lookup name = some t ∧
      template classes (path.field name) owner t = some value ∧ u ∈ visits value := by
  induction names generalizing rows with
  | nil =>
    cases h
    cases hu
  | cons name names ih =>
    obtain ⟨t, value, more, ht, hvalue, hmore, rfl⟩ := rowPieces_cons h
    rw [visits_append, visits_fieldPieces, List.mem_append] at hu
    rcases hu with hu | hu
    · exact ⟨name, List.mem_cons_self, t, value, ht, hvalue, hu⟩
    · obtain ⟨other, hother, hfound⟩ := ih hmore hu
      exact ⟨other, List.mem_cons_of_mem _ hother, hfound⟩

/-- The first item has gaps only if it is no list. -/
theorem itemTemplates_cons_eq_some {path : Path} {owner : Option Path} {i : Nat} {t : Tree}
    {items : List Tree} {cells : List (List Piece)}
    (h : itemTemplates classes path owner i (t :: items) = some cells) :
    ∃ cell more, cells = cell :: more ∧
      itemTemplates classes path owner (i + 1) items = some more ∧
      (visits cell = [] ∨ (∀ inner, t ≠ .list inner) ∧
        template classes (path.item i) owner t = some cell) := by
  by_cases hlist : ∃ inner, t = .list inner
  · obtain ⟨inner, rfl⟩ := hlist
    rw [itemTemplates, Option.map_eq_some_iff] at h
    obtain ⟨more, hmore, rfl⟩ := h
    exact ⟨_, more, rfl, hmore, .inl rfl⟩
  · rw [not_exists] at hlist
    rw [itemTemplates_cons hlist] at h
    simp only [Option.bind_eq_bind, Option.bind_eq_some_iff, Option.pure_def,
      Option.some.injEq] at h
    obtain ⟨cell, hcell, more, hmore, rfl⟩ := h
    exact ⟨cell, more, rfl, hmore, .inr ⟨hlist, hcell⟩⟩

/-- A gap in the items of a list is one of an item. -/
theorem mem_visits_itemTemplates {path : Path} {owner : Option Path} {u : Visit}
    {items : List Tree} {i : Nat} {cells : List (List Piece)}
    (h : itemTemplates classes path owner i items = some cells) (hu : u ∈ cells.flatMap visits) :
    ∃ j t cell, (Tree.list items).step? (.item j) = some t ∧
      template classes (path.item (i + j)) owner t = some cell ∧ u ∈ visits cell := by
  simp only [Tree.step?_item]
  induction items generalizing i cells with
  | nil =>
    cases h
    cases hu
  | cons t items ih =>
    obtain ⟨cell, more, rfl, hmore, hcell⟩ := itemTemplates_cons_eq_some h
    rw [List.flatMap_cons, List.mem_append] at hu
    rcases hu with hu | hu
    · rcases hcell with hnone | ⟨hlist, hcell⟩
      · rw [hnone] at hu
        cases hu
      · exact ⟨0, t, cell, ⟨rfl, hlist⟩, hcell, hu⟩
    · obtain ⟨j, t', cell', ht, hcell', hu'⟩ := ih hmore hu
      exact ⟨j + 1, t', cell', ht, Nat.add_right_comm i j 1 ▸ hcell', hu'⟩

/-- The template of a node has a gap for the node, and then those of its fields. -/
theorem template_node {path : Path} {outer : Option Path} {cls : String} {places : List Int}
    {fields : List (String × Tree)} {pieces : List Piece}
    (h : template classes path outer (.node cls places fields) = some pieces) :
    ∃ info rows, info ∈ classes ∧
      rowPieces (fieldTemplates classes path (ownerBelow classes cls path outer) fields) info.order
        = some rows ∧
      visits pieces = ⟨⟨path, cls, places⟩, ownerBelow classes cls path outer⟩ :: visits rows := by
  simp only [template, Option.bind_eq_bind, Option.bind_eq_some_iff, Option.pure_def,
    Option.some.injEq] at h
  obtain ⟨info, hinfo, rows, hrows, rfl⟩ := h
  exact ⟨info, rows, List.mem_of_find?_eq_some hinfo, hrows, by simp [nodePieces]⟩

theorem template_list {path : Path} {outer : Option Path} {items : List Tree}
    {pieces : List Piece} (h : template classes path outer (.list items) = some pieces) :
    ∃ cells, itemTemplates classes path outer 0 items = some cells ∧
      visits pieces = cells.flatMap visits := by
  rw [template, Option.map_eq_some_iff] at h
  obtain ⟨cells, hcells, rfl⟩ := h
  exact ⟨cells, hcells, visits_itemPieces cells⟩

/-- A gap of a template is that of the node itself, or one of what stands a step below it. -/
theorem visit_step {t : Tree} {path : Path} {outer : Option Path} {pieces : List Piece} {u : Visit}
    (h : template classes path outer t = some pieces) (hu : u ∈ visits pieces) :
    (∃ cls places fields, t = .node cls places fields ∧
      u = ⟨⟨path, cls, places⟩, ownerAt? classes t path outer []⟩) ∨
    ∃ s below part, t.step? s = some below ∧ template classes ⟨s :: path.steps⟩
      (ownerAt? classes t path outer []) below = some part ∧ u ∈ visits part := by
  cases t with
  | leaf v =>
    rw [template, Option.some.injEq] at h
    rw [← h] at hu
    cases hu
  | list items =>
    obtain ⟨cells, hcells, hvisits⟩ := template_list h
    obtain ⟨j, t, cell, ht, hcell, hu⟩ := mem_visits_itemTemplates hcells (hvisits ▸ hu)
    exact .inr ⟨.item j, t, cell, ht, Nat.zero_add j ▸ hcell, hu⟩
  | node cls places fields =>
    obtain ⟨info, rows, _, hrows, hvisits⟩ := template_node h
    rw [hvisits, List.mem_cons] at hu
    rcases hu with rfl | hu
    · exact .inl ⟨cls, places, fields, rfl, rfl⟩
    · obtain ⟨name, _, t, value, ht, hvalue, hu⟩ := mem_visits_rowPieces hrows hu
      exact .inr ⟨.field name, t, value, ht, hvalue, hu⟩

/-- The gaps of a template are for nodes of the tree, with their nearest statements. -/
theorem visit_of_template {t : Tree} : ∀ {path : Path} {outer : Option Path}
    {pieces : List Piece}, template classes path outer t = some pieces → ∀ u ∈ visits pieces,
      ∃ q fields, t.follow? q = some (.node u.node.cls u.node.places fields) ∧
        u.node.path = ⟨q ++ path.steps⟩ ∧ u.owner = ownerAt? classes t path outer q := by
  induction t using Tree.inductionOnSteps with
  | h t ih =>
    intro path outer pieces h u hu
    rcases visit_step h hu with ⟨cls, places, fields, rfl, rfl⟩ | ⟨s, below, part, hs, hpart, hu⟩
    · exact ⟨[], fields, rfl, rfl, rfl⟩
    · obtain ⟨q, fields, hq, hpath, howner⟩ := ih s below hs hpart u hu
      refine ⟨q ++ [s], fields, ?_, ?_, ?_⟩
      · rw [Tree.follow?_concat, hs]
        exact hq
      · rw [hpath, List.append_assoc]
        rfl
      · rw [howner, ownerAt?_concat hs]

theorem ownerAt?_cases (t : Tree) (path : Path) (outer : Option Path) :
    ∀ q, ownerAt? classes t path outer q = outer ∨
      ∃ up, ownerAt? classes t path outer q = some ⟨up ++ path.steps⟩
  | [] => by
    rw [ownerAt?]
    split
    · exact .inr ⟨[], rfl⟩
    · exact .inl rfl
  | s :: up => by
    rw [ownerAt?]
    split
    · exact .inr ⟨s :: up, rfl⟩
    · exact ownerAt?_cases t path outer up

/-- A statement is its own nearest statement. -/
theorem owner_of_isStatement {t : Tree} {path : Path} {outer : Option Path} {pieces : List Piece}
    (h : template classes path outer t = some pieces) {u : Visit} (hu : u ∈ visits pieces)
    (hstmt : u.isStatement classes = true) : u.owner = some u.node.path := by
  obtain ⟨q, fields, hq, hpath, howner⟩ := visit_of_template h u hu
  have hst : (t.follow? q).any (isStatement classes) = true := by
    rw [hq]
    exact hstmt
  rw [howner, hpath]
  cases q with
  | nil => exact if_pos hst
  | cons s up => exact if_pos hst

/-- The gaps of the template of a whole tree. -/
theorem visit_of_root {t : Tree} {pieces : List Piece}
    (h : template classes .root none t = some pieces) {u : Visit} (hu : u ∈ visits pieces) :
    u.owner = nearestStatement? classes t u.node.path ∧
      ∃ fields, t.get? u.node.path = some (.node u.node.cls u.node.places fields) := by
  obtain ⟨q, fields, hq, hpath, howner⟩ := visit_of_template h u hu
  have hsteps : u.node.path.steps = q := by
    rw [hpath]
    exact List.append_nil q
  rw [nearestStatement?, Tree.get?, hsteps]
  exact ⟨howner, fields, hq⟩

/-! ## The order of the gaps -/

/-- The nodes in one part of a tree do not add to those in another. -/
theorem owner_ne_of_steps_ne {path : Path} {outer : Option Path} {s s' : Step} (hne : s ≠ s')
    (houter : ∀ o, outer = some o → o.steps.length ≤ path.steps.length) {t t' : Tree}
    {part part' : List Piece} (h : template classes ⟨s :: path.steps⟩ outer t = some part)
    (h' : template classes ⟨s' :: path.steps⟩ outer t' = some part') {u w : Visit}
    (hu : u ∈ visits part) (hw : w ∈ visits part') : u.owner ≠ some w.node.path := by
  obtain ⟨q, _, _, _, howner⟩ := visit_of_template h u hu
  obtain ⟨q', _, _, hpath, _⟩ := visit_of_template h' w hw
  rw [howner, hpath]
  intro heq
  rcases ownerAt?_cases t ⟨s :: path.steps⟩ outer q with hcase | ⟨up, hcase⟩
  · have hlength := houter _ (hcase.symm.trans heq)
    simp only [List.length_append, List.length_cons] at hlength
    omega
  · have hsteps : up ++ s :: path.steps = q' ++ s' :: path.steps :=
      congrArg Path.steps (Option.some.inj (hcase.symm.trans heq))
    obtain ⟨-, hcons⟩ := List.append_inj' hsteps (by simp)
    exact hne (List.cons.inj hcons).1

theorem pairwise_rowPieces {path : Path} {owner : Option Path} {fields : List (String × Tree)}
    (howner : ∀ o, owner = some o → o.steps.length ≤ path.steps.length)
    (h : ∀ name t value, fields.lookup name = some t →
      template classes (path.field name) owner t = some value →
      (visits value).Pairwise fun u w => u.owner ≠ some w.node.path)
    {names : List String} (hnames : names.Nodup) {rows : List Piece}
    (hrows : rowPieces (fieldTemplates classes path owner fields) names = some rows) :
    (visits rows).Pairwise fun u w => u.owner ≠ some w.node.path := by
  induction names generalizing rows with
  | nil =>
    cases hrows
    exact .nil
  | cons name names ih =>
    obtain ⟨t, value, more, ht, hvalue, hmore, rfl⟩ := rowPieces_cons hrows
    obtain ⟨hname, hnames⟩ := List.nodup_cons.1 hnames
    rw [visits_append, visits_fieldPieces, List.pairwise_append]
    refine ⟨h name t value ht hvalue, ih hnames hmore, fun u hu w hw => ?_⟩
    obtain ⟨other, hother, t', value', _, hvalue', hw⟩ := mem_visits_rowPieces hmore hw
    refine owner_ne_of_steps_ne ?_ howner hvalue hvalue' hu hw
    rintro ⟨⟩
    exact hname hother

theorem pairwise_itemTemplates {path : Path} {owner : Option Path}
    (howner : ∀ o, owner = some o → o.steps.length ≤ path.steps.length) {items : List Tree}
    (h : ∀ t ∈ items, ∀ i cell, template classes (path.item i) owner t = some cell →
      (visits cell).Pairwise fun u w => u.owner ≠ some w.node.path)
    {i : Nat} {cells : List (List Piece)}
    (hcells : itemTemplates classes path owner i items = some cells) :
    (cells.flatMap visits).Pairwise fun u w => u.owner ≠ some w.node.path := by
  induction items generalizing i cells with
  | nil =>
    cases hcells
    exact .nil
  | cons t items ih =>
    obtain ⟨cell, more, rfl, hmore, hcell⟩ := itemTemplates_cons_eq_some hcells
    have hrest := ih (fun t ht => h t (List.mem_cons_of_mem _ ht)) hmore
    rw [List.flatMap_cons]
    rcases hcell with hnone | ⟨_, hcell⟩
    · rw [hnone]
      exact hrest
    · rw [List.pairwise_append]
      refine ⟨h t List.mem_cons_self i cell hcell, hrest, fun u hu w hw => ?_⟩
      obtain ⟨j, t', cell', _, hcell', hw⟩ := mem_visits_itemTemplates hmore hw
      refine owner_ne_of_steps_ne ?_ howner hcell hcell' hu hw
      simp only [ne_eq, Step.item.injEq]
      omega

/-- **The order of the gaps.**  No node adds to the record of a node whose gap comes later. -/
theorem pairwise_visits (hclasses : ∀ info ∈ classes, info.order.Nodup) (t : Tree) :
    ∀ {path : Path} {outer : Option Path} {pieces : List Piece},
      (∀ o, outer = some o → o.steps.length < path.steps.length) →
      template classes path outer t = some pieces →
      (visits pieces).Pairwise fun u w => u.owner ≠ some w.node.path := by
  induction t using Tree.inductionOn with
  | hleaf v =>
    intro path outer pieces _ h
    rw [template, Option.some.injEq] at h
    rw [← h]
    exact .nil
  | hlist items ih =>
    intro path outer pieces houter h
    obtain ⟨cells, hcells, hvisits⟩ := template_list h
    rw [hvisits]
    refine pairwise_itemTemplates (fun o ho => Nat.le_of_lt (houter o ho))
      (fun t ht i cell hcell => ih t ht (fun o ho => ?_) hcell) hcells
    exact Nat.lt_succ_of_lt (houter o ho)
  | hnode cls places fields ih =>
    intro path outer pieces houter h
    obtain ⟨info, rows, hinfo, hrows, hvisits⟩ := template_node h
    have howner : ∀ o, ownerBelow classes cls path outer = some o →
        o.steps.length ≤ path.steps.length := by
      intro o ho
      rw [ownerBelow] at ho
      split at ho
      · exact Nat.le_of_eq (congrArg (·.steps.length) (Option.some.inj ho).symm)
      · exact Nat.le_of_lt (houter o ho)
    rw [hvisits, List.pairwise_cons]
    refine ⟨fun w hw heq => ?_, ?_⟩
    · -- what the node holds stands at a longer path
      obtain ⟨name, _, t, value, _, hvalue, hw⟩ := mem_visits_rowPieces hrows hw
      obtain ⟨q, _, _, hpath, _⟩ := visit_of_template hvalue w hw
      have hlength := howner _ heq
      rw [hpath] at hlength
      simp only [Path.field, List.length_append, List.length_cons] at hlength
      omega
    · refine pairwise_rowPieces howner (fun name t value ht hvalue =>
        ih (name, t) (Tree.mem_of_lookup ht) (fun o ho => ?_) hvalue) (hclasses info hinfo) hrows
      exact Nat.lt_succ_of_le (howner o ho)

/-- No class lists a field twice. -/
theorem nodup_order_of_classesOf {version : List String}
    (h : Language.classesOf version = .ok classes) : ∀ info ∈ classes, info.order.Nodup := by
  have hentries : ∀ e ∈ Language.entries, e.info.order.Nodup := by decide +kernel
  obtain ⟨v, rfl⟩ : ∃ v, classes = Language.classes v := by
    rw [Language.classesOf] at h
    cases hedition : Language.Edition.ofVersion version with
    | error f =>
      rw [hedition] at h
      cases h
    | ok v =>
      rw [hedition] at h
      cases h
      exact ⟨v, rfl⟩
  intro info hinfo
  obtain ⟨e, he, rfl⟩ := List.mem_map.1 hinfo
  exact hentries e (List.mem_filter.1 he).1

/-! ## The entries of one statement -/

namespace Record

/-- The entries of a statement. -/
def entriesOf (r : Record) (s : Path) : List Entry := r.entries.filter (·.1 = s)

theorem lines_eq (r : Record) (s : Path) : r.lines s = ((r.entriesOf s).map (·.2)).mergeSort := rfl

theorem mem_entriesOf {r : Record} {s : Path} {e : Entry} :
    e ∈ r.entriesOf s ↔ e ∈ r.entries ∧ e.1 = s := by
  simp [entriesOf]

/-- An entry of another statement, or one that is there, changes nothing. -/
theorem entriesOf_add (r : Record) (p s : Path) (k : Int) :
    (r.add p k).entriesOf s =
      if p = s ∧ (p, k) ∉ r.entriesOf s then (p, k) :: r.entriesOf s else r.entriesOf s := by
  by_cases hmem : (p, k) ∈ r.entries
  · rw [add, if_pos hmem, if_neg]
    rintro ⟨hs, hnew⟩
    exact hnew (mem_entriesOf.2 ⟨hmem, hs⟩)
  · have hnew : (p, k) ∉ r.entriesOf s := fun h => hmem (mem_entriesOf.1 h).1
    rw [add, if_neg hmem, entriesOf, List.filter_cons]
    by_cases hs : p = s
    · rw [if_pos (decide_eq_true hs), if_pos ⟨hs, hnew⟩, entriesOf]
    · rw [if_neg (by simpa using hs), if_neg fun h => hs h.1, entriesOf]

theorem entriesOf_addAll_congr {r q : Record} {s : Path} (h : r.entriesOf s = q.entriesOf s)
    (entries : List Entry) : (r.addAll entries).entriesOf s = (q.addAll entries).entriesOf s := by
  induction entries generalizing r q with
  | nil => exact h
  | cons e entries ih =>
    refine @ih (r.add e.1 e.2) (q.add e.1 e.2) ?_
    rw [entriesOf_add, entriesOf_add, h]

/-- Entries of other statements, or that are there, change nothing. -/
theorem entriesOf_addAll_of_mem {r : Record} {s : Path} {entries : List Entry}
    (h : ∀ e ∈ entries, e.1 = s → e ∈ r.entries) :
    (r.addAll entries).entriesOf s = r.entriesOf s := by
  induction entries with
  | nil => rfl
  | cons e entries ih =>
    have hfirst : (r.add e.1 e.2).entriesOf s = r.entriesOf s := by
      rw [entriesOf_add, if_neg]
      rintro ⟨hs, hnew⟩
      exact hnew (mem_entriesOf.2 ⟨h e List.mem_cons_self hs, hs⟩)
    exact (entriesOf_addAll_congr hfirst entries).trans
      (ih fun e he => h e (List.mem_cons_of_mem _ he))

theorem exists_entriesOf_addAll (r : Record) (s : Path) (entries : List Entry) :
    ∃ new, (r.addAll entries).entriesOf s = new ++ r.entriesOf s := by
  induction entries generalizing r with
  | nil => exact ⟨[], rfl⟩
  | cons e entries ih =>
    obtain ⟨new, hnew⟩ := ih (r.add e.1 e.2)
    rw [entriesOf_add] at hnew
    split at hnew
    · exact ⟨new ++ [e], hnew.trans (List.append_cons _ _ _)⟩
    · exact ⟨new, hnew⟩

end Record

/-! ## The lines that a first page shows -/

/-- The lines that a statement of the tree `t` shows on a page that begins with the record `r`:
    those recorded, and its own. -/
def headLines (lines : List String) (r : Record) (t : Tree) (s : Path) : List Int :=
  match t.get? s with
  | some (.node _ places _) => (r.addAll (nodeNotes lines s (some s) true places).1).lines s
  | _ => []

variable {lines : List String} {heads : Path → List Int}

theorem headLines_eq {t : Tree} {pieces : List Piece}
    (h : template classes .root none t = some pieces) (r : Record) {u : Visit}
    (hu : u ∈ visits pieces) (hstmt : u.isStatement classes = true) :
    headLines lines r t u.node.path =
      (r.addAll (u.notes classes lines).1).lines u.node.path := by
  obtain ⟨-, fields, hnode⟩ := visit_of_root h hu
  rw [headLines, hnode, Visit.notes, hstmt, owner_of_isStatement h hu hstmt]

/-- The entries that a node adds are of its nearest statement. -/
theorem owner_of_mem_notes {u : Visit} {e : Entry} (he : e ∈ (u.notes classes lines).1)
    (hown : u.isStatement classes = true → u.owner = some u.node.path) : u.owner = some e.1 := by
  rcases notes_of_mem_nodeNotes he with ⟨-, howner⟩ | ⟨hstmt, hpath, -⟩
  · exact howner
  · rw [hown hstmt, hpath]

/-- Where no node adds to a later one, each statement shows what was recorded for it at first and
    its own lines. -/
theorem foretells_of_pairwise {us : List Visit} {r q : Record}
    (horder : us.Pairwise fun u w => u.owner ≠ some w.node.path)
    (hown : ∀ u ∈ us, u.isStatement classes = true → u.owner = some u.node.path)
    (hheads : ∀ u ∈ us, u.isStatement classes = true →
      heads u.node.path = (r.addAll (u.notes classes lines).1).lines u.node.path)
    (hq : ∀ u ∈ us, q.entriesOf u.node.path = r.entriesOf u.node.path) :
    Foretells classes lines heads q us := by
  induction us generalizing q with
  | nil => trivial
  | cons u us ih =>
    obtain ⟨hfirst, horder⟩ := List.pairwise_cons.1 horder
    obtain ⟨hownFirst, hown⟩ := List.forall_mem_cons.1 hown
    obtain ⟨hheadsFirst, hheads⟩ := List.forall_mem_cons.1 hheads
    obtain ⟨hqFirst, hq⟩ := List.forall_mem_cons.1 hq
    refine ⟨fun hstmt => ?_, ih horder hown hheads fun w hw => ?_⟩
    · rw [hheadsFirst hstmt, Record.lines_eq, Record.lines_eq,
        Record.entriesOf_addAll_congr hqFirst]
    · rw [Record.entriesOf_addAll_of_mem, hq w hw]
      intro e he hs
      exact absurd (hs ▸ owner_of_mem_notes he hownFirst) (hfirst w hw)

/-! ## Comparing texts -/

theorem render_congr {heads' : Path → List Int} {pieces : List Piece}
    (h : ∀ u ∈ visits pieces, u.isStatement classes = true →
      heads u.node.path = heads' u.node.path) :
    render classes lines heads pieces = render classes lines heads' pieces := by
  induction pieces with
  | nil => rfl
  | cons p pieces ih =>
    cases p with
    | text s =>
      rw [render_cons, render_cons, ih h]
      rfl
    | gap u =>
      obtain ⟨hfirst, hrest⟩ := List.forall_mem_cons.1 h
      rw [render_cons, render_cons, ih hrest, Piece.render, Piece.render]
      by_cases hstmt : u.isStatement classes = true
      · rw [hfirst hstmt]
      · rw [if_neg hstmt, if_neg hstmt]

/-- The length of the row of a line. -/
def rowLength (lines : List String) (k : Int) : Nat :=
  (lineRow k ((lineAt? lines k).getD "")).length

theorem rowLength_pos (lines : List String) (k : Int) : 0 < rowLength lines k := by
  have hcolon : ∀ a b c d : String, 0 < (a ++ b ++ ": " ++ c ++ d).length := by
    intro a b c d
    have htwo : ": ".length = 2 := by decide
    simp only [String.length_append]
    omega
  exact hcolon _ _ _ _

theorem length_sourceText (lines : List String) :
    ∃ margin, ∀ numbers, (sourceText lines numbers).length
      = margin + (numbers.map (rowLength lines)).sum := by
  refine ⟨"            ".length + "          ".length, fun numbers => ?_⟩
  rw [sourceText, String.length_append, String.length_append, String.length_join, List.map_map,
    Nat.add_right_comm]
  rfl

/-- More lines make a longer text. -/
theorem length_sourceText_add_le (lines : List String) {numbers more new : List Int}
    (h : more.Perm (new ++ numbers)) :
    (sourceText lines numbers).length + new.length ≤ (sourceText lines more).length := by
  have hnew : new.length ≤ (new.map (rowLength lines)).sum := by
    clear h
    induction new with
    | nil => exact Nat.le_refl 0
    | cons k new ih =>
      have hfirst := rowLength_pos lines k
      rw [List.length_cons, List.map_cons, List.sum_cons]
      omega
  have hsum := (h.map (rowLength lines)).sum_nat
  rw [List.map_append, List.sum_append] at hsum
  obtain ⟨margin, hlength⟩ := length_sourceText lines
  rw [hlength, hlength]
  omega

/-- What `heads'` gives has all that `heads` gives, statement by statement. -/
def Extends (classes : List ClassInfo) (heads heads' : Path → List Int) (us : List Visit) : Prop :=
  ∀ u ∈ us, u.isStatement classes = true →
    ∃ new, (heads' u.node.path).Perm (new ++ heads u.node.path)

theorem length_render_le {heads' : Path → List Int} {pieces : List Piece}
    (h : Extends classes heads heads' (visits pieces)) :
    (render classes lines heads pieces).length ≤ (render classes lines heads' pieces).length := by
  induction pieces with
  | nil => exact Nat.le_refl 0
  | cons p pieces ih =>
    rw [render_cons, render_cons, String.length_append, String.length_append]
    cases p with
    | text s => exact Nat.add_le_add_left (ih h) _
    | gap u =>
      obtain ⟨hfirst, hrest⟩ := List.forall_mem_cons.1 h
      refine Nat.add_le_add ?_ (ih hrest)
      rw [Piece.render, Piece.render]
      by_cases hstmt : u.isStatement classes = true
      · rw [if_pos hstmt, if_pos hstmt]
        obtain ⟨new, hnew⟩ := hfirst hstmt
        have hlength := length_sourceText_add_le lines hnew
        omega
      · refine Nat.le_of_eq ?_
        rw [if_neg hstmt, if_neg hstmt]

/-- The text is longer by a character at least for every line that one statement has more. -/
theorem length_render_add_le {heads' : Path → List Int} {pieces : List Piece}
    (h : Extends classes heads heads' (visits pieces)) {u : Visit} (hu : u ∈ visits pieces)
    (hstmt : u.isStatement classes = true) {new : List Int}
    (hnew : (heads' u.node.path).Perm (new ++ heads u.node.path)) :
    (render classes lines heads pieces).length + new.length
      ≤ (render classes lines heads' pieces).length := by
  have hgap : Piece.gap u ∈ pieces := by
    obtain ⟨p, hp, hpu⟩ := List.mem_filterMap.1 hu
    cases p with
    | text s => cases hpu
    | gap w =>
      cases hpu
      exact hp
  obtain ⟨before, after, rfl⟩ := List.append_of_mem hgap
  have hbefore : Extends classes heads heads' (visits before) := fun w hw => h w (by simp [hw])
  have hafter : Extends classes heads heads' (visits after) := fun w hw => h w (by simp [hw])
  have hlength := length_sourceText_add_le lines hnew
  have hlengthBefore := @length_render_le _ lines _ _ _ hbefore
  have hlengthAfter := @length_render_le _ lines _ _ _ hafter
  simp only [render_append, render_cons, String.length_append, Piece.render, hstmt, if_true]
  omega

/-! ## Pages one after the other -/

theorem mem_noted {us : List Visit} {e : Entry} :
    e ∈ noted classes lines us ↔ ∃ u ∈ us, e ∈ (u.notes classes lines).1 :=
  List.mem_flatMap

/-- Where all that the nodes add is there already, statements show what is recorded. -/
theorem foretells_of_noted {us : List Visit} {r : Record}
    (h : ∀ e ∈ noted classes lines us, e ∈ r.entries) :
    Foretells classes lines r.lines r us := by
  induction us with
  | nil => trivial
  | cons u us ih =>
    have hfirst : r.addAll (u.notes classes lines).1 = r :=
      Record.addAll_of_mem fun e he => h e (mem_noted.2 ⟨u, List.mem_cons_self, he⟩)
    refine ⟨fun _ => by rw [hfirst], ?_⟩
    rw [hfirst]
    refine ih fun e he => h e ?_
    obtain ⟨w, hw, he⟩ := mem_noted.1 he
    exact mem_noted.2 ⟨w, List.mem_cons_of_mem _ hw, he⟩

/-- What is recorded for a node in the end: its own entries, and those that come later. -/
theorem exists_later {us : List Visit}
    (horder : us.Pairwise fun u w => u.owner ≠ some w.node.path)
    (hown : ∀ u ∈ us, u.isStatement classes = true → u.owner = some u.node.path) {u : Visit}
    (hu : u ∈ us) (r : Record) :
    ∃ later, (r.addAll (noted classes lines us)).entriesOf u.node.path =
      ((r.addAll (u.notes classes lines).1).addAll later).entriesOf u.node.path := by
  obtain ⟨before, after, rfl⟩ := List.append_of_mem hu
  refine ⟨noted classes lines after, ?_⟩
  have hbefore : (r.addAll (noted classes lines before)).entriesOf u.node.path
      = r.entriesOf u.node.path := by
    refine Record.entriesOf_addAll_of_mem fun e he hs => ?_
    obtain ⟨w, hw, he⟩ := mem_noted.1 he
    have howner := owner_of_mem_notes he (hown w (List.mem_append_left _ hw))
    have hne := (List.pairwise_append.1 horder).2.2 w hw u List.mem_cons_self
    exact absurd (hs ▸ howner) hne
  have hsplit : noted classes lines (before ++ u :: after) =
      noted classes lines before ++ ((u.notes classes lines).1 ++ noted classes lines after) :=
    noted_append before (u :: after)
  rw [hsplit, Record.addAll_append, Record.entriesOf_addAll_congr hbefore, Record.addAll_append]

section
variable {us : List Visit} (horder : us.Pairwise fun u w => u.owner ≠ some w.node.path)
  (hown : ∀ u ∈ us, u.isStatement classes = true → u.owner = some u.node.path) {u : Visit}
  (hu : u ∈ us) (r : Record)
include horder hown hu

theorem exists_perm_lines :
    ∃ new, ((r.addAll (noted classes lines us)).lines u.node.path).Perm
      (new ++ (r.addAll (u.notes classes lines).1).lines u.node.path) := by
  obtain ⟨later, hlater⟩ := @exists_later classes lines us horder hown u hu r
  obtain ⟨new, hnew⟩ :=
    (r.addAll (u.notes classes lines).1).exists_entriesOf_addAll u.node.path later
  refine ⟨new.map (·.2), ?_⟩
  rw [Record.lines_eq, Record.lines_eq, hlater, hnew, List.map_append]
  refine (List.mergeSort_perm _ _).trans (List.Perm.append_left _ ?_)
  exact (List.mergeSort_perm _ _).symm

/-- If no line comes later, the lines are those of the node's own entries. -/
theorem lines_noted_eq
    (h : ∀ k ∈ (r.addAll (noted classes lines us)).lines u.node.path,
      k ∈ (r.addAll (u.notes classes lines).1).lines u.node.path) :
    (r.addAll (noted classes lines us)).lines u.node.path
      = (r.addAll (u.notes classes lines).1).lines u.node.path := by
  obtain ⟨later, hlater⟩ := @exists_later classes lines us horder hown u hu r
  rw [Record.lines_eq, hlater, Record.entriesOf_addAll_of_mem, ← Record.lines_eq]
  rintro ⟨_, k⟩ he rfl
  have hrecorded : (u.node.path, k) ∈
      (r.addAll (noted classes lines us)).entriesOf u.node.path := by
    rw [hlater]
    exact Record.mem_entriesOf.2 ⟨Record.mem_addAll.2 (.inr he), rfl⟩
  exact Record.mem_lines.1 (h k (Record.mem_lines.2 (Record.mem_entriesOf.1 hrecorded).1))

end

/-- Statements show the same at first and in the end just if nothing came later. -/
theorem render_eq_iff {pieces : List Piece} (r : Record)
    (horder : (visits pieces).Pairwise fun u w => u.owner ≠ some w.node.path)
    (hown : ∀ u ∈ visits pieces, u.isStatement classes = true → u.owner = some u.node.path)
    (hheads : ∀ u ∈ visits pieces, u.isStatement classes = true →
      heads u.node.path = (r.addAll (u.notes classes lines).1).lines u.node.path) :
    render classes lines heads pieces =
        render classes lines (r.addAll (noted classes lines (visits pieces))).lines pieces ↔
      ∀ u ∈ visits pieces, u.isStatement classes = true →
        ∀ k ∈ (r.addAll (noted classes lines (visits pieces))).lines u.node.path,
          k ∈ heads u.node.path := by
  have hextends : Extends classes heads (r.addAll (noted classes lines (visits pieces))).lines
      (visits pieces) := by
    intro u hu hstmt
    rw [hheads u hu hstmt]
    exact exists_perm_lines horder hown hu r
  constructor
  · intro heq u hu hstmt k hk
    obtain ⟨new, hnew⟩ := hextends u hu hstmt
    have hlength := @length_render_add_le _ lines _ _ _ hextends u hu hstmt new hnew
    -- texts of one length leave no room for another line
    have hnil : new = [] := by
      rw [heq] at hlength
      exact List.eq_nil_of_length_eq_zero (by omega)
    rw [hnil] at hnew
    exact hnew.subset hk
  · intro hall
    refine render_congr fun u hu hstmt => ?_
    have hlines := hall u hu hstmt
    rw [hheads u hu hstmt] at hlines ⊢
    exact (lines_noted_eq horder hown hu r hlines).symm

/-- The page of a file, where `heads` gives the lines of each statement. -/
def pageText (classes : List ClassInfo) (lines : List String) (heads : Path → List Int)
    (name : String) (pieces : List Piece) : String :=
  pageHead ++ name ++ "</h4>\n    " ++ render classes lines heads pieces ++ "\n  </body>\n</html>"

theorem pageText_eq_iff {heads' : Path → List Int} {name : String} {pieces : List Piece} :
    pageText classes lines heads name pieces = pageText classes lines heads' name pieces ↔
      render classes lines heads pieces = render classes lines heads' pieces := by
  have hinj : ∀ a b text text' : String, a ++ text ++ b = a ++ text' ++ b ↔ text = text' := by
    simp
  exact hinj _ _ _ _

namespace Viewer

theorem classes_of_page {v v' : Viewer} {name html : String}
    (h : v.page name = (.ok html, v')) : ∃ classes, Language.classesOf v.version = .ok classes := by
  cases hversion : Language.classesOf v.version with
  | ok classes => exact ⟨classes, rfl⟩
  | error f =>
    rw [page, loadClasses] at h
    simp only [hversion] at h
    cases h

theorem template_of_page {v v' : Viewer} {name html : String}
    (hversion : Language.classesOf v.version = .ok classes)
    (h : v.page name = (.ok html, v')) :
    ∃ pieces, template classes .root none v.tree = some pieces := by
  rw [page_of_loaded hversion, run_filePage] at h
  obtain ⟨table, r, htable, -, -⟩ := h
  cases htemplate : template classes .root none v.tree with
  | some pieces => exact ⟨pieces, rfl⟩
  | none =>
    have hshows := @treePage_shows classes v.record.lines ⟨v.press.lines, some classes, true⟩ rfl
      rfl v.tree .root none v.record (by rw [htemplate]; exact nofun) table r
    obtain ⟨us, hus, -⟩ := hshows.1 htable
    rw [htemplate] at hus
    cases hus

/-- The page, where the lines of the statements are known beforehand. -/
theorem page_ok_iff {v v' : Viewer} {name html : String} {pieces : List Piece}
    (hversion : Language.classesOf v.version = .ok classes)
    (htemplate : template classes .root none v.tree = some pieces)
    (hheads : Foretells classes v.press.lines heads v.record (visits pieces)) :
    v.page name = (.ok html, v') ↔ Ready classes v.press.lines heads (visits pieces) ∧
      html = pageText classes v.press.lines heads name pieces ∧
      v' = { v with
        press := ⟨v.press.lines, some classes, true⟩
        record := v.record.addAll (noted classes v.press.lines (visits pieces)) } := by
  have hshows := @treePage_shows classes heads ⟨v.press.lines, some classes, true⟩ rfl rfl v.tree
    .root none v.record
  rw [htemplate] at hshows
  have htable := hshows fun us hus => Option.some.inj hus ▸ hheads
  rw [page_of_loaded hversion, run_filePage]
  constructor
  · rintro ⟨table, r, hrun, rfl, rfl⟩
    obtain ⟨_, ⟨⟩, hready, rfl, rfl⟩ := (htable table r).1 hrun
    exact ⟨hready, rfl, rfl⟩
  · rintro ⟨hready, rfl, rfl⟩
    exact ⟨_, _, (htable _ _).2 ⟨_, rfl, hready, rfl, rfl⟩, rfl, rfl⟩

/-- A page on which all nodes have been noted before. -/
theorem page_again_iff {v v' : Viewer} {name html : String} {pieces : List Piece}
    (hversion : Language.classesOf v.version = .ok classes)
    (hpress : v.press = ⟨lines, some classes, true⟩)
    (htemplate : template classes .root none v.tree = some pieces)
    (hfound : ∀ u ∈ visits pieces, (u.notes classes lines).2 = true)
    (hnoted : ∀ e ∈ noted classes lines (visits pieces), e ∈ v.record.entries) :
    v.page name = (.ok html, v') ↔
      (∀ u ∈ visits pieces, u.isStatement classes = true →
        ∀ k ∈ v.record.lines u.node.path, (lineAt? lines k).isSome) ∧
      html = pageText classes lines v.record.lines name pieces ∧ v' = v := by
  obtain rfl : lines = v.press.lines := by rw [hpress]
  rw [page_ok_iff hversion htemplate (foretells_of_noted hnoted), Record.addAll_of_mem hnoted,
    ← hpress]
  refine and_congr_left fun _ => ⟨fun h u hu => (h u hu).2, fun h u hu => ⟨hfound u hu, h u hu⟩⟩

/-- **Pages one after the other.**  Let a page be written.  It has a gap for each of its nodes, and
    each node adds its entries to the record of its nearest statement.  On this page a statement
    shows what was recorded for it before and its own lines.  A second page succeeds just if all
    lines recorded for the statements are in the source; it shows them all, and changes nothing.
    It is the same page just if every line recorded for a statement was shown at first. -/
theorem page_repeats_iff {v v' : Viewer} {name html : String}
    (hpage : v.page name = (.ok html, v')) :
    ∃ classes pieces, Language.classesOf v.version = .ok classes ∧
      template classes .root none v.tree = some pieces ∧
      (∀ u ∈ visits pieces, u.owner = nearestStatement? classes v.tree u.node.path ∧
        ∃ fields, v.tree.get? u.node.path = some (.node u.node.cls u.node.places fields)) ∧
      (∀ s k, k ∈ v'.record.lines s ↔ k ∈ v.record.lines s ∨ ∃ u ∈ visits pieces,
        Notes classes v.press.lines u.node.cls u.node.places u.node.path u.owner (s, k)) ∧
      html = pageText classes v.press.lines (headLines v.press.lines v.record v.tree) name pieces ∧
      (∀ u ∈ visits pieces, u.isStatement classes = true → ∀ k,
        k ∈ headLines v.press.lines v.record v.tree u.node.path ↔
          k ∈ v.record.lines u.node.path ∨ Notes classes v.press.lines u.node.cls u.node.places
            u.node.path (some u.node.path) (u.node.path, k)) ∧
      (∀ html' w, v'.page name = (.ok html', w) ↔
        (∀ u ∈ visits pieces, u.isStatement classes = true →
          ∀ k ∈ v'.record.lines u.node.path, (lineAt? v.press.lines k).isSome) ∧
        html' = pageText classes v.press.lines v'.record.lines name pieces ∧ w = v') ∧
      ((∃ w, v'.page name = (.ok html, w)) ↔
        ∀ u ∈ visits pieces, u.isStatement classes = true → ∀ k ∈ v'.record.lines u.node.path,
          k ∈ headLines v.press.lines v.record v.tree u.node.path) := by
  obtain ⟨classes, hversion⟩ := classes_of_page hpage
  obtain ⟨pieces, htemplate⟩ := template_of_page hversion hpage
  have horder : (visits pieces).Pairwise fun u w => u.owner ≠ some w.node.path :=
    pairwise_visits (nodup_order_of_classesOf hversion) v.tree (fun _ ho => by cases ho)
      htemplate
  have hown : ∀ u ∈ visits pieces, u.isStatement classes = true → u.owner = some u.node.path :=
    fun u hu hstmt => owner_of_isStatement htemplate hu hstmt
  have hheads : ∀ u ∈ visits pieces, u.isStatement classes = true →
      headLines v.press.lines v.record v.tree u.node.path =
        (v.record.addAll (u.notes classes v.press.lines).1).lines u.node.path :=
    fun u hu hstmt => headLines_eq htemplate v.record hu hstmt
  obtain ⟨hready, rfl, rfl⟩ := (page_ok_iff hversion htemplate
    (foretells_of_pairwise horder hown hheads fun _ _ => rfl)).1 hpage
  have hfound : ∀ u ∈ visits pieces, (u.notes classes v.press.lines).2 = true :=
    fun u hu => (hready u hu).1
  have hagain : ∀ html' w, _ := fun html' w => @page_again_iff classes v.press.lines
    { v with
      press := ⟨v.press.lines, some classes, true⟩
      record := v.record.addAll (noted classes v.press.lines (visits pieces)) }
    w name html' pieces hversion rfl htemplate hfound fun e he => Record.mem_addAll.2 (.inr he)
  refine ⟨classes, pieces, hversion, htemplate, fun u hu => visit_of_root htemplate hu,
    fun s k => ?_, rfl, fun u hu hstmt k => ?_, hagain, ?_⟩
  · rw [Record.mem_lines, Record.mem_addAll, ← Record.mem_lines, mem_noted]
    refine or_congr_right (exists_congr fun u => and_congr_right fun hu => ?_)
    exact mem_nodeNotes_iff (hfound u hu)
  · rw [hheads u hu hstmt, Record.mem_lines, Record.mem_addAll, ← Record.mem_lines,
      ← hown u hu hstmt]
    exact or_congr_right (mem_nodeNotes_iff (hfound u hu))
  · have hsame := render_eq_iff v.record horder hown hheads
    constructor
    · rintro ⟨w, hw⟩
      exact hsame.1 (pageText_eq_iff.1 ((hagain _ w).1 hw).2.1)
    · intro hall
      refine ⟨_, (hagain _ _).2 ⟨fun u hu hstmt k hk => ?_, ?_, rfl⟩⟩
      · exact (hready u hu).2 hstmt k (hall u hu hstmt k hk)
      · exact pageText_eq_iff.2 (hsame.2 hall)

/-- An expression over two lines, the only statement of a module. -/
def twoLineSample : Tree :=
  .node "Module" [] [("body", .list [
    .node "Expr" [1, 0] [("value", .node "Num" [2, 1] [("n", .leaf (.int 1))])]])]

/-- Its source. -/
def twoLineSource : List String := ["(\n", " 1)\n"]

/-- Where its statement stands. -/
def twoLinePath : Path := ⟨[.item 0, .field "body"]⟩

theorem statements_twoLineSample {pieces : List Piece}
    (h : template (Language.classes .v34) .root none twoLineSample = some pieces) :
    ((visits pieces).filter (·.isStatement (Language.classes .v34))).map (·.node.path)
      = [twoLinePath] := by
  have hvisits : (template (Language.classes .v34) .root none twoLineSample).map
      (fun pieces => ((visits pieces).filter (·.isStatement (Language.classes .v34))).map
        (·.node.path)) = some [twoLinePath] := by decide +kernel
  rw [h] at hvisits
  exact Option.some.inj hvisits

/-- The first page of the sample shows line 1 only, and so differs from the second one. -/
theorem page_twoLineSample : ∃ html html' v,
    (Viewer.of twoLineSample twoLineSource ["3", "4"]).page "m.py" = (.ok html, v) ∧
    headLines twoLineSource .empty twoLineSample twoLinePath = [1] ∧
    2 ∈ v.record.lines twoLinePath ∧ v.page "m.py" = (.ok html', v) ∧ html ≠ html' := by
  have hversion : Language.classesOf ["3", "4"] = .ok (Language.classes .v34) := by cbv
  have hrun : ((Viewer.of twoLineSample twoLineSource ["3", "4"]).page "m.py").1.isOk = true := by
    decide +kernel
  have hentries : ((Viewer.of twoLineSample twoLineSource ["3", "4"]).page "m.py").2.record.entries
      = [(twoLinePath, 2), (twoLinePath, 1)] := by decide +kernel
  have hhead : headLines twoLineSource .empty twoLineSample twoLinePath = [1] := by decide +kernel
  obtain ⟨html, v, hpage⟩ : ∃ html v,
      (Viewer.of twoLineSample twoLineSource ["3", "4"]).page "m.py" = (.ok html, v) := by
    generalize (Viewer.of twoLineSample twoLineSource ["3", "4"]).page "m.py" = result at hrun
    obtain ⟨_ | html, v⟩ := result
    · cases hrun
    · exact ⟨html, v, rfl⟩
  rw [hpage] at hentries
  have hlines : ∀ k, k ∈ v.record.lines twoLinePath ↔ k = 2 ∨ k = 1 := by
    intro k
    rw [Record.mem_lines, hentries]
    simp
  obtain ⟨classes, pieces, hclasses, htemplate, -, -, -, -, hlater, hrepeats⟩ :=
    page_repeats_iff hpage
  obtain rfl : Language.classes .v34 = classes := Except.ok.inj (hversion.symm.trans hclasses)
  have hstatements : ∀ p, (∃ u ∈ visits pieces, u.isStatement (Language.classes .v34) = true ∧
      u.node.path = p) ↔ p = twoLinePath := by
    intro p
    rw [← List.mem_singleton, ← statements_twoLineSample htemplate]
    simp [and_assoc]
  have hsecond : v.page "m.py" = (.ok (pageText (Language.classes .v34) twoLineSource v.record.lines
      "m.py" pieces), v) := by
    refine (hlater _ v).2 ⟨fun u hu hstmt k hk => ?_, rfl, rfl⟩
    rw [(hstatements _).1 ⟨u, hu, hstmt, rfl⟩, hlines] at hk
    rcases hk with rfl | rfl
    · decide
    · decide
  refine ⟨html, _, v, hpage, hhead, (hlines 2).2 (.inl rfl), hsecond, fun heq => ?_⟩
  obtain ⟨u, hu, hstmt, hpath⟩ := (hstatements twoLinePath).2 rfl
  have hshown : 2 ∈ headLines twoLineSource .empty twoLineSample u.node.path :=
    hrepeats.1 ⟨v, heq ▸ hsecond⟩ u hu hstmt 2 (hpath ▸ (hlines 2).2 (.inl rfl))
  rw [hpath, hhead] at hshown
  exact absurd hshown (by decide)

end Viewer

end SourceScribe.Page
