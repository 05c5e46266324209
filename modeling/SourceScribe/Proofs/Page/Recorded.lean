/-
  The lines recorded for each statement.

  A node adds its line to the nearest statement around it, itself included
  (`nearestStatement?`), and a statement whose column is -1 adds the lines of the string that
  ends there (`InString`).  `Adds` says which entries all the nodes of a tree add, and
  `treePage_settles` that the table of a tree settles on them.  The record after a first page
  is therefore known from the tree alone, and every later page leaves it as it is
  (`lines_after_page`).
-/
import Mathlib
import SourceScribe.Page.Viewer
import SourceScribe.Proofs.Page.Settling
import SourceScribe.Proofs.Tree.Lookup

namespace SourceScribe.Page

open SourceScribe.Language (ClassInfo)

section
variable (classes : List ClassInfo) (lines : List String)

/-! ## Statements and their lines -/

/-- Whether a class is one of statements. -/
def isStatementClass (cls : String) : Bool :=
  (classes.find? (·.name = cls)).any (·.category = "stmt")

/-- Whether a tree is a statement. -/
def isStatement : Tree → Bool
  | .node cls _ _ => isStatementClass classes cls
  | _ => false

/-- The nearest statement on the way up from the place that the steps lead to, below the
    tree `t` at `path`; `outer` is the one around that tree. -/
def ownerAt? (t : Tree) (path : Path) (outer : Option Path) : List Step → Option Path
  | [] => if isStatement classes t then some path else outer
  | s :: up =>
    if (t.follow? (s :: up)).any (isStatement classes) then some ⟨s :: up ++ path.steps⟩
    else ownerAt? t path outer up

/-- The nearest statement at a place or above it. -/
def nearestStatement? (t : Tree) (p : Path) : Option Path :=
  ownerAt? classes t .root none p.steps

/-- Line `k` is the line of a node whose nearest statement is the one at `s`, or of the
    string that ends with that statement. -/
def Belongs (t : Tree) (s : Path) (k : Int) : Prop :=
  (∃ p cls places fields, t.get? p = some (.node cls (k :: places) fields) ∧
    nearestStatement? classes t p = some s) ∨
  ∃ cls line places fields, t.get? s = some (.node cls (line :: -1 :: places) fields) ∧
    isStatementClass classes cls = true ∧ InString lines line k

mutual

/-- Whether the class of every node is known and lists the node's fields, and its line is
    one of the first `count`. -/
def isRegular (count : Nat) : Tree → Bool
  | .leaf _ => true
  | .list items => isRegularItems count items
  | .node cls places fields =>
    (classes.find? (·.name = cls)).any (fun info => fields.all fun f => info.order.contains f.1)
      && places.head?.all (fun line : Int => 1 ≤ line && line ≤ count)
      && isRegularFields count fields

/-- Every field of a node is so. -/
def isRegularFields (count : Nat) : List (String × Tree) → Bool
  | [] => true
  | (_, t) :: fields => isRegular count t && isRegularFields count fields

/-- Every item of a list is so. -/
def isRegularItems (count : Nat) : List Tree → Bool
  | [] => true
  | t :: items => isRegular count t && isRegularItems count items

end

/-! ## The entries that a tree adds -/

/-- The entries that a node at `path` adds; `owner` is its nearest statement. -/
def Notes (cls : String) (places : List Int) (path : Path) (owner : Option Path) (e : Entry) :
    Prop :=
  (places.head? = some e.2 ∧ owner = some e.1) ∨
  (isStatementClass classes cls = true ∧ e.1 = path ∧
    ∃ line rest, places = line :: -1 :: rest ∧ InString lines line e.2)

/-- The entries that the nodes of a tree at `path` add; `outer` is the statement around
    it. -/
def Adds (t : Tree) (path : Path) (outer : Option Path) (e : Entry) : Prop :=
  ∃ q cls places fields, t.follow? q = some (.node cls places fields) ∧
    Notes classes lines cls places ⟨q ++ path.steps⟩ (ownerAt? classes t path outer q) e

end

variable {classes : List ClassInfo} {lines : List String}

theorem ownerAt?_cons (t : Tree) (path : Path) (outer : Option Path) (s : Step) (up : List Step) :
    ownerAt? classes t path outer (s :: up)
      = if (t.follow? (s :: up)).any (isStatement classes) then some ⟨s :: up ++ path.steps⟩
        else ownerAt? classes t path outer up := rfl

theorem ownerAt?_concat {t u : Tree} {s : Step} (h : t.step? s = some u) (path : Path)
    (outer : Option Path) (q : List Step) :
    ownerAt? classes t path outer (q ++ [s])
      = ownerAt? classes u ⟨s :: path.steps⟩ (ownerAt? classes t path outer []) q := by
  induction q with
  | nil =>
    have hfollow : t.follow? [s] = some u := h
    rw [List.nil_append, ownerAt?_cons, hfollow]
    rfl
  | cons x q ih =>
    have hfollow : t.follow? (x :: q ++ [s]) = u.follow? (x :: q) := by
      rw [Tree.follow?_concat, h]
      rfl
    rw [List.cons_append, ownerAt?_cons, ← List.cons_append, hfollow, ih, ownerAt?_cons,
      List.append_assoc]
    rfl

theorem nearestStatement?_isStatement {t : Tree} {s : Path} :
    ∀ {steps : List Step}, ownerAt? classes t .root none steps = some s →
      (t.get? s).any (isStatement classes) = true
  | [], h => by
    rw [ownerAt?] at h
    split at h
    · rename_i hst
      cases h
      exact hst
    · cases h
  | x :: up, h => by
    rw [ownerAt?] at h
    split at h
    · rename_i hst
      cases h
      simpa [Tree.get?, Path.root] using hst
    · exact nearestStatement?_isStatement h

/-- What a tree adds, from what stands one step below it. -/
theorem adds_iff {t : Tree} {path : Path} {outer : Option Path} {e : Entry} :
    Adds classes lines t path outer e ↔
      (∃ cls places fields, t = .node cls places fields ∧
        Notes classes lines cls places path (ownerAt? classes t path outer []) e) ∨
      ∃ s u, t.step? s = some u ∧
        Adds classes lines u ⟨s :: path.steps⟩ (ownerAt? classes t path outer []) e := by
  constructor
  · rintro ⟨q, cls, places, fields, hnode, hnotes⟩
    -- the first step down is the last of the list
    rcases List.eq_nil_or_concat q with rfl | ⟨q, s, rfl⟩
    · exact .inl ⟨cls, places, fields, Option.some.inj hnode, hnotes⟩
    · rw [List.concat_eq_append] at hnode hnotes
      rw [Tree.follow?_concat, Option.bind_eq_some_iff] at hnode
      obtain ⟨u, hstep, hnode⟩ := hnode
      rw [ownerAt?_concat hstep, List.append_assoc] at hnotes
      exact .inr ⟨s, u, hstep, q, cls, places, fields, hnode, hnotes⟩
  · rintro (⟨cls, places, fields, rfl, hnotes⟩ |
      ⟨s, u, hstep, q, cls, places, fields, hnode, hnotes⟩)
    · exact ⟨[], cls, places, fields, rfl, hnotes⟩
    · refine ⟨q ++ [s], cls, places, fields, ?_, ?_⟩
      · rw [Tree.follow?_concat, hstep]
        exact hnode
      · rw [ownerAt?_concat hstep, List.append_assoc]
        exact hnotes

theorem not_adds_leaf {v : Scalar} {path : Path} {outer : Option Path} {e : Entry} :
    ¬ Adds classes lines (.leaf v) path outer e := by
  rw [adds_iff]
  rintro (⟨_, _, _, h, _⟩ | ⟨s, _, h, _⟩)
  · cases h
  · cases s <;> cases h

theorem adds_node {cls : String} {places : List Int} {fields : List (String × Tree)} {path : Path}
    {outer : Option Path} {e : Entry} :
    let owner := if isStatementClass classes cls then some path else outer
    Adds classes lines (.node cls places fields) path outer e ↔
      Notes classes lines cls places path owner e ∨
      ∃ name u, fields.lookup name = some u ∧ Adds classes lines u (path.field name) owner e := by
  rw [adds_iff]
  refine or_congr ⟨?_, ?_⟩ ⟨?_, ?_⟩
  · rintro ⟨_, _, _, h, hnotes⟩
    cases h
    exact hnotes
  · exact fun hnotes => ⟨cls, places, fields, rfl, hnotes⟩
  · rintro ⟨s, u, hstep, hadds⟩
    cases s with
    | field name => exact ⟨name, u, hstep, hadds⟩
    | item i => cases hstep
  · exact fun ⟨name, u, hstep, hadds⟩ => ⟨.field name, u, hstep, hadds⟩

/-- The entries that the items of a list add, the first of them at index `i`. -/
def AddsItems (classes : List ClassInfo) (lines : List String) (path : Path) (owner : Option Path)
    (i : Nat) (items : List Tree) (e : Entry) : Prop :=
  ∃ j t, (Tree.list items).step? (.item j) = some t ∧
    Adds classes lines t (path.item (i + j)) owner e

theorem adds_list {items : List Tree} {path : Path} {outer : Option Path} {e : Entry} :
    Adds classes lines (.list items) path outer e ↔
      AddsItems classes lines path outer 0 items e := by
  rw [adds_iff]
  constructor
  · rintro (⟨_, _, _, h, _⟩ | ⟨s, u, hstep, hadds⟩)
    · cases h
    · cases s with
      | field name => cases hstep
      | item i => exact ⟨i, u, hstep, (Nat.zero_add i).symm ▸ hadds⟩
  · rintro ⟨i, u, hstep, hadds⟩
    exact .inr ⟨.item i, u, hstep, Nat.zero_add i ▸ hadds⟩

theorem addsItems_cons {path : Path} {owner : Option Path} {i : Nat} {t : Tree}
    {items : List Tree} {e : Entry} :
    AddsItems classes lines path owner i (t :: items) e ↔
      ((∀ inner, t ≠ .list inner) ∧ Adds classes lines t (path.item i) owner e) ∨
      AddsItems classes lines path owner (i + 1) items e := by
  simp only [AddsItems, Tree.step?_item]
  constructor
  · rintro ⟨j, u, ⟨hu, hlist⟩, hadds⟩
    cases j with
    | zero =>
      cases hu
      exact .inl ⟨hlist, hadds⟩
    | succ j => exact .inr ⟨j, u, ⟨hu, hlist⟩, Nat.add_right_comm i j 1 ▸ hadds⟩
  · rintro (⟨hlist, hadds⟩ | ⟨j, u, ⟨hu, hlist⟩, hadds⟩)
    · exact ⟨0, t, ⟨rfl, hlist⟩, hadds⟩
    · exact ⟨j + 1, u, ⟨hu, hlist⟩, Nat.add_right_comm i j 1 ▸ hadds⟩

theorem belongs_iff_adds {t : Tree} {s : Path} {k : Int} :
    Belongs classes lines t s k ↔ Adds classes lines t .root none (s, k) := by
  constructor
  · rintro (⟨p, cls, places, fields, hnode, hs⟩ | ⟨cls, line, places, fields, hnode, hst, hk⟩)
    · exact ⟨p.steps, cls, k :: places, fields, hnode, .inl ⟨rfl, hs⟩⟩
    · have hroot : s = ⟨s.steps ++ Path.root.steps⟩ := by simp [Path.root]
      exact ⟨s.steps, cls, line :: -1 :: places, fields, hnode,
        .inr ⟨hst, hroot, line, places, rfl, hk⟩⟩
  · rintro ⟨q, cls, places, fields, hnode, ⟨hline, hs⟩ | ⟨hst, rfl, line, rest, rfl, hk⟩⟩
    · obtain ⟨rest, rfl⟩ := List.head?_eq_some_iff.1 hline
      exact .inl ⟨⟨q⟩, cls, rest, fields, hnode, hs⟩
    · refine .inr ⟨cls, line, rest, fields, ?_, hst, hk⟩
      simpa [Tree.get?, Path.root] using hnode

theorem belongs_isStatement {t : Tree} {s : Path} {k : Int} (h : Belongs classes lines t s k) :
    (t.get? s).any (isStatement classes) = true := by
  rcases h with ⟨p, _, _, _, _, hs⟩ | ⟨cls, line, places, fields, hnode, hst, _⟩
  · exact nearestStatement?_isStatement hs
  · rw [hnode]
    exact hst

/-! ## The table of a tree -/

theorem isRegular_of_mem_fields {count : Nat} {fields : List (String × Tree)}
    (h : isRegularFields classes count fields = true) :
    ∀ f ∈ fields, isRegular classes count f.2 = true := by
  refine Tree.forall_mem_of_check (fun f fields h => ?_) h
  rwa [isRegularFields, Bool.and_eq_true] at h

theorem isRegular_of_mem_items {count : Nat} {items : List Tree}
    (h : isRegularItems classes count items = true) :
    ∀ t ∈ items, isRegular classes count t = true := by
  refine Tree.forall_mem_of_check (fun t items h => ?_) h
  rwa [isRegularItems, Bool.and_eq_true] at h

theorem lookup_fieldPages (press : Press) (path : Path) (name : String)
    (fields : List (String × Tree)) : (fieldPages press path fields).lookup name
      = (fields.lookup name).map (treePage press (path.field name)) :=
  Tree.lookup_of_fieldwise (f := fun name => treePage press (path.field name)) (by rw [fieldPages])
    (fun _ _ _ => by rw [fieldPages]) fields name

theorem noteNode_settles {press : Press} {cls : String} {path : Path} {owner : Option Path}
    {places : List Int}
    (hplaces : ∀ line ∈ places.head?, 1 ≤ line ∧ line ≤ press.lines.length) :
    Settles press.lines (Notes classes press.lines cls places path owner)
      (noteNode press path owner (isStatementClass classes cls) places) := by
  cases places with
  | nil => exact (settles_pure ()).congr fun e => by simp [Notes]
  | cons line places =>
    have hline : (lineAt? press.lines line).isSome :=
      lineAt?_isSome (hplaces line rfl).1 (hplaces line rfl).2
    have hstring := ((noteString_settles press.lines path line).when
        (isStatementClass classes cls && places.head? = some (-1))).congr
      (B := fun e => isStatementClass classes cls = true ∧ e.1 = path ∧
        places.head? = some (-1) ∧ InString press.lines line e.2)
      fun e => by rw [Bool.and_eq_true, decide_eq_true_eq]; tauto
    have hcolumn : ∀ e : Entry, (∃ first rest, line :: places = first :: -1 :: rest ∧
        InString press.lines first e.2) ↔
          places.head? = some (-1) ∧ InString press.lines line e.2 := by
      intro e
      rw [List.head?_eq_some_iff]
      constructor
      · rintro ⟨_, rest, ⟨⟩, hk⟩
        exact ⟨⟨rest, rfl⟩, hk⟩
      · rintro ⟨⟨rest, rfl⟩, hk⟩
        exact ⟨line, rest, rfl, hk⟩
    cases owner with
    | none =>
      refine hstring.congr fun e => ?_
      rw [Notes, hcolumn]
      simp
    | some s =>
      refine ((note_settles hline).andThen hstring).congr fun e => ?_
      rw [Notes, hcolumn, Prod.ext_iff, List.head?_cons, Option.some.injEq, Option.some.injEq,
        @eq_comm _ s, @eq_comm _ line, and_comm]

/-- Looking a class up and checking the layout do nothing where both are loaded. -/
theorem nodeTable_eq {press : Press} {cls : String} {info : ClassInfo}
    (hclasses : press.classes = some classes) (hlayout : press.layout = true)
    (hinfo : classes.find? (·.name = cls) = some info) (path : Path) (places : List Int)
    (fields : List (String × (Option Path → Writing String))) (outer : Option Path) :
    nodeTable press path cls places fields outer = (do
      let owner := if isStatementClass classes cls then some path else outer
      noteNode press path owner (isStatementClass classes cls) places
      let source ← (if isStatementClass classes cls then statementLines press.lines path
        else pure "")
      let rows ← fieldRows owner fields info.order
      return tableHead info.category cls places ++ source
        ++ "       </table>\n       <table>\n         " ++ rows
        ++ "       </table>\n     </div>\n") := by
  have hclass : classInfo press cls = pure info := by simp [classInfo, hclasses, hinfo]
  have hst : isStatementClass classes cls = decide (info.category = "stmt") := by
    rw [isStatementClass, hinfo, Option.any_some]
  rw [nodeTable, hclass, hlayout, hst]
  simp only [pure_bind, Bool.not_true, Bool.false_eq_true, if_false, decide_eq_true_eq]
  split <;> rfl

/-- The table of a node, from what noting the node and writing its fields give. -/
theorem treePage_node_ok {press : Press} {cls : String} {info : ClassInfo} {path : Path}
    {places : List Int} {fields : List (String × Tree)} {outer : Option Path} {r r₁ r₂ : Record}
    {stmt : Bool} (hclasses : press.classes = some classes) (hlayout : press.layout = true)
    (hinfo : classes.find? (·.name = cls) = some info) (hstmt : isStatementClass classes cls = stmt)
    (hnote : noteNode press path (if stmt then some path else outer) stmt places r = .ok () r₁)
    (hshown : r₁.Shown press.lines)
    (hrows : ∃ rows, fieldRows (if stmt then some path else outer) (fieldPages press path fields)
      info.order r₁ = .ok rows r₂) :
    ∃ table, treePage press path (.node cls places fields) outer r = .ok table r₂ := by
  subst hstmt
  have hsource : ∃ source, (if isStatementClass classes cls then statementLines press.lines path
      else pure "" : Writing String) r₁ = .ok source r₁ := by
    split
    · exact statementLines_ok hshown path
    · exact ⟨"", rfl⟩
  obtain ⟨source, hsource⟩ := hsource
  obtain ⟨rows, hrows⟩ := hrows
  rw [treePage, nodeTable_eq hclasses hlayout hinfo]
  exact ⟨_, bind_ok.2 ⟨(), r₁, hnote, bind_ok.2 ⟨source, r₁, hsource,
    bind_ok.2 ⟨rows, r₂, hrows, rfl⟩⟩⟩⟩

/-- An item that is no list is written as the tree that it is. -/
theorem itemPages_cons {press : Press} {path : Path} {owner : Option Path} {i : Nat} {t : Tree}
    {items : List Tree} (hlist : ∀ inner, t ≠ .list inner) :
    itemPages press path owner i (t :: items) = (do
      let cell ← treePage press (path.item i) t owner
      let more ← itemPages press path owner (i + 1) items
      return cell :: more) := by
  rw [itemPages]
  exact hlist

theorem itemPages_settles {press : Press} (path : Path) {owner : Option Path} (items : List Tree)
    (h : ∀ t ∈ items, ∀ p, Settles press.lines (Adds classes press.lines t p owner)
      (treePage press p t owner)) (i : Nat) :
    Settles press.lines (AddsItems classes press.lines path owner i items)
      (itemPages press path owner i items) := by
  induction items generalizing i with
  | nil => exact (settles_pure []).congr fun e => by simp [AddsItems, Tree.step?_item]
  | cons t items ih =>
    have hmore := ih (fun u hu => h u (List.mem_cons_of_mem _ hu)) (i + 1)
    have hfirst := h t List.mem_cons_self (path.item i)
    by_cases hlist : ∃ inner, t = .list inner
    · obtain ⟨inner, rfl⟩ := hlist
      rw [itemPages]
      exact (hmore.map _).congr fun e => by simp [addsItems_cons]
    · rw [not_exists] at hlist
      rw [itemPages_cons hlist]
      exact (hfirst.seq hmore _).congr fun e => by simp [addsItems_cons, hlist]

theorem fieldPages_settles {press : Press} (path : Path) {owner : Option Path}
    {fields : List (String × Tree)}
    (h : ∀ f ∈ fields, ∀ p, Settles press.lines (Adds classes press.lines f.2 p owner)
      (treePage press p f.2 owner)) (order : List String) :
    Settles press.lines
      (fun e => ∃ name ∈ order, ∃ u, fields.lookup name = some u ∧
        Adds classes press.lines u (path.field name) owner e)
      (fieldRows owner (fieldPages press path fields) order) := by
  refine fieldRows_settles (fun name write hwrite => ?_) order
  rw [lookup_fieldPages, Option.map_eq_some_iff] at hwrite
  obtain ⟨u, hu, rfl⟩ := hwrite
  exact (h _ (Tree.mem_of_lookup hu) _).congr fun e => by simp [hu]

theorem isRegular_node {count : Nat} {cls : String} {places : List Int}
    {fields : List (String × Tree)} (h : isRegular classes count (.node cls places fields) = true) :
    ∃ info, classes.find? (·.name = cls) = some info ∧ (∀ f ∈ fields, f.1 ∈ info.order) ∧
      (∀ line ∈ places.head?, 1 ≤ line ∧ line ≤ count) ∧
      ∀ f ∈ fields, isRegular classes count f.2 = true := by
  rw [isRegular, Bool.and_eq_true, Bool.and_eq_true, Option.any_eq_true] at h
  obtain ⟨⟨⟨info, hinfo, horder⟩, hplaces⟩, hfields⟩ := h
  refine ⟨info, hinfo, ?_, ?_, isRegular_of_mem_fields hfields⟩
  · simpa using horder
  · simpa [Option.all_eq_true] using hplaces

/-- The table of a tree adds what its nodes add. -/
theorem treePage_settles {press : Press} (hclasses : press.classes = some classes)
    (hlayout : press.layout = true) (t : Tree) :
    isRegular classes press.lines.length t = true → ∀ path outer, Settles press.lines
      (Adds classes press.lines t path outer) (treePage press path t outer) := by
  induction t using Tree.inductionOn with
  | hleaf v =>
    intro _ path outer
    rw [treePage]
    exact (settles_pure _).congr fun e => (iff_false_intro not_adds_leaf).symm
  | hlist items ih =>
    intro hregular path outer
    rw [isRegular] at hregular
    have hitems := itemPages_settles path items
      (fun t ht p => ih t ht (isRegular_of_mem_items hregular t ht) p outer) 0
    rw [treePage]
    exact (hitems.map _).congr fun e => adds_list.symm
  | hnode cls places fields ih =>
    intro hregular path outer
    obtain ⟨info, hinfo, horder, hplaces, hfields⟩ := isRegular_node hregular
    have hsource : Settles press.lines (fun _ => False)
        (if isStatementClass classes cls then statementLines press.lines path else pure "") := by
      split
      · exact statementLines_settles press.lines path
      · exact settles_pure ""
    have hrows := fieldPages_settles path (fun f hf p => ih f hf (hfields f hf) p
      (if isStatementClass classes cls then some path else outer)) info.order
    rw [treePage, nodeTable_eq hclasses hlayout hinfo]
    refine ((noteNode_settles hplaces).andThen (hsource.seq hrows _)).congr fun e => ?_
    rw [false_or]
    refine Iff.trans (or_congr_right ⟨?_, ?_⟩) adds_node.symm
    · exact fun ⟨name, _, u, hu, hadds⟩ => ⟨name, u, hu, hadds⟩
    · exact fun ⟨name, u, hu, hadds⟩ => ⟨name, horder _ (Tree.mem_of_lookup hu), u, hu, hadds⟩

/-! ## Pages one after the other -/

theorem Record.pairwise_lines {r : Record} (h : r.entries.Nodup) (s : Path) :
    (r.lines s).Pairwise (· < ·) := by
  have hle : (r.lines s).Pairwise fun a b => decide (a ≤ b) = true :=
    List.pairwise_mergeSort (fun a b c hab hbc => by simp at *; omega) (fun a b => by simp; omega) _
  have hne : (r.lines s).Nodup := by
    rw [lines, (List.mergeSort_perm _ _).nodup_iff, List.nodup_iff_pairwise_ne, List.pairwise_map]
    refine (h.filter _).imp_of_mem fun {a b} ha hb hab heq => hab ?_
    simp only [List.mem_filter, decide_eq_true_eq] at ha hb
    exact Prod.ext (ha.2.trans hb.2.symm) heq
  exact (hle.and hne).imp fun h => Int.lt_iff_le_and_ne.2 ⟨of_decide_eq_true h.1, h.2⟩

namespace Viewer

/-- A page with everything loaded, from the writing of the table. -/
theorem page_of_loaded {v : Viewer} (hversion : Language.classesOf v.version = .ok classes)
    (name : String) :
    v.page name = { v with press := ⟨v.press.lines, some classes, true⟩ }.run
      fun press t => filePage press name t := by
  rw [page, loadClasses]
  simp only [hversion]

theorem run_filePage {u v : Viewer} {name html : String} :
    u.run (fun press t => filePage press name t) = (.ok html, v) ↔
      ∃ table r, treePage u.press .root u.tree none u.record = .ok table r ∧
        html = pageHead ++ name ++ "</h4>\n    " ++ table ++ "\n  </body>\n</html>" ∧
        v = { u with record := r } := by
  rw [run]
  cases htable : treePage u.press .root u.tree none u.record with
  | ok table r =>
    have hrun : filePage u.press name u.tree u.record =
        .ok (pageHead ++ name ++ "</h4>\n    " ++ table ++ "\n  </body>\n</html>") r :=
      bind_ok.2 ⟨table, r, htable, rfl⟩
    rw [hrun]
    constructor
    · intro h
      cases h
      exact ⟨table, r, rfl, rfl, rfl⟩
    · rintro ⟨_, _, ⟨⟩, rfl, rfl⟩
      rfl
  | error f r =>
    have hrun : filePage u.press name u.tree u.record = .error f r := by
      show EStateM.bind (treePage u.press .root u.tree none) _ u.record = _
      rw [EStateM.bind, htable]
    rw [hrun]
    constructor
    · exact nofun
    · rintro ⟨_, _, h, _⟩
      cases h

/-- **Lines recorded by pages.**  After a first page of a regular tree, the lines of each
    statement are those of the nodes of which it is the nearest statement and those of the
    string that ends with it, each once; nothing is recorded elsewhere.  Every later page
    succeeds, changes nothing that is recorded or loaded, and depends on the name only. -/
theorem lines_after_page {tree : Tree} {lines version : List String} {name html : String}
    {v : Viewer} (hversion : Language.classesOf version = .ok classes)
    (hregular : isRegular classes lines.length tree = true)
    (hpage : (Viewer.of tree lines version).page name = (.ok html, v)) :
    (∀ s k, k ∈ v.record.lines s ↔ Belongs classes lines tree s k) ∧
    (∀ s, (v.record.lines s).Pairwise (· < ·)) ∧
    (∀ p, (tree.get? p).any (isStatement classes) = false → v.record.lines p = []) ∧
    ∃ later : String → String, ∀ name', v.page name' = (.ok (later name'), v) := by
  rw [page_of_loaded hversion, run_filePage] at hpage
  obtain ⟨table, r, htable, _, rfl⟩ := hpage
  obtain ⟨hshown, hentries, hdistinct, hagain⟩ :=
    treePage_settles rfl rfl tree hregular .root none _ _ _ htable
  have hadds : ∀ e, e ∈ r.entries ↔ Adds classes lines tree .root none e := by
    intro e
    rw [hentries]
    exact or_iff_right List.not_mem_nil
  have hlines : ∀ s k, k ∈ r.lines s ↔ Belongs classes lines tree s k := by
    intro s k
    rw [Record.mem_lines, hadds, belongs_iff_adds]
  refine ⟨hlines, Record.pairwise_lines (hdistinct List.nodup_nil), fun p hp => ?_, ?_⟩
  · refine List.eq_nil_iff_forall_not_mem.2 fun k hk => ?_
    exact Bool.noConfusion (hp.symm.trans (belongs_isStatement ((hlines p k).1 hk)))
  · obtain ⟨again, hrun⟩ := hagain r (fun e he => hshown e ((hadds e).1 he)) fun e => (hadds e).2
    refine ⟨fun name' => pageHead ++ name' ++ "</h4>\n    " ++ again ++ "\n  </body>\n</html>",
      fun name' => ?_⟩
    rw [page_of_loaded hversion, run_filePage]
    exact ⟨again, r, hrun, rfl, rfl⟩

/-- A string over two lines, the only statement of a module. -/
def docstringSample : Tree :=
  .node "Module" [] [("body", .list [
    .node "Expr" [2, -1] [("value", .node "Str" [2, -1] [("s", .leaf (.str "a\n"))])]])]

/-- Its source. -/
def docstringLines : List String := ["\"\"\"a\n", "\"\"\"\n"]

/-- The page of the sample can be written; both lines are recorded for the statement. -/
theorem page_docstringSample : ∃ html v,
    (Viewer.of docstringSample docstringLines ["3", "4"]).page "m.py" = (.ok html, v) ∧
      v.record.entries = [(⟨[.item 0, .field "body"]⟩, 1), (⟨[.item 0, .field "body"]⟩, 2)] := by
  let press : Press := ⟨docstringLines, some (Language.classes .v34), true⟩
  let path : Path := ⟨[.item 0, .field "body"]⟩
  let r : Record := ⟨[(path, 1), (path, 2)]⟩
  have hr : r.Shown docstringLines := by
    simp [Record.Shown, r, docstringLines, lineAt?, Text.signedGet?]
  have hversion : Language.classesOf ["3", "4"] = .ok (Language.classes .v34) := by cbv
  have hstr : (Language.classes .v34).find? (·.name = "Str") = some ⟨"Str", "expr", ["s"]⟩ ∧
      isStatementClass (Language.classes .v34) "Str" = false := by cbv
  have hexpr : (Language.classes .v34).find? (·.name = "Expr") = some ⟨"Expr", "stmt", ["value"]⟩ ∧
      isStatementClass (Language.classes .v34) "Expr" = true := by cbv
  have hmodule :
      (Language.classes .v34).find? (·.name = "Module") = some ⟨"Module", "mod", ["body"]⟩ ∧
      isStatementClass (Language.classes .v34) "Module" = false := by cbv
  have hnote : noteNode press path (some path) true [2, -1] .empty = .ok () r := by cbv
  have hnoteText : noteNode press (path.field "value") (some path) false [2, -1] r = .ok () r := by
    cbv
  obtain ⟨text, htext⟩ : ∃ table, treePage press (path.field "value")
      (.node "Str" [2, -1] [("s", .leaf (.str "a\n"))]) (some path) r = .ok table r :=
    treePage_node_ok rfl rfl hstr.1 hstr.2 hnoteText hr ⟨_, rfl⟩
  obtain ⟨cell, hcell⟩ : ∃ table, treePage press path (.node "Expr" [2, -1]
      [("value", .node "Str" [2, -1] [("s", .leaf (.str "a\n"))])]) none .empty = .ok table r :=
    treePage_node_ok rfl rfl hexpr.1 hexpr.2 hnote hr ⟨_, bind_ok.2 ⟨text, r, htext, rfl⟩⟩
  obtain ⟨table, htable⟩ :
      ∃ table, treePage press .root docstringSample none .empty = .ok table r :=
    treePage_node_ok rfl rfl hmodule.1 hmodule.2 rfl (List.forall_mem_nil _)
      ⟨_, bind_ok.2 ⟨_, r, bind_ok.2 ⟨[cell], r, bind_ok.2 ⟨cell, r, hcell, rfl⟩, rfl⟩, rfl⟩⟩
  exact ⟨_, ⟨docstringSample, ["3", "4"], press, r⟩,
    (page_of_loaded hversion "m.py").trans (run_filePage.2 ⟨table, r, htable, rfl, rfl⟩), rfl⟩

theorem lines_after_docstringSample : ∃ classes html v,
    Language.classesOf ["3", "4"] = .ok classes ∧
    isRegular classes docstringLines.length docstringSample = true ∧
    (Viewer.of docstringSample docstringLines ["3", "4"]).page "m.py" = (.ok html, v) ∧
    (∀ s k, k ∈ v.record.lines s ↔ Belongs classes docstringLines docstringSample s k) ∧
    Belongs classes docstringLines docstringSample ⟨[.item 0, .field "body"]⟩ 1 ∧
    v.record.lines .root = [] ∧
    ∃ later : String → String, ∀ name', v.page name' = (.ok (later name'), v) := by
  have hversion : Language.classesOf ["3", "4"] = .ok (Language.classes .v34) := by cbv
  have hregular :
      isRegular (Language.classes .v34) docstringLines.length docstringSample = true := by cbv
  obtain ⟨html, v, hpage, hentries⟩ := page_docstringSample
  obtain ⟨hlines, _, helse, hlater⟩ := lines_after_page hversion hregular hpage
  have hfirst : Belongs (Language.classes .v34) docstringLines docstringSample
      ⟨[.item 0, .field "body"]⟩ 1 := by
    rw [← hlines, Record.mem_lines, hentries]
    exact List.mem_cons_self
  exact ⟨_, html, v, hversion, hregular, hpage, hlines, hfirst, helse .root (by cbv), hlater⟩

end Viewer

end SourceScribe.Page
