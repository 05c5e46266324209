/-
  Which lines a statement with a string gets.

  A statement whose column is -1 ends with a string over several lines, and the table of the
  statement searches upwards for the line on which the string starts.  `Grows` says what a step
  of writing may add to the record, whether it succeeds or fails; `treePage_grows`: the table of a
  tree adds no lines but those of its nodes and of the strings of its statements.

  `scan_stays_above_iff`: the lines that the search adds are lines of the source above the
  statement just if one of these begins with a triple quote; else it goes past the first line,
  and on from the end of the source.
-/
import SourceScribe.Proofs.Page.Ascent

namespace SourceScribe.Page

open SourceScribe.Language (ClassInfo)

/-! ## Growing records -/

/-- The record that a step leaves, also if it fails. -/
def recordAfter {α : Type} (m : Writing α) (r : Record) : Record :=
  match m r with
  | .ok _ r' => r'
  | .error _ r' => r'

/-- The step `m` keeps all entries of the record, and adds none but those in `A`. -/
def Grows {α : Type} (A : Entry → Prop) (m : Writing α) : Prop :=
  ∀ r e, (e ∈ r.entries → e ∈ (recordAfter m r).entries) ∧
    (e ∈ (recordAfter m r).entries → e ∈ r.entries ∨ A e)

section
variable {α β : Type} {A B : Entry → Prop}

theorem grows_pure (a : α) : Grows A (pure a : Writing α) :=
  fun _ _ => ⟨id, .inl⟩

theorem grows_throw (f : Fault) : Grows A (throw f : Writing α) :=
  fun _ _ => ⟨id, .inl⟩

theorem Grows.mono {m : Writing α} (hm : Grows A m) (h : ∀ e, A e → B e) : Grows B m :=
  fun r e => ⟨(hm r e).1, fun he => ((hm r e).2 he).imp id (h e)⟩

theorem recordAfter_bind (m : Writing α) (k : α → Writing β) (r : Record) :
    recordAfter (m >>= k) r = match m r with
      | .ok a r₁ => recordAfter (k a) r₁
      | .error _ r₁ => r₁ := by
  show recordAfter (EStateM.bind m k) r = _
  rw [recordAfter, EStateM.bind]
  cases m r <;> rfl

theorem Grows.bind {m : Writing α} {k : α → Writing β} (hm : Grows A m)
    (hk : ∀ a, Grows A (k a)) : Grows A (m >>= k) := by
  intro r e
  have hfirst := hm r e
  rw [recordAfter] at hfirst
  rw [recordAfter_bind]
  cases hrun : m r with
  | error f r₁ => rwa [hrun] at hfirst
  | ok a r₁ =>
    rw [hrun] at hfirst
    have hsecond := hk a r₁ e
    exact ⟨fun he => hsecond.1 (hfirst.1 he), fun he => (hsecond.2 he).elim hfirst.2 .inr⟩

end

theorem lineRows_grows (lines : List String) :
    ∀ numbers, Grows (fun _ => False) (lineRows lines numbers)
  | [] => grows_pure ""
  | number :: numbers => by
    rw [lineRows]
    split
    · exact grows_throw _
    · exact (lineRows_grows lines numbers).bind fun _ => grows_pure _

theorem statementLines_grows (lines : List String) (s : Path) :
    Grows (fun _ => False) (statementLines lines s) :=
  Grows.bind (fun _ _ => ⟨id, .inl⟩) fun _ => (lineRows_grows lines _).bind fun _ => grows_pure _

theorem fieldRows_grows {A : Entry → Prop} {owner : Option Path}
    {fields : List (String × (Option Path → Writing String))}
    (h : ∀ name write, fields.lookup name = some write → Grows A (write owner)) :
    ∀ names, Grows A (fieldRows owner fields names)
  | [] => grows_pure ""
  | name :: names => by
    rw [fieldRows]
    split
    · exact grows_throw _
    · rename_i write hwrite
      exact (h name write hwrite).bind fun _ =>
        (fieldRows_grows h names).bind fun _ => grows_pure _

variable {classes : List ClassInfo}

theorem itemPages_grows {press : Press} {path : Path} {owner : Option Path} {items : List Tree}
    (h : ∀ t ∈ items, ∀ p, Grows (Adds classes press.lines t p owner) (treePage press p t owner))
    (i : Nat) : Grows (AddsItems classes press.lines path owner i items)
      (itemPages press path owner i items) := by
  induction items generalizing i with
  | nil => exact grows_pure []
  | cons t items ih =>
    have hmore : Grows (AddsItems classes press.lines path owner i (t :: items))
        (itemPages press path owner (i + 1) items) :=
      (ih (fun u hu => h u (List.mem_cons_of_mem _ hu)) (i + 1)).mono
        fun e he => addsItems_cons.2 (.inr he)
    have hfirst : (∀ inner, t ≠ .list inner) →
        Grows (AddsItems classes press.lines path owner i (t :: items))
          (treePage press (path.item i) t owner) := fun hlist =>
      (h t List.mem_cons_self (path.item i)).mono fun e he => addsItems_cons.2 (.inl ⟨hlist, he⟩)
    by_cases hlist : ∃ inner, t = .list inner
    · obtain ⟨inner, rfl⟩ := hlist
      rw [itemPages]
      exact hmore.bind fun _ => grows_pure _
    · rw [not_exists] at hlist
      rw [itemPages_cons hlist]
      exact (hfirst hlist).bind fun _ => hmore.bind fun _ => grows_pure _

/-- The table of a node begins with noting it; what follows adds what its fields may add. -/
theorem treePage_node_eq {press : Press} {cls : String} {info : ClassInfo}
    (hclasses : press.classes = some classes) (hinfo : classes.find? (·.name = cls) = some info)
    {path : Path} {outer : Option Path} (places : List Int) {fields : List (String × Tree)}
    {A : Entry → Prop}
    (hfields : ∀ name t, fields.lookup name = some t →
      Grows A (treePage press (path.field name) t (ownerBelow classes cls path outer))) :
    ∃ after : Writing String, Grows A after ∧
      treePage press path (.node cls places fields) outer = (do
        noteNode press path (ownerBelow classes cls path outer) (isStatementClass classes cls)
          places
        after) := by
  have hclass : classInfo press cls = pure info := by simp [classInfo, hclasses, hinfo]
  have hstmt : isStatementClass classes cls = decide (info.category = "stmt") := by
    rw [isStatementClass, hinfo, Option.any_some]
  have hrows : Grows A (fieldRows (ownerBelow classes cls path outer) (fieldPages press path fields)
      info.order) := by
    refine fieldRows_grows (fun name write hwrite => ?_) info.order
    rw [lookup_fieldPages, Option.map_eq_some_iff] at hwrite
    obtain ⟨t, ht, rfl⟩ := hwrite
    exact hfields name t ht
  have hsource : Grows A (statementLines press.lines path) :=
    (statementLines_grows press.lines path).mono fun _ => False.elim
  rw [ownerBelow, hstmt] at hrows ⊢
  rw [treePage, nodeTable, hclass]
  simp only [pure_bind, decide_eq_true_eq] at hrows ⊢
  refine ⟨_, ?_, rfl⟩
  split
  · exact grows_throw _
  · by_cases hst : info.category = "stmt"
    · simp only [hst, if_true] at hrows ⊢
      exact hsource.bind fun _ => hrows.bind fun _ => grows_pure _
    · simp only [hst, if_false] at hrows ⊢
      exact hrows.bind fun _ => grows_pure _

/-- The record after the table of a node: the notes of the node, and what its fields may add. -/
theorem recordAfter_node {press : Press} {cls : String} {info : ClassInfo}
    (hclasses : press.classes = some classes) (hinfo : classes.find? (·.name = cls) = some info)
    {path : Path} {outer : Option Path} (places : List Int) {fields : List (String × Tree)}
    {A : Entry → Prop}
    (hfields : ∀ name t, fields.lookup name = some t →
      Grows A (treePage press (path.field name) t (ownerBelow classes cls path outer)))
    (r : Record) (e : Entry) :
    let noted := r.addAll (nodeNotes press.lines path (ownerBelow classes cls path outer)
      (isStatementClass classes cls) places).1
    let r' := recordAfter (treePage press path (.node cls places fields) outer) r
    (e ∈ noted.entries → e ∈ r'.entries) ∧ (e ∈ r'.entries → e ∈ noted.entries ∨ A e) := by
  obtain ⟨after, hafter, hpage⟩ := treePage_node_eq hclasses hinfo places hfields
  rw [hpage, recordAfter_bind, noteNode_eq]
  generalize nodeNotes press.lines path (ownerBelow classes cls path outer)
    (isStatementClass classes cls) places = notes
  obtain ⟨entries, found⟩ := notes
  cases found with
  | false => exact ⟨id, .inl⟩
  | true => exact hafter _ e

/-- The table of a tree adds nothing but what its nodes add, also if it fails. -/
theorem treePage_grows {press : Press} (hclasses : press.classes = some classes) (t : Tree) :
    ∀ path outer, Grows (Adds classes press.lines t path outer) (treePage press path t outer) := by
  induction t using Tree.inductionOn with
  | hleaf v =>
    intro path outer
    rw [treePage]
    exact grows_pure _
  | hlist items ih =>
    intro path outer
    rw [treePage]
    have hitems : Grows (AddsItems classes press.lines path outer 0 items)
        (itemPages press path outer 0 items) := itemPages_grows (fun t ht p => ih t ht p outer) 0
    exact (hitems.mono fun e he => adds_list.2 he).bind fun _ => grows_pure _
  | hnode cls places fields ih =>
    intro path outer
    cases hinfo : classes.find? (·.name = cls) with
    | none =>
      have hclass : classInfo press cls = throw (.unknownClass cls) := by
        simp [classInfo, hclasses, hinfo]
      rw [treePage, nodeTable, hclass]
      exact grows_throw _
    | some info =>
      intro r e
      have hfields : ∀ name t, fields.lookup name = some t →
          Grows (Adds classes press.lines (.node cls places fields) path outer)
            (treePage press (path.field name) t (ownerBelow classes cls path outer)) :=
        fun name t ht => (ih (name, t) (Tree.mem_of_lookup ht) _ _).mono
          fun e he => adds_node.2 (.inr ⟨name, t, ht, he⟩)
      have hnode := recordAfter_node hclasses hinfo places hfields r e
      refine ⟨fun he => hnode.1 (Record.mem_addAll.2 (.inl he)), fun he => ?_⟩
      rcases hnode.2 he with hnoted | hadds
      · refine (Record.mem_addAll.1 hnoted).imp id fun hnew => adds_node.2 (.inl ?_)
        exact notes_of_mem_nodeNotes hnew
      · exact .inr hadds

/-- If the start of its string is not found, the table of a node fails once the node is noted. -/
theorem treePage_leftSource {press : Press} {cls : String} {info : ClassInfo}
    (hclasses : press.classes = some classes) (hinfo : classes.find? (·.name = cls) = some info)
    {path : Path} {outer : Option Path} {places : List Int} (fields : List (String × Tree))
    (hnotes : (nodeNotes press.lines path (ownerBelow classes cls path outer)
      (isStatementClass classes cls) places).2 = false) (r : Record) :
    treePage press path (.node cls places fields) outer r = .error .leftSource
      (recordAfter (treePage press path (.node cls places fields) outer) r) := by
  have hfields : ∀ name t, fields.lookup name = some t → Grows (fun _ => True)
      (treePage press (path.field name) t (ownerBelow classes cls path outer)) :=
    fun name t _ => (treePage_grows hclasses t _ _).mono fun _ _ => trivial
  obtain ⟨after, -, hpage⟩ := treePage_node_eq hclasses hinfo places hfields
  have hnode := noteNode_eq press path (ownerBelow classes cls path outer)
    (isStatementClass classes cls) places r
  rw [hnotes] at hnode
  have hrun : treePage press path (.node cls places fields) outer r = .error .leftSource
      (r.addAll (nodeNotes press.lines path (ownerBelow classes cls path outer)
        (isStatementClass classes cls) places).1) := by
    rw [hpage]
    show EStateM.bind _ _ r = _
    rw [EStateM.bind, hnode]
    rfl
  rw [recordAfter, hrun]

/-! ## The lines of the search -/

/-- The search for the start of a string that ends on line `n` comes to line `k`, which for a
    number below one is counted back from the end of the source. -/
def Scanned (lines : List String) (n k : Int) : Prop :=
  -(lines.length : Int) ≤ k ∧ InString lines n k

/-- Line `k` is the line of a node that a tree holds. -/
def HoldsLine (t : Tree) (k : Int) : Prop :=
  ∃ q cls places fields, q ≠ [] ∧ t.follow? q = some (.node cls (k :: places) fields)

theorem scanned_within_iff {lines : List String} {n : Int} (hn : 1 ≤ n) :
    (∀ k, Scanned lines n k → 1 ≤ k ∧ k ≤ n) ↔
      ∃ j, 1 ≤ j ∧ j ≤ searchFrom lines n ∧ opensAt lines j = true := by
  constructor
  · intro hall
    refine Classical.byContradiction fun hnone => ?_
    have hzero : Scanned lines n 0 := by
      refine ⟨by omega, by omega, fun j hj hj' => Bool.eq_false_iff.2 fun hopens => ?_⟩
      exact hnone ⟨j, by omega, hj', hopens⟩
    have hone := (hall 0 hzero).1
    omega
  · rintro ⟨j, hj, hj', hopens⟩ k ⟨-, hk, hall⟩
    -- the search does not go past line `j`
    have hjk : j ≤ k := by
      refine Int.not_lt.1 fun hlt => ?_
      exact Bool.noConfusion (hopens.symm.trans (hall j hlt hj'))
    omega

/-- What the nodes in a field of the statement at `path` add to it are their lines. -/
theorem holdsLine_of_adds {lines : List String} {cls name : String} {places : List Int}
    {fields : List (String × Tree)} {t : Tree} {path : Path} {k : Int}
    (ht : fields.lookup name = some t)
    (h : Adds classes lines t (path.field name) (some path) (path, k)) :
    HoldsLine (.node cls places fields) k := by
  obtain ⟨q, cls', places', fields', hnode, ⟨hline, -⟩ | ⟨-, hpath, -⟩⟩ := h
  · obtain ⟨rest, rfl⟩ := List.head?_eq_some_iff.1 hline
    refine ⟨q ++ [.field name], cls', rest, fields', by simp, ?_⟩
    rw [Tree.follow?_concat, Tree.step?, ht]
    exact hnode
  · have hlength := congrArg (·.steps.length) hpath
    simp only [Path.field, List.length_append, List.length_cons] at hlength
    omega

theorem not_found_of_unopened {lines : List String} {n : Int} (hn : (lineAt? lines n).isSome)
    (h : ∀ line ∈ lines, opensString line = false) : (stringNotes lines n).2 = false := by
  rw [Bool.eq_false_iff, ne_eq, stringNotes_found_iff hn]
  rintro ⟨j, -, hopens⟩
  obtain ⟨line, hline, hopens⟩ := (Option.any_eq_true _ _).1 hopens
  refine Bool.noConfusion (hopens.symm.trans (h line ?_))
  rw [lineAt?, Text.signedGet?] at hline
  split at hline
  · exact List.mem_of_getElem? hline
  · split at hline
    · exact List.mem_of_getElem? hline
    · cases hline

/-- A statement with a string adds its own line and those of the search. -/
theorem mem_nodeNotes_string {lines : List String} {cls : String} {line : Int}
    (hstmt : isStatementClass classes cls = true) (hline : (lineAt? lines line).isSome)
    (path : Path) (outer : Option Path) (rest : List Int) (k : Int) :
    (path, k) ∈ (nodeNotes lines path (ownerBelow classes cls path outer)
        (isStatementClass classes cls) (line :: -1 :: rest)).1 ↔
      k = line ∨ Scanned lines line k := by
  have hnotes : nodeNotes lines path (some path) true (line :: -1 :: rest) =
      ((path, line) :: (stringNotes lines line).1.map (path, ·), (stringNotes lines line).2) := rfl
  rw [ownerBelow, hstmt, if_pos rfl, hnotes, Scanned, ← mem_stringNotes_iff hline]
  simp

/-- **The search for the start of a string.**  Let the table of a statement with column -1 be
    written, whose line is one of the source.  The statement gets its line and those to which
    the search comes, and otherwise only lines of nodes that it holds.  The lines of the search
    are all within the source and not below the statement just if a line above, from where the
    search begins, begins with a triple quote.  If no line of the source does, the table fails,
    with all these lines recorded. -/
theorem scan_stays_above_iff {press : Press} (hclasses : press.classes = some classes)
    {cls : String} (hstmt : isStatementClass classes cls = true) {line : Int}
    (hline : 1 ≤ line ∧ line ≤ press.lines.length) (rest : List Int)
    (fields : List (String × Tree)) (path : Path) (outer : Option Path) (r : Record) :
    let t := Tree.node cls (line :: -1 :: rest) fields
    let r' := recordAfter (treePage press path t outer) r
    (∀ k, k = line ∨ Scanned press.lines line k → (path, k) ∈ r'.entries) ∧
    (∀ k, (path, k) ∈ r'.entries → (path, k) ∈ r.entries ∨ k = line ∨
      Scanned press.lines line k ∨ HoldsLine t k) ∧
    ((∀ k, Scanned press.lines line k → 1 ≤ k ∧ k ≤ line) ↔
      ∃ j, 1 ≤ j ∧ j ≤ searchFrom press.lines line ∧ opensAt press.lines j = true) ∧
    ((∀ l ∈ press.lines, opensString l = false) →
      treePage press path t outer r = .error .leftSource r') := by
  intro t r'
  obtain ⟨info, hinfo, -⟩ := (Option.any_eq_true _ _).1 hstmt
  have hsome : (lineAt? press.lines line).isSome := lineAt?_isSome hline.1 hline.2
  have hnoted := mem_nodeNotes_string hstmt hsome path outer rest
  have hfields : ∀ name u, fields.lookup name = some u →
      Grows (fun e => ∃ name u, fields.lookup name = some u ∧
          Adds classes press.lines u (path.field name) (ownerBelow classes cls path outer) e)
        (treePage press (path.field name) u (ownerBelow classes cls path outer)) :=
    fun name u hu => (treePage_grows hclasses u _ _).mono fun e he => ⟨name, u, hu, he⟩
  have hrecord : ∀ k, _ := fun k => recordAfter_node hclasses hinfo (line :: -1 :: rest) hfields r
    (path, k)
  refine ⟨fun k hk => (hrecord k).1 (Record.mem_addAll.2 (.inr ((hnoted k).2 hk))), fun k hk => ?_,
    scanned_within_iff hline.1, fun hnone => treePage_leftSource hclasses hinfo fields ?_ r⟩
  · rcases (hrecord k).2 hk with hadded | ⟨name, u, hu, hadds⟩
    · rcases Record.mem_addAll.1 hadded with hold | hnew
      · exact .inl hold
      · exact .inr (((hnoted k).1 hnew).imp id .inl)
    · rw [ownerBelow, hstmt] at hadds
      exact .inr (.inr (.inr (holdsLine_of_adds hu hadds)))
  · rw [hstmt]
    exact not_found_of_unopened hsome hnone

/-- A string over two lines in apostrophes, and one in quotes after it. -/
def apostropheLines : List String := ["'''a\n", "b''' \\\n", "\"\"\"c\"\"\"\n"]

/-- The search for the start of the first one ends on the last line, which it takes for line 0. -/
theorem scan_apostropheLines :
    let press : Press := ⟨apostropheLines, some (Language.classes .v34), true⟩
    let t := Tree.node "Expr" [2, -1] [("value", .node "Str" [2, -1] [("s", .leaf (.str "a\nbc"))])]
    isStatementClass (Language.classes .v34) "Expr" = true ∧
    (.root, 0) ∈ (recordAfter (treePage press .root t none) .empty).entries ∧
    ¬ ∃ j, 1 ≤ j ∧ j ≤ searchFrom apostropheLines 2 ∧ opensAt apostropheLines j = true := by
  intro press t
  have hstmt : isStatementClass (Language.classes .v34) "Expr" = true := by cbv
  have hclasses : press.classes = some (Language.classes .v34) := rfl
  have hline : (1 : Int) ≤ 2 ∧ (2 : Int) ≤ press.lines.length := by decide
  obtain ⟨hadded, -, hwithin, -⟩ := scan_stays_above_iff hclasses hstmt hline []
    [("value", .node "Str" [2, -1] [("s", .leaf (.str "a\nbc"))])] .root none .empty
  have hfrom : searchFrom apostropheLines 2 = 2 := by decide +kernel
  have hzero : Scanned apostropheLines 2 0 := by
    refine ⟨by decide, by decide, fun j hj hj' => ?_⟩
    rw [hfrom] at hj'
    obtain rfl | rfl : j = 1 ∨ j = 2 := by omega
    · decide +kernel
    · decide +kernel
  exact ⟨hstmt, hadded 0 (.inr hzero), fun hj => absurd (hwithin.2 hj 0 hzero).1 (by decide)⟩

end SourceScribe.Page
