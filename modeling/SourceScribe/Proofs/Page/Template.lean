/-
  The page of a tree as a text with gaps.

  What the table of a tree says is known from the tree, but for the source lines of its
  statements, which come from the record.  `template` gives the text with a gap for every node, in
  the order in which the table comes to the nodes, and `render` fills the gaps.

  `Shows` says of a step of writing which nodes it comes to and what it writes, where the lines
  that each statement shows are known beforehand (`Foretells`).  Such steps compose (`Shows.bind`),
  and `treePage_shows`: the table of a tree is its template, filled.
-/
import SourceScribe.Proofs.Page.Ascent

namespace SourceScribe.Page

open SourceScribe.Language (ClassInfo)

/-- A node that a table comes to, with its nearest statement. -/
structure Visit where
  node : NodeRef
  owner : Option Path

/-- A piece of a template. -/
inductive Piece where
  /-- Text that is always the same. -/
  | text (s : String)
  /-- A gap for the source lines of a node, which stays empty if it is no statement. -/
  | gap (u : Visit)

/-- The nodes that a template has gaps for. -/
def visits (pieces : List Piece) : List Visit :=
  pieces.filterMap fun
    | .text _ => none
    | .gap u => some u

@[simp] theorem visits_nil : visits [] = [] := rfl

@[simp] theorem visits_text (s : String) (pieces : List Piece) :
    visits (.text s :: pieces) = visits pieces := rfl

@[simp] theorem visits_gap (u : Visit) (pieces : List Piece) :
    visits (.gap u :: pieces) = u :: visits pieces := rfl

@[simp] theorem visits_append (pieces more : List Piece) :
    visits (pieces ++ more) = visits pieces ++ visits more :=
  List.filterMap_append

/-! ## Templates -/

/-- A field in its row. -/
def fieldPieces (name : String) (value : List Piece) : List Piece :=
  .text ("            <tr>\n              <td class=\"field_name\">" ++ name
    ++ "</td>\n              <td>") :: (value ++ [.text "</td>\n            </tr>\n         "])

/-- Items, one in a row. -/
def itemPieces (items : List (List Piece)) : List Piece :=
  .text "<table class=\"field_list\">"
    :: (items.flatMap (fun i => .text "<tr><td>" :: (i ++ [.text "</td></tr>"]))
      ++ [.text "</table>"])

/-- A node of a category, with the rows of its fields. -/
def nodePieces (category : String) (u : Visit) (rows : List Piece) : List Piece :=
  .text (tableHead category u.node.cls u.node.places) :: .gap u
    :: .text "       </table>\n       <table>\n         "
    :: (rows ++ [.text "       </table>\n     </div>\n"])

/-- The rows of the fields in `order`, if all are there. -/
def rowPieces (fields : List (String × Option (List Piece))) : List String → Option (List Piece)
  | [] => some []
  | name :: names => do
    let value ← (fields.lookup name).join
    let rows ← rowPieces fields names
    return fieldPieces name value ++ rows

mutual

/-- The table of the tree at `path` as a template; `outer` is the statement around it.  There is
    none if a class is not known or lacks a field. -/
def template (classes : List ClassInfo) (path : Path) (outer : Option Path) :
    Tree → Option (List Piece)
  | .leaf v => some [.text (scalarCell v)]
  | .list items => (itemTemplates classes path outer 0 items).map itemPieces
  | .node cls places fields => do
    let info ← classes.find? (·.name = cls)
    let owner := ownerBelow classes cls path outer
    let rows ← rowPieces (fieldTemplates classes path owner fields) info.order
    return nodePieces info.category ⟨⟨path, cls, places⟩, owner⟩ rows

/-- Every field under its name. -/
def fieldTemplates (classes : List ClassInfo) (path : Path) (owner : Option Path) :
    List (String × Tree) → List (String × Option (List Piece))
  | [] => []
  | (name, t) :: fields =>
    (name, template classes (path.field name) owner t) :: fieldTemplates classes path owner fields

/-- The items from index `i` on. -/
def itemTemplates (classes : List ClassInfo) (path : Path) (owner : Option Path) (i : Nat) :
    List Tree → Option (List (List Piece))
  | [] => some []
  | .list inner :: items =>
    (itemTemplates classes path owner (i + 1) items).map
      ([.text ("<span class=\"final\">" ++ (Tree.list inner).dump ++ "</span>")] :: ·)
  | t :: items => do
    let cell ← template classes (path.item i) owner t
    let more ← itemTemplates classes path owner (i + 1) items
    return cell :: more

end

theorem lookup_fieldTemplates (classes : List ClassInfo) (path : Path) (owner : Option Path)
    (name : String) (fields : List (String × Tree)) :
    (fieldTemplates classes path owner fields).lookup name
      = (fields.lookup name).map (template classes (path.field name) owner) :=
  Tree.lookup_of_fieldwise (f := fun name => template classes (path.field name) owner)
    (by rw [fieldTemplates]) (fun _ _ _ => by rw [fieldTemplates]) fields name

section
variable (classes : List ClassInfo) (lines : List String) (heads : Path → List Int)

/-- Whether a node that a table comes to is a statement. -/
def Visit.isStatement (u : Visit) : Bool := isStatementClass classes u.node.cls

/-- The entries that a node adds, and whether the start of its string is found. -/
def Visit.notes (u : Visit) : List Entry × Bool :=
  nodeNotes lines u.node.path u.owner (u.isStatement classes) u.node.places

/-- The entries that nodes add. -/
def noted (us : List Visit) : List Entry := us.flatMap fun u => (u.notes classes lines).1

/-- Source lines in a table. -/
def sourceText (numbers : List Int) : String :=
  "            " ++ String.join (numbers.map fun k => lineRow k ((lineAt? lines k).getD ""))
    ++ "          "

/-- A piece, where `heads` gives the lines of each statement. -/
def Piece.render : Piece → String
  | .text s => s
  | .gap u => if u.isStatement classes then sourceText lines (heads u.node.path) else ""

/-- A template, where `heads` gives the lines of each statement. -/
def render (pieces : List Piece) : String :=
  String.join (pieces.map (Piece.render classes lines heads))

/-- The start of every node's string is found, and the lines of every statement are in the
    source. -/
def Ready (us : List Visit) : Prop :=
  ∀ u ∈ us, (u.notes classes lines).2 = true ∧
    (u.isStatement classes = true → ∀ k ∈ heads u.node.path, (lineAt? lines k).isSome)

/-- `heads` gives the lines that are recorded for each statement when a table that begins with
    the record `r` comes to it. -/
def Foretells : Record → List Visit → Prop
  | _, [] => True
  | r, u :: us =>
    (u.isStatement classes = true →
      (r.addAll (u.notes classes lines).1).lines u.node.path = heads u.node.path) ∧
    Foretells (r.addAll (u.notes classes lines).1) us

/-- The step `m` comes to the nodes `vs` and writes `a`, if `heads` gives the lines of the
    statements, and fails if `vs` is `none`. -/
def Shows {α : Type} (m : Writing α) (vs : Option (List Visit)) (a : α) : Prop :=
  ∀ r, (∀ us, vs = some us → Foretells classes lines heads r us) → ∀ b r',
    m r = .ok b r' ↔ ∃ us, vs = some us ∧ Ready classes lines heads us ∧ b = a ∧
      r' = r.addAll (noted classes lines us)

end

variable {classes : List ClassInfo} {lines : List String} {heads : Path → List Int}

@[simp] theorem noted_append (us vs : List Visit) :
    noted classes lines (us ++ vs) = noted classes lines us ++ noted classes lines vs :=
  List.flatMap_append

theorem ready_append {us vs : List Visit} :
    Ready classes lines heads (us ++ vs) ↔
      Ready classes lines heads us ∧ Ready classes lines heads vs :=
  List.forall_mem_append

theorem foretells_append {r : Record} {us vs : List Visit} :
    Foretells classes lines heads r (us ++ vs) ↔ Foretells classes lines heads r us ∧
      Foretells classes lines heads (r.addAll (noted classes lines us)) vs := by
  induction us generalizing r with
  | nil => exact (and_iff_right trivial).symm
  | cons u us ih =>
    rw [List.cons_append, Foretells, Foretells, ih, and_assoc, ← Record.addAll_append]
    rfl

@[simp] theorem render_nil : render classes lines heads [] = "" := rfl

@[simp] theorem render_cons (p : Piece) (pieces : List Piece) :
    render classes lines heads (p :: pieces)
      = p.render classes lines heads ++ render classes lines heads pieces := by
  rw [render, List.map_cons, String.join_cons, render]

@[simp] theorem render_append (pieces more : List Piece) :
    render classes lines heads (pieces ++ more)
      = render classes lines heads pieces ++ render classes lines heads more := by
  rw [render, List.map_append, String.join_append, render, render]

/-- Text around the rest of a template. -/
theorem render_between (start stop : String) (pieces : List Piece) :
    render classes lines heads (.text start :: (pieces ++ [.text stop]))
      = start ++ render classes lines heads pieces ++ stop := by
  simp [Piece.render, String.append_assoc]

theorem render_fieldPieces (name : String) (value : List Piece) :
    render classes lines heads (fieldPieces name value)
      = fieldRow name (render classes lines heads value) :=
  render_between _ _ _

theorem render_itemPieces (items : List (List Piece)) :
    render classes lines heads (itemPieces items)
      = itemTable (items.map (render classes lines heads)) := by
  have hrows : ∀ start stop, render classes lines heads
      (items.flatMap fun i => .text start :: (i ++ [.text stop])) = String.join
        ((items.map (render classes lines heads)).map fun i => start ++ i ++ stop) := by
    intro start stop
    induction items with
    | nil => rfl
    | cons i items ih =>
      rw [List.flatMap_cons, render_append, render_between, ih, List.map_cons, List.map_cons,
        String.join_cons]
  rw [itemPieces, render_between, hrows]
  rfl

theorem visits_itemPieces (items : List (List Piece)) :
    visits (itemPieces items) = items.flatMap visits := by
  have hrows : visits (items.flatMap fun i => .text "<tr><td>" :: (i ++ [.text "</td></tr>"]))
      = items.flatMap visits := by
    induction items with
    | nil => rfl
    | cons i items ih => simp [ih]
  simp [itemPieces, hrows]

/-! ## Composing steps -/

section
variable {α β : Type}

theorem shows_pure (a : α) : Shows classes lines heads (pure a) (some []) a := by
  intro r _ b r'
  constructor
  · rintro ⟨⟩
    exact ⟨[], rfl, fun _ hu => absurd hu List.not_mem_nil, rfl, rfl⟩
  · rintro ⟨us, ⟨⟩, _, rfl, rfl⟩
    rfl

theorem shows_throw (f : Fault) (a : α) : Shows classes lines heads (throw f) none a := by
  intro r _ b r'
  constructor
  · exact nofun
  · rintro ⟨_, ⟨⟩, _⟩

/-- Two steps, where only the text of the second depends on the first. -/
theorem Shows.bind {m : Writing α} {k : α → Writing β} {vs ws : Option (List Visit)} {a : α}
    {f : α → β} (hm : Shows classes lines heads m vs a)
    (hk : ∀ b, Shows classes lines heads (k b) ws (f b)) :
    Shows classes lines heads (m >>= k) (do return (← vs) ++ (← ws)) (f a) := by
  intro r hr c r'
  rw [bind_ok]
  cases ws with
  | none =>
    -- the second step fails after any text
    constructor
    · rintro ⟨b, r₁, _, hc⟩
      obtain ⟨_, ⟨⟩, _⟩ := (hk b r₁ nofun c r').1 hc
    · rintro ⟨_, h, _⟩
      cases vs <;> cases h
  | some us₂ =>
    cases vs with
    | none =>
      constructor
      · rintro ⟨b, r₁, hb, _⟩
        obtain ⟨_, ⟨⟩, _⟩ := (hm r nofun b r₁).1 hb
      · rintro ⟨_, ⟨⟩, _⟩
    | some us₁ =>
      obtain ⟨hr₁, hr₂⟩ := foretells_append.1 (hr _ rfl)
      have hfirst := hm r fun us h => Option.some.inj h ▸ hr₁
      have hsecond := fun b => hk b (r.addAll (noted classes lines us₁))
        fun us h => Option.some.inj h ▸ hr₂
      constructor
      · rintro ⟨b, r₁, hb, hc⟩
        obtain ⟨_, ⟨⟩, hready₁, rfl, rfl⟩ := (hfirst b r₁).1 hb
        obtain ⟨_, ⟨⟩, hready₂, rfl, rfl⟩ := (hsecond b c r').1 hc
        refine ⟨_, rfl, ready_append.2 ⟨hready₁, hready₂⟩, rfl, ?_⟩
        rw [noted_append, Record.addAll_append]
      · rintro ⟨_, ⟨⟩, hready, rfl, rfl⟩
        obtain ⟨hready₁, hready₂⟩ := ready_append.1 hready
        refine ⟨a, _, (hfirst a _).2 ⟨_, rfl, hready₁, rfl, rfl⟩, ?_⟩
        refine (hsecond a _ _).2 ⟨_, rfl, hready₂, rfl, ?_⟩
        rw [noted_append, Record.addAll_append]

/-- A step that comes to the nodes of a template may be said to write what the template gives. -/
theorem Shows.congr {m : Writing α} {vs ws : Option (List Visit)} {a b : α}
    (hm : Shows classes lines heads m vs a) (hvs : vs = ws) (hab : vs.isSome → a = b) :
    Shows classes lines heads m ws b := by
  subst hvs
  intro r hr c r'
  rw [hm r hr c r']
  refine exists_congr fun us => and_congr_right fun hus => ?_
  rw [hab (by rw [hus]; rfl)]

end

/-! ## The table of a tree -/

theorem lineRows_ok_iff {numbers : List Int} {rows : String} {r r' : Record} :
    lineRows lines numbers r = .ok rows r' ↔ (∀ k ∈ numbers, (lineAt? lines k).isSome) ∧
      rows = String.join (numbers.map fun k => lineRow k ((lineAt? lines k).getD "")) ∧ r' = r := by
  induction numbers generalizing rows r' with
  | nil =>
    constructor
    · rintro ⟨⟩
      exact ⟨fun _ hk => absurd hk List.not_mem_nil, rfl, rfl⟩
    · rintro ⟨_, rfl, rfl⟩
      rfl
  | cons k numbers ih =>
    rw [lineRows, List.forall_mem_cons, List.map_cons, String.join_cons]
    cases hline : lineAt? lines k with
    | none =>
      constructor
      · intro h
        cases h
      · rintro ⟨⟨h, _⟩, _⟩
        cases h
    | some line =>
      show (lineRows lines numbers >>= fun more => pure (lineRow k line ++ more)) r = _ ↔ _
      rw [bind_ok]
      constructor
      · rintro ⟨more, r₁, hmore, ⟨⟩⟩
        obtain ⟨hall, rfl, rfl⟩ := ih.1 hmore
        exact ⟨⟨rfl, hall⟩, rfl, rfl⟩
      · rintro ⟨⟨_, hall⟩, rfl, rfl⟩
        exact ⟨_, _, ih.2 ⟨hall, rfl, rfl⟩, rfl⟩

theorem statementLines_ok_iff {s : Path} {text : String} {r r' : Record} :
    statementLines lines s r = .ok text r' ↔ (∀ k ∈ r.lines s, (lineAt? lines k).isSome) ∧
      text = sourceText lines (r.lines s) ∧ r' = r := by
  have hrun : statementLines lines s r = (lineRows lines (r.lines s) >>= fun rows =>
      pure ("            " ++ rows ++ "          ")) r := rfl
  rw [hrun, bind_ok]
  constructor
  · rintro ⟨rows, r₁, hrows, ⟨⟩⟩
    obtain ⟨hall, rfl, rfl⟩ := lineRows_ok_iff.1 hrows
    exact ⟨hall, rfl, rfl⟩
  · rintro ⟨hall, rfl, rfl⟩
    exact ⟨_, _, lineRows_ok_iff.2 ⟨hall, rfl, rfl⟩, rfl⟩

/-- Noting a node succeeds if the string that ends there is found, and adds its notes. -/
theorem noteNode_ok_iff {press : Press} (u : Visit) {r r' : Record} :
    noteNode press u.node.path u.owner (u.isStatement classes) u.node.places r = .ok () r' ↔
      (u.notes classes press.lines).2 = true ∧ r' = r.addAll (u.notes classes press.lines).1 := by
  rw [noteNode_eq, ← Visit.notes]
  cases (u.notes classes press.lines).2 with
  | false => simp [searchEnd]
  | true => simp [searchEnd, eq_comm]

/-- What stands in the gap of a node: the lines of a statement, if they are all in the source. -/
theorem gapText_ok_iff {press : Press} (u : Visit) {text : String} {r r' : Record}
    (hhead : u.isStatement classes = true → r.lines u.node.path = heads u.node.path) :
    (if u.isStatement classes then statementLines press.lines u.node.path else pure "") r
        = .ok text r' ↔
      (u.isStatement classes = true →
        ∀ k ∈ heads u.node.path, (lineAt? press.lines k).isSome) ∧
      text = render classes press.lines heads [.gap u] ∧ r' = r := by
  by_cases hstmt : u.isStatement classes = true
  · rw [if_pos hstmt, statementLines_ok_iff, hhead hstmt]
    simp [hstmt, Piece.render]
  · have hempty : render classes press.lines heads [.gap u] = "" := by
      simp [Piece.render, hstmt]
    rw [if_neg hstmt, hempty]
    constructor
    · rintro ⟨⟩
      exact ⟨fun h => absurd h hstmt, rfl, rfl⟩
    · rintro ⟨-, rfl, rfl⟩
      rfl

/-- Noting a node and showing its lines fills its gap. -/
theorem heading_shows {press : Press} (u : Visit) :
    Shows classes press.lines heads (do
      noteNode press u.node.path u.owner (u.isStatement classes) u.node.places
      if u.isStatement classes then statementLines press.lines u.node.path else pure "")
      (some [u]) (render classes press.lines heads [.gap u]) := by
  intro r hr text r'
  obtain ⟨hhead, -⟩ := hr _ rfl
  have hready : Ready classes press.lines heads [u] ↔ (u.notes classes press.lines).2 = true ∧
      (u.isStatement classes = true →
        ∀ k ∈ heads u.node.path, (lineAt? press.lines k).isSome) := List.forall_mem_singleton
  have hnoted : noted classes press.lines [u] = (u.notes classes press.lines).1 :=
    List.flatMap_singleton _ _
  rw [bind_ok]
  constructor
  · rintro ⟨_, r₁, hnote, hgap⟩
    obtain ⟨hfound, rfl⟩ := (noteNode_ok_iff u).1 hnote
    obtain ⟨hlines, htext, rfl⟩ := (gapText_ok_iff u hhead).1 hgap
    exact ⟨[u], rfl, hready.2 ⟨hfound, hlines⟩, htext, by rw [hnoted]⟩
  · rintro ⟨_, ⟨⟩, hall, htext, hr'⟩
    obtain ⟨hfound, hlines⟩ := hready.1 hall
    rw [hnoted] at hr'
    exact ⟨(), _, (noteNode_ok_iff u).2 ⟨hfound, rfl⟩,
      (gapText_ok_iff u hhead).2 ⟨hlines, htext, hr'⟩⟩

/-- The text of a template that may not be there. -/
def textOf (classes : List ClassInfo) (lines : List String) (heads : Path → List Int)
    (pieces : Option (List Piece)) : String :=
  (pieces.map (render classes lines heads)).getD ""

theorem fieldRows_shows {press : Press} {path : Path} {owner : Option Path}
    {fields : List (String × Tree)}
    (h : ∀ name t, fields.lookup name = some t → Shows classes press.lines heads
      (treePage press (path.field name) t owner)
      ((template classes (path.field name) owner t).map visits)
      (textOf classes press.lines heads (template classes (path.field name) owner t))) :
    ∀ names, Shows classes press.lines heads
      (fieldRows owner (fieldPages press path fields) names)
      ((rowPieces (fieldTemplates classes path owner fields) names).map visits)
      (textOf classes press.lines heads
        (rowPieces (fieldTemplates classes path owner fields) names))
  | [] => shows_pure ""
  | name :: names => by
    have hmore := fieldRows_shows h names
    rw [fieldRows, rowPieces, lookup_fieldPages, lookup_fieldTemplates]
    cases ht : fields.lookup name with
    | none => exact shows_throw _ _
    | some t =>
      simp only [Option.map_some, Option.join_some]
      refine ((h name t ht).bind fun value => hmore.bind fun rows => shows_pure _).congr ?_ ?_
      · cases template classes (path.field name) owner t <;>
          cases rowPieces (fieldTemplates classes path owner fields) names <;>
          simp [fieldPieces]
      · cases template classes (path.field name) owner t <;>
          cases rowPieces (fieldTemplates classes path owner fields) names <;>
          simp [textOf, render_fieldPieces]

theorem itemTemplates_cons {path : Path} {owner : Option Path} {i : Nat} {t : Tree}
    {items : List Tree} (hlist : ∀ inner, t ≠ .list inner) :
    itemTemplates classes path owner i (t :: items) = (do
      let cell ← template classes (path.item i) owner t
      let more ← itemTemplates classes path owner (i + 1) items
      return cell :: more) := by
  rw [itemTemplates]
  exact hlist

theorem itemPages_shows {press : Press} {path : Path} {owner : Option Path} {items : List Tree}
    (h : ∀ t ∈ items, ∀ p, Shows classes press.lines heads (treePage press p t owner)
      ((template classes p owner t).map visits)
      (textOf classes press.lines heads (template classes p owner t))) (i : Nat) :
    Shows classes press.lines heads (itemPages press path owner i items)
      ((itemTemplates classes path owner i items).map (·.flatMap visits))
      (((itemTemplates classes path owner i items).map
        (·.map (render classes press.lines heads))).getD []) := by
  induction items generalizing i with
  | nil => exact shows_pure []
  | cons t items ih =>
    have hmore := ih (fun u hu => h u (List.mem_cons_of_mem _ hu)) (i + 1)
    have hfirst := h t List.mem_cons_self (path.item i)
    by_cases hlist : ∃ inner, t = .list inner
    · obtain ⟨inner, rfl⟩ := hlist
      rw [itemPages, itemTemplates]
      refine (hmore.bind fun more => shows_pure _).congr ?_ ?_
      · cases itemTemplates classes path owner (i + 1) items <;> simp
      · cases itemTemplates classes path owner (i + 1) items <;> simp [Piece.render]
    · rw [not_exists] at hlist
      rw [itemPages_cons hlist, itemTemplates_cons hlist]
      refine (hfirst.bind fun cell => hmore.bind fun more => shows_pure _).congr ?_ ?_
      · cases template classes (path.item i) owner t <;>
          cases itemTemplates classes path owner (i + 1) items <;> simp
      · cases template classes (path.item i) owner t <;>
          cases itemTemplates classes path owner (i + 1) items <;> simp [textOf]

/-- **The table of a tree** comes to the nodes of its template, and is the template with the
    lines of the statements filled in. -/
theorem treePage_shows {press : Press} (hclasses : press.classes = some classes)
    (hlayout : press.layout = true) (t : Tree) :
    ∀ path outer, Shows classes press.lines heads (treePage press path t outer)
      ((template classes path outer t).map visits)
      (textOf classes press.lines heads (template classes path outer t)) := by
  induction t using Tree.inductionOn with
  | hleaf v =>
    intro path outer
    rw [treePage, template]
    refine (shows_pure (scalarCell v)).congr rfl fun _ => ?_
    simp [textOf, Piece.render]
  | hlist items ih =>
    intro path outer
    rw [treePage, template]
    refine ((itemPages_shows (fun t ht p => ih t ht p outer) 0).bind fun _ =>
      shows_pure _).congr ?_ ?_
    · cases itemTemplates classes path outer 0 items <;> simp [visits_itemPieces]
    · cases itemTemplates classes path outer 0 items <;> simp [textOf, render_itemPieces]
  | hnode cls places fields ih =>
    intro path outer
    rw [treePage, template]
    cases hinfo : classes.find? (·.name = cls) with
    | none =>
      have hclass : classInfo press cls = throw (.unknownClass cls) := by
        simp [classInfo, hclasses, hinfo]
      rw [nodeTable, hclass]
      exact shows_throw _ _
    | some info =>
      let u : Visit := ⟨⟨path, cls, places⟩, ownerBelow classes cls path outer⟩
      have hrows := fieldRows_shows
        (fun name t ht => ih (name, t) (Tree.mem_of_lookup ht) (path.field name) u.owner) info.order
      have htable := (heading_shows u).bind fun source => hrows.bind fun rows =>
        shows_pure (tableHead info.category cls places ++ source
          ++ "       </table>\n       <table>\n         " ++ rows
          ++ "       </table>\n     </div>\n")
      rw [bind_assoc] at htable
      rw [nodeTable_eq hclasses hlayout hinfo]
      refine htable.congr ?_ ?_
      · cases hpieces : rowPieces (fieldTemplates classes path u.owner fields) info.order <;>
          simp [nodePieces, hpieces, u]
      · cases hpieces : rowPieces (fieldTemplates classes path u.owner fields) info.order <;>
          simp [nodePieces, hpieces, u, textOf, Piece.render, String.append_assoc]

end SourceScribe.Page
