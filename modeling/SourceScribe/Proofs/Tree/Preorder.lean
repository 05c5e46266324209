/-
  The listing of a tree goes through its places in order.

  `Numbers` says which addresses the places of a tree have: items are numbered as they come,
  and fields in the order of their names.  The order of addresses is that of a dictionary: a
  place comes before all that stands below it, and that before whatever comes after it at a
  higher level.  `Lists` says that lines are those of the places with some addresses, one for
  each and in this order.

  `fullListing_in_order`: there is a listing just if no list holds a scalar, and then it has
  the lines of all places but the top one.
-/
import SourceScribe.Proofs.Tree.Places

namespace SourceScribe.Tree

/-! ## The listing, by children -/

/-- The line of what stands at a place: its path, and what it is. -/
def line (p : Path) (t : Tree) : String := t.pathText p ++ t.placeNote

/-- The listings of what stands one step below the tree at `p`. -/
def childListings (p : Path) (t : Tree) : List (Option (List String)) :=
  t.children.map fun e => e.2.listing ⟨e.1 :: p.steps⟩

theorem joinAll_cons_eq_some_iff {α : Type} {part : Option (List α)}
    {parts : List (Option (List α))} {all : List α} :
    joinAll (part :: parts) = some all ↔
      ∃ xs ys, part = some xs ∧ joinAll parts = some ys ∧ xs ++ ys = all := by
  cases part with
  | none => simp [joinAll]
  | some xs => simp [joinAll, Option.map_eq_some_iff]

theorem joinAll_eq_some_iff {α : Type} {parts : List (Option (List α))} {all : List α} :
    joinAll parts = some all ↔
      ∃ blocks : List (List α), parts = blocks.map some ∧ blocks.flatten = all := by
  induction parts generalizing all with
  | nil =>
    constructor
    · intro h
      cases h
      exact ⟨[], rfl, rfl⟩
    · rintro ⟨blocks, hblocks, rfl⟩
      rw [List.map_eq_nil_iff.1 hblocks.symm]
      rfl
  | cons part parts ih =>
    rw [joinAll_cons_eq_some_iff]
    constructor
    · rintro ⟨xs, ys, rfl, hys, rfl⟩
      obtain ⟨blocks, rfl, rfl⟩ := ih.1 hys
      exact ⟨xs :: blocks, rfl, rfl⟩
    · rintro ⟨blocks, hblocks, rfl⟩
      cases blocks with
      | nil => cases hblocks
      | cons block blocks =>
        obtain ⟨hhead, htail⟩ := List.cons.inj hblocks
        exact ⟨block, blocks.flatten, hhead, ih.2 ⟨blocks, htail, rfl⟩, rfl⟩

theorem listing_node (p : Path) (cls : String) (places : List Int)
    (fields : List (String × Tree)) :
    (node cls places fields).listing p =
      (joinAll ((node cls places fields).childListings p)).map
        ((node cls places fields).line p :: ·) := by
  have hsort : (sortFields (fieldListings p fields)).map (·.2) =
      (node cls places fields).childListings p := by
    rw [fieldListings_eq_map, sortFields,
      ← List.map_mergeSort (r := fun a b => decide (a.1 ≤ b.1)) fun _ _ _ _ => rfl,
      childListings, children, sortFields, List.map_map, List.map_map]
    rfl
  have hline : (node cls places fields).line p = p.text ++ " (" ++ cls ++ ")" := by
    rw [line, placeNote, pathText_of_ne_list (by intro items h; cases h)]
    simp only [String.append_assoc]
  rw [listing, hsort, hline]

/-- The items of a list from index `i` on can be listed if all are nodes that can. -/
theorem itemListing_eq_some_iff {p : Path} {i : Nat} {items : List Tree} {lines : List String} :
    itemListing p i items = some lines ↔
      (∀ t ∈ items, ∃ cls places fields, t = node cls places fields) ∧
      joinAll (items.mapIdx fun j t => t.listing (p.item (i + j))) = some lines := by
  induction items generalizing i lines with
  | nil => simp [itemListing, joinAll, eq_comm]
  | cons t items ih =>
    have hshift : (fun j t => listing (p.item (i + (j + 1))) t) =
        fun j t => listing (p.item (i + 1 + j)) t := by
      funext j t
      rw [Nat.add_assoc, Nat.add_comm 1 j]
    rw [List.forall_mem_cons, List.mapIdx_cons, hshift, joinAll_cons_eq_some_iff]
    cases t with
    | leaf v => simp [itemListing]
    | list inner => simp [itemListing]
    | node cls places fields =>
      rw [itemListing, joinAll_cons_eq_some_iff]
      constructor
      · rintro ⟨xs, ys, hxs, hys, rfl⟩
        rw [joinAll_cons_eq_some_iff] at hys
        obtain ⟨ys, zs, hys, hzs, rfl⟩ := hys
        cases hzs
        obtain ⟨hnodes, hmore⟩ := ih.1 hys
        exact ⟨⟨⟨cls, places, fields, rfl⟩, hnodes⟩, xs, ys, hxs, hmore, by simp⟩
      · rintro ⟨⟨-, hnodes⟩, xs, ys, hxs, hmore, rfl⟩
        refine ⟨xs, ys, hxs, ?_, rfl⟩
        rw [ih.2 ⟨hnodes, hmore⟩]
        simp [joinAll]

theorem childListings_list (p : Path) (items : List Tree) :
    (list items).childListings p = items.mapIdx fun j t => t.listing (p.item (0 + j)) := by
  rw [childListings, children]
  refine List.ext_getElem (by simp) fun i hi hi' => ?_
  simp [Path.item]

/-- A list that holds no list holds only nodes, unless it holds a scalar. -/
theorem forall_isNode_iff {items : List Tree} (h : (list items).isFlat = true) :
    (∀ t ∈ items, ∃ cls places fields, t = node cls places fields) ↔ ∀ v, leaf v ∉ items := by
  constructor
  · intro hall v hv
    obtain ⟨cls, places, fields, hnode⟩ := hall _ hv
    cases hnode
  · intro hno t ht
    cases t with
    | leaf v => exact absurd ht (hno v)
    | list inner => exact absurd rfl ((isFlat_of_mem h ht).2 inner)
    | node cls places fields => exact ⟨cls, places, fields, rfl⟩

/-- A tree in which no list holds a list can be listed if no item is a scalar and all that
    stands one step below can be listed.  Its own line comes first. -/
theorem listing_eq_some_iff {p : Path} {t : Tree} {lines : List String} (h : t.isFlat = true) :
    t.listing p = some lines ↔ (∀ items v, t = list items → leaf v ∉ items) ∧
      ∃ blocks : List (List String), t.childListings p = blocks.map some ∧
        t.line p :: blocks.flatten = lines := by
  cases t with
  | leaf v =>
    have hline : (leaf v).line p = scalarLine p.text v := by
      rw [line, placeNote, pathText_of_ne_list (by intro items h; cases h), scalarLine,
        String.append_assoc]
    rw [listing, ← hline]
    simp [childListings, children]
  | node cls places fields =>
    rw [listing_node, Option.map_eq_some_iff]
    constructor
    · rintro ⟨rest, hrest, rfl⟩
      obtain ⟨blocks, hblocks, rfl⟩ := joinAll_eq_some_iff.1 hrest
      refine ⟨?_, blocks, hblocks, rfl⟩
      intro items v hlist
      cases hlist
    · rintro ⟨-, blocks, hblocks, rfl⟩
      exact ⟨blocks.flatten, joinAll_eq_some_iff.2 ⟨blocks, hblocks, rfl⟩, rfl⟩
  | list items =>
    have hscalars : (∀ items' v, list items = list items' → leaf v ∉ items') ↔
        ∀ v, leaf v ∉ items := by
      constructor
      · exact fun hno v => hno items v rfl
      · rintro hno items' v ⟨⟩
        exact hno v
    rw [listing, Option.map_eq_some_iff, hscalars, ← forall_isNode_iff h, childListings_list]
    constructor
    · rintro ⟨rest, hrest, rfl⟩
      obtain ⟨hall, hjoin⟩ := itemListing_eq_some_iff.1 hrest
      obtain ⟨blocks, hblocks, rfl⟩ := joinAll_eq_some_iff.1 hjoin
      exact ⟨hall, blocks, hblocks, rfl⟩
    · rintro ⟨hall, blocks, hblocks, rfl⟩
      exact ⟨blocks.flatten, itemListing_eq_some_iff.2
        ⟨hall, joinAll_eq_some_iff.2 ⟨blocks, hblocks, rfl⟩⟩, rfl⟩

/-! ## Where there is a listing -/

theorem isFlat_of_mem_children {t : Tree} {e : Step × Tree} (h : t.isFlat = true)
    (he : e ∈ t.children) : e.2.isFlat = true := by
  cases t with
  | leaf v => cases he
  | list items =>
    obtain ⟨i, hi, -⟩ := mem_children_list.1 he
    exact (isFlat_of_mem h (List.mem_of_getElem? hi)).1
  | node cls places fields =>
    obtain ⟨f, hf, rfl⟩ := mem_children_node.1 he
    exact isFlat_of_mem_fields h hf

theorem exists_map_some_iff {α : Type} {parts : List (Option α)} :
    (∃ xs : List α, parts = xs.map some) ↔ ∀ part ∈ parts, part.isSome = true := by
  constructor
  · rintro ⟨xs, rfl⟩ part hpart
    obtain ⟨x, -, rfl⟩ := List.mem_map.1 hpart
    rfl
  · intro h
    induction parts with
    | nil => exact ⟨[], rfl⟩
    | cons part parts ih =>
      obtain ⟨hpart, hparts⟩ := List.forall_mem_cons.1 h
      obtain ⟨x, rfl⟩ := Option.isSome_iff_exists.1 hpart
      obtain ⟨xs, rfl⟩ := ih hparts
      exact ⟨x :: xs, rfl⟩

/-- There is a listing just if no list at any place holds a scalar. -/
theorem isSome_listing_iff {t : Tree} {p : Path} (h : t.isFlat = true) :
    (t.listing p).isSome = true ↔
      ∀ a q items v, t.place? p a = some (q, list items) → leaf v ∉ items := by
  induction t using inductionOnChildren generalizing p with
  | h t ih =>
    have hbelow : (∃ blocks : List (List String), t.childListings p = blocks.map some) ↔
        ∀ e ∈ t.children, (e.2.listing ⟨e.1 :: p.steps⟩).isSome = true := by
      rw [exists_map_some_iff, childListings, List.forall_mem_map]
    rw [Option.isSome_iff_exists]
    constructor
    · rintro ⟨lines, hlines⟩ a q items v hplace
      obtain ⟨hown, blocks, hblocks, -⟩ := (listing_eq_some_iff h).1 hlines
      cases a with
      | nil =>
        cases hplace
        exact hown items v rfl
      | cons i a =>
        rw [place?, Option.bind_eq_some_iff] at hplace
        obtain ⟨e, he, hplace⟩ := hplace
        have he := List.mem_of_getElem? he
        have hsome := hbelow.1 ⟨blocks, hblocks⟩ e he
        exact (ih e he (isFlat_of_mem_children h he)).1 hsome a q items v hplace
    · intro hno
      have hown : ∀ items v, t = list items → leaf v ∉ items := by
        rintro items v rfl
        exact hno [] p items v rfl
      obtain ⟨blocks, hblocks⟩ := hbelow.2 fun e he => by
        refine (ih e he (isFlat_of_mem_children h he)).2 fun a q items v hplace => ?_
        obtain ⟨i, hi⟩ := List.mem_iff_getElem?.1 he
        refine hno (i :: a) q items v ?_
        rw [place?, hi, Option.bind_some, hplace]
      exact ⟨_, (listing_eq_some_iff h).2 ⟨hown, blocks, hblocks, rfl⟩⟩

/-! ## The addresses of a tree -/

/-- The places of a tree by their addresses.  The top has the empty address, and one number more
    leads one step down: to an item of a list by its index, to a field of a node by its index
    among all fields in the order of their names, and nowhere from a scalar. -/
structure Numbers (t : Tree) (find : List Nat → Option (Path × Tree)) : Prop where
  top : find [] = some (.root, t)
  nowhere : ∀ a i, find a = none → find (a ++ [i]) = none
  scalars : ∀ a p v, find a = some (p, leaf v) → ∀ i, find (a ++ [i]) = none
  items : ∀ a p items, find a = some (p, list items) →
    ∀ i, find (a ++ [i]) = items[i]?.map fun u => (p.item i, u)
  fields : ∀ a p cls places fields, find a = some (p, node cls places fields) →
    ∃ sorted : List (String × Tree), sorted.Perm fields ∧
      sorted.Pairwise (fun f g => f.1 ≤ g.1) ∧
      ∀ i, find (a ++ [i]) = sorted[i]?.map fun f => (p.field f.1, f.2)

theorem numbers_place? (t : Tree) : t.Numbers (t.place? .root) := by
  have hbelow : ∀ a p u i, t.place? .root a = some (p, u) → t.place? .root (a ++ [i])
      = u.children[i]?.map fun e => (⟨e.1 :: p.steps⟩, e.2) := by
    intro a p u i ha
    rw [place?_append, ha, Option.bind_some, place?, Option.map_eq_bind]
    rfl
  refine ⟨rfl, fun a i ha => ?_, fun a p v ha i => ?_, fun a p items ha i => ?_,
    fun a p cls places fields ha => ?_⟩
  · rw [place?_append, ha, Option.bind_none]
  · rw [hbelow a p _ i ha]
    rfl
  · rw [hbelow a p _ i ha, children, List.getElem?_mapIdx, Option.map_map]
    rfl
  · refine ⟨sortFields fields, perm_sortFields fields, pairwise_sortFields fields, fun i => ?_⟩
    rw [hbelow a p _ i ha, children, List.getElem?_map, Option.map_map]
    rfl

/-! ## The order of the places -/

/-- The lines are those of the places that `find` knows, one for each, in the order of their
    addresses. -/
structure Lists (find : List Nat → Option (Path × Tree)) (as : List (List Nat))
    (lines : List String) : Prop where
  order : as.Pairwise (· < ·)
  places : ∀ a, a ∈ as ↔ (find a).isSome = true
  lines : List.Forall₂ (fun a l => ∃ e, find a = some e ∧ e.2.line e.1 = l) as lines

/-- The place at an address below one of the trees `es`, which stand one step below `p`. -/
def placeAmong? (p : Path) (es : List (Step × Tree)) : List Nat → Option (Path × Tree)
  | [] => none
  | i :: a => es[i]?.bind fun e => e.2.place? ⟨e.1 :: p.steps⟩ a

/-- The address among trees that have one more before them. -/
def shifted : List Nat → List Nat
  | [] => []
  | i :: a => (i + 1) :: a

theorem shifted_lt {a b : List Nat} (h : a < b) : shifted a < shifted b := by
  cases b with
  | nil => cases h
  | cons j b =>
    cases a with
    | nil => exact List.nil_lt_cons _ _
    | cons i a =>
      rw [List.cons_lt_cons_iff] at h
      rw [shifted, shifted, List.cons_lt_cons_iff]
      rcases h with hij | ⟨rfl, hab⟩
      · exact Or.inl (Nat.succ_lt_succ hij)
      · exact Or.inr ⟨rfl, hab⟩

/-- Only what stands below one of the trees has an address. -/
theorem ne_nil_of_isSome_placeAmong? {p : Path} {es : List (Step × Tree)} {a : List Nat}
    (h : (placeAmong? p es a).isSome = true) : a ≠ [] := by
  rintro rfl
  cases h

theorem placeAmong?_shifted {p : Path} {e : Step × Tree} {es : List (Step × Tree)} {a : List Nat}
    (h : a ≠ []) : placeAmong? p (e :: es) (shifted a) = placeAmong? p es a := by
  cases a with
  | nil => exact absurd rfl h
  | cons i a => rfl

theorem place?_of_placeAmong? {p : Path} {t : Tree} {a : List Nat} {e : Path × Tree}
    (h : placeAmong? p t.children a = some e) : t.place? p a = some e := by
  cases a with
  | nil => cases h
  | cons i a => exact h

theorem Lists.nil (p : Path) : Lists (placeAmong? p []) [] [] where
  order := .nil
  places a := by cases a <;> simp [placeAmong?]
  lines := .nil

/-- One tree, and then others. -/
theorem Lists.cons {p : Path} {e : Step × Tree} {es : List (Step × Tree)}
    {as bs : List (List Nat)} {block lines : List String}
    (h : Lists (e.2.place? ⟨e.1 :: p.steps⟩) as block) (h' : Lists (placeAmong? p es) bs lines) :
    Lists (placeAmong? p (e :: es)) (as.map (0 :: ·) ++ bs.map shifted) (block ++ lines) where
  order := by
    rw [List.pairwise_append, List.pairwise_map, List.pairwise_map]
    refine ⟨h.order.imp fun hab => ?_, h'.order.imp shifted_lt, ?_⟩
    · exact List.cons_lt_cons_iff.2 (Or.inr ⟨rfl, hab⟩)
    · intro x hx y hy
      obtain ⟨a, -, rfl⟩ := List.mem_map.1 hx
      obtain ⟨b, hb, rfl⟩ := List.mem_map.1 hy
      cases b with
      | nil => cases (h'.places []).1 hb
      | cons i b => exact List.cons_lt_cons_iff.2 (Or.inl (Nat.succ_pos i))
  places a := by
    rw [List.mem_append, List.mem_map, List.mem_map]
    constructor
    · rintro (⟨b, hb, rfl⟩ | ⟨b, hb, rfl⟩)
      · exact (h.places b).1 hb
      · have hsome := (h'.places b).1 hb
        rwa [placeAmong?_shifted (ne_nil_of_isSome_placeAmong? hsome)]
    · intro hsome
      cases a with
      | nil => cases hsome
      | cons i a =>
        cases i with
        | zero => exact Or.inl ⟨a, (h.places a).2 hsome, rfl⟩
        | succ i => exact Or.inr ⟨i :: a, (h'.places (i :: a)).2 hsome, rfl⟩
  lines := by
    refine List.rel_append ?_ ?_
    · exact List.forall₂_map_left_iff.2 h.lines
    · refine List.forall₂_map_left_iff.2 (h'.lines.imp ?_)
      rintro b l ⟨x, hx, rfl⟩
      refine ⟨x, ?_, rfl⟩
      rw [placeAmong?_shifted (ne_nil_of_isSome_placeAmong? (Option.isSome_of_eq_some hx)), hx]

/-- A tree comes before what stands below it. -/
theorem Lists.below {p : Path} {t : Tree} {as : List (List Nat)} {lines : List String}
    (h : Lists (placeAmong? p t.children) as lines) :
    Lists (t.place? p) ([] :: as) (t.line p :: lines) where
  order := by
    refine List.pairwise_cons.2 ⟨fun a ha => ?_, h.order⟩
    cases a with
    | nil => cases (h.places []).1 ha
    | cons i a => exact List.nil_lt_cons i a
  places a := by
    rw [List.mem_cons, h.places]
    cases a with
    | nil => simp [place?]
    | cons i a => simp [place?, placeAmong?]
  lines := by
    refine .cons ⟨(p, t), rfl, rfl⟩ (h.lines.imp ?_)
    rintro a l ⟨x, hx, rfl⟩
    exact ⟨x, place?_of_placeAmong? hx, rfl⟩

theorem lists_children {p : Path} {es : List (Step × Tree)} {blocks : List (List String)}
    (hes : ∀ e ∈ es, ∀ block, e.2.listing ⟨e.1 :: p.steps⟩ = some block →
      ∃ as, Lists (e.2.place? ⟨e.1 :: p.steps⟩) as block)
    (h : es.map (fun e => e.2.listing ⟨e.1 :: p.steps⟩) = blocks.map some) :
    ∃ as, Lists (placeAmong? p es) as blocks.flatten := by
  induction es generalizing blocks with
  | nil =>
    rw [List.map_eq_nil_iff.1 h.symm]
    exact ⟨[], Lists.nil p⟩
  | cons e es ih =>
    cases blocks with
    | nil => cases h
    | cons block blocks =>
      obtain ⟨hblock, hblocks⟩ := List.cons.inj h
      obtain ⟨as, has⟩ := hes e List.mem_cons_self block hblock
      obtain ⟨bs, hbs⟩ := ih (fun e he => hes e (List.mem_cons_of_mem _ he)) hblocks
      exact ⟨_, has.cons hbs⟩

/-- The listing of a tree has the lines of all its places in order. -/
theorem lists_listing {t : Tree} {p : Path} {lines : List String} (h : t.isFlat = true)
    (hlines : t.listing p = some lines) : ∃ as, Lists (t.place? p) as lines := by
  induction t using inductionOnChildren generalizing p lines with
  | h t ih =>
    obtain ⟨-, blocks, hblocks, rfl⟩ := (listing_eq_some_iff h).1 hlines
    obtain ⟨as, has⟩ := lists_children
      (fun e he block hblock => ih e he (isFlat_of_mem_children h he) hblock) hblocks
    exact ⟨_, has.below⟩

/-- The listing of a child is found whole in those of all children. -/
theorem infix_childListings {p : Path} {t : Tree} {blocks : List (List String)} {i : Nat}
    {e : Step × Tree} (h : t.childListings p = blocks.map some) (he : t.children[i]? = some e) :
    ∃ block, e.2.listing ⟨e.1 :: p.steps⟩ = some block ∧ block <:+: blocks.flatten := by
  have hpart := congrArg (·[i]?) h
  simp only [childListings, List.getElem?_map, he, Option.map_some] at hpart
  obtain ⟨block, hblock, hlisting⟩ := Option.map_eq_some_iff.1 hpart.symm
  exact ⟨block, hlisting.symm, List.infix_of_mem_flatten (List.mem_of_getElem? hblock)⟩

/-- The listing of what stands at a place is found whole in that of the tree. -/
theorem infix_listing {t u : Tree} {p q : Path} {a : List Nat} {lines : List String}
    (h : t.isFlat = true) (hlines : t.listing p = some lines)
    (hu : t.place? p a = some (q, u)) :
    u.isFlat = true ∧ ∃ own, u.listing q = some own ∧ own <:+: lines := by
  induction a generalizing p t lines with
  | nil =>
    cases hu
    exact ⟨h, lines, hlines, List.infix_rfl⟩
  | cons i a ih =>
    obtain ⟨-, blocks, hblocks, rfl⟩ := (listing_eq_some_iff h).1 hlines
    rw [place?, Option.bind_eq_some_iff] at hu
    obtain ⟨e, he, hu⟩ := hu
    obtain ⟨block, hblock, hinfix⟩ := infix_childListings hblocks he
    obtain ⟨hflat, own, hown, hsub⟩ :=
      ih (isFlat_of_mem_children h (List.mem_of_getElem? he)) hblock hu
    exact ⟨hflat, own, hown, (hsub.trans hinfix).trans (List.suffix_cons _ _).isInfix⟩

/-- **The listing goes through all places in order.**  Let no list of a tree hold a list.
    There is no listing just if some list holds a scalar.  Else the listing has one line for
    every place but the top one, with its path and what stands there, and no others; they are
    in the order of the addresses, which number the items of a list as they come and all fields
    of a node in the order of their names.  So the line of every place is followed by the
    listings of what stands one step below it, one after the other. -/
theorem fullListing_in_order {t : Tree} (h : t.isFlat = true) :
    t.Numbers (t.place? .root) ∧
    (t.fullListing = none ↔
      ∃ a p items v, t.place? .root a = some (p, list items) ∧ leaf v ∈ items) ∧
    ∀ lines, t.fullListing = some lines →
      (∃ as : List (List Nat), as.Pairwise (· < ·) ∧
        (∀ a, a ∈ as ↔ a ≠ [] ∧ (t.place? .root a).isSome = true) ∧
        List.Forall₂ (fun a l => ∃ e, t.place? .root a = some e ∧ e.2.line e.1 = l) as lines) ∧
      ∀ a p u, a ≠ [] → t.place? .root a = some (p, u) →
        ∃ blocks : List (List String), u.childListings p = blocks.map some ∧
          (u.line p :: blocks.flatten) <:+: lines := by
  refine ⟨t.numbers_place?, ?_, fun lines hlines => ?_⟩
  · rw [fullListing, Option.map_eq_none_iff, ← Option.not_isSome_iff_eq_none,
      isSome_listing_iff h]
    simp only [not_forall, not_not, exists_prop]
  · obtain ⟨whole, hwhole, rfl⟩ := Option.map_eq_some_iff.1 hlines
    obtain ⟨-, blocks, hblocks, rfl⟩ := (listing_eq_some_iff h).1 hwhole
    constructor
    · obtain ⟨as, has⟩ := lists_children (fun e he block hblock =>
        lists_listing (isFlat_of_mem_children h he) hblock) hblocks
      refine ⟨as, has.order, fun a => ?_, has.lines.imp ?_⟩
      · rw [has.places]
        cases a with
        | nil => simp [placeAmong?]
        | cons i a => simp [placeAmong?, place?]
      · rintro a l ⟨e, he, rfl⟩
        exact ⟨e, place?_of_placeAmong? he, rfl⟩
    · intro a p u ha hu
      cases a with
      | nil => exact absurd rfl ha
      | cons i a =>
        rw [place?, Option.bind_eq_some_iff] at hu
        obtain ⟨e, he, hu⟩ := hu
        obtain ⟨block, hblock, hinfix⟩ := infix_childListings hblocks he
        obtain ⟨hflat, own, hown, hsub⟩ :=
          infix_listing (isFlat_of_mem_children h (List.mem_of_getElem? he)) hblock hu
        obtain ⟨-, blocks', hblocks', rfl⟩ := (listing_eq_some_iff hflat).1 hown
        exact ⟨blocks', hblocks', hsub.trans hinfix⟩

/-- A module whose one statement declares the name `a`. -/
def declaration : Tree :=
  .node "Module" [] [("body", .list [.node "Global" [1, 0] [("names", .list [.leaf (.str "a")])]])]

/-- A module whose one statement is conditional.  Its fields are not in the order of their
    names, and neither are those of the name that it tests. -/
def conditional : Tree :=
  .node "Module" [] [("body", .list [.node "If" [1, 0]
    [("test", .node "Name" [1, 3] [("id", .leaf (.str "a")), ("ctx", .node "Load" [] [])]),
     ("body", .list [.node "Pass" [1, 6] []]), ("orelse", .list [])]])]

/-- A list of names cannot be listed.  The conditional can, and has eight lines for the eight
    places below the module. -/
theorem fullListing_samples :
    declaration.isFlat = true ∧ declaration.fullListing = none ∧
    conditional.isFlat = true ∧ conditional.Numbers (conditional.place? .root) ∧
    conditional.fullListing = some [".body[0] []", ".body[0] (If)", ".body[0].body[0] []",
      ".body[0].body[0] (Pass)", ".body[0].orelse []", ".body[0].test (Name)",
      ".body[0].test.ctx (Load)", ".body[0].test.id => 'a'"] ∧
    ∃ as : List (List Nat), as.Pairwise (· < ·) ∧ as.length = 8 ∧
      ∀ a, a ∈ as ↔ a ≠ [] ∧ (conditional.place? .root a).isSome = true := by
  have hflat : declaration.isFlat = true := by decide
  have hflat' : conditional.isFlat = true := by decide
  have hif : ∀ a b c : Option (List String), sortFields [("test", a), ("body", b), ("orelse", c)]
      = [("body", b), ("orelse", c), ("test", a)] := by simp [sortFields, List.mergeSort]
  have hname : ∀ a b : Option (List String), sortFields [("id", a), ("ctx", b)]
      = [("ctx", b), ("id", a)] := by simp [sortFields, List.mergeSort]
  have hlines : conditional.fullListing = some [".body[0] []", ".body[0] (If)",
      ".body[0].body[0] []", ".body[0].body[0] (Pass)", ".body[0].orelse []",
      ".body[0].test (Name)", ".body[0].test.ctx (Load)", ".body[0].test.id => 'a'"] := by
    simp only [conditional, fullListing, listing, fieldListings, itemListing, hif, hname]
    cbv
  have hnames : declaration.place? .root [0, 0, 0] =
      some (⟨[.field "names", .item 0, .field "body"]⟩, .list [.leaf (.str "a")]) := by cbv
  obtain ⟨hnumbers, -, hlisting⟩ := fullListing_in_order hflat'
  obtain ⟨⟨as, horder, hplaces, hall⟩, -⟩ := hlisting _ hlines
  refine ⟨hflat, ?_, hflat', hnumbers, hlines, as, horder, hall.length_eq, hplaces⟩
  exact (fullListing_in_order hflat).2.1.2 ⟨_, _, _, _, hnames, List.mem_cons_self⟩

end SourceScribe.Tree
