/-
  The places of a tree, and that their paths tell them apart.

  A place is given by its address: the numbers of the steps down to it, among what stands one
  step below (`Tree.children`).  There, the fields of a node are in the order of their names.

  A written path has the indices of all items up to the one that is meant, so it is no plain
  address.  It can be read all the same, as long as no list holds a list: the indices after a
  name are then those of one item, and their number tells which (`Path.text_inj`).

  `path_tells_place`: two places have the same path just if one is a list and the other its
  last item.
-/
import Mathlib
import SourceScribe.Proofs.Tree.Evaluation

namespace SourceScribe

/-! ## Reading a path back -/

namespace Step

/-- Whether a step leads to an item of a list. -/
def isItem : Step → Bool
  | .field _ => false
  | .item _ => true

/-- Two steps in a row, unless both lead to items. -/
def Apart (s s' : Step) : Prop := s.isItem = false ∨ s'.isItem = false

theorem isItem_of_mem_range {n : Nat} {s : Step} (h : s ∈ (List.range n).map Step.item) :
    s.isItem = true := by
  obtain ⟨i, -, rfl⟩ := List.mem_map.1 h
  rfl

/-- The first accessor of a path leads to an item just if its first step does. -/
theorem exists_head_chain (s : Step) (steps : List Step) :
    ∃ x more, (s :: steps).flatMap chain = x :: more ∧ x.isItem = s.isItem := by
  cases s with
  | field name => exact ⟨.field name, _, rfl, rfl⟩
  | item i =>
    rw [List.flatMap_cons, chain, List.range_succ_eq_map]
    exact ⟨.item 0, _, rfl, rfl⟩

/-- What follows an item begins with a field. -/
theorem takeWhile_isItem_chain {i : Nat} {steps : List Step}
    (h : (Step.item i :: steps).IsChain Apart) :
    ((Step.item i :: steps).flatMap chain).takeWhile isItem = (List.range (i + 1)).map .item := by
  rw [List.flatMap_cons, chain,
    List.takeWhile_append_of_pos fun s hs => isItem_of_mem_range hs]
  cases steps with
  | nil => simp
  | cons s steps =>
    have hs : s.isItem = false := by
      rcases (List.isChain_cons_cons.1 h).1 with hi | hs
      · cases hi
      · exact hs
    obtain ⟨x, more, hmore, hitem⟩ := exists_head_chain s steps
    rw [hmore, List.takeWhile_cons_of_neg (by simp [hitem, hs]), List.append_nil]

/-- Steps can be told from their accessors. -/
theorem chain_inj {steps steps' : List Step} (h : steps.IsChain Apart) (h' : steps'.IsChain Apart)
    (heq : steps.flatMap chain = steps'.flatMap chain) : steps = steps' := by
  induction steps generalizing steps' with
  | nil =>
    cases steps' with
    | nil => rfl
    | cons s' steps' =>
      obtain ⟨x, more, hmore, -⟩ := exists_head_chain s' steps'
      cases heq.trans hmore
  | cons s steps ih =>
    obtain ⟨x, more, hmore, hitem⟩ := exists_head_chain s steps
    cases steps' with
    | nil => cases heq.symm.trans hmore
    | cons s' steps' =>
      obtain ⟨x', more', hmore', hitem'⟩ := exists_head_chain s' steps'
      have hhead : x = x' := (List.cons.inj (hmore.symm.trans (heq.trans hmore'))).1
      have hkind : s.isItem = s'.isItem := by rw [← hitem, hhead, hitem']
      have hsame : s = s' := by
        cases s with
        | field name =>
          cases s' with
          | field name' => exact (List.cons.inj heq).1
          | item j => cases hkind
        | item i =>
          cases s' with
          | field name' => cases hkind
          | item j =>
            -- the indices up to the next name are as many as the item has
            have hrun := congrArg (fun steps => (steps.takeWhile isItem).length) heq
            simp only [takeWhile_isItem_chain h, takeWhile_isItem_chain h', List.length_map,
              List.length_range] at hrun
            rw [Nat.succ_inj.1 hrun]
      subst hsame
      rw [List.flatMap_cons, List.flatMap_cons] at heq
      exact congrArg (s :: ·) (ih h.tail h'.tail (List.append_cancel_left heq))

end Step

namespace Path

/-- Whether the written form of a path can be read: all names are plain, and no item of a
    list is a list that is entered. -/
structure Legible (p : Path) : Prop where
  plain : p.isPlain = true
  apart : p.steps.IsChain Step.Apart

/-- A legible path can be told from its written form. -/
theorem text_inj {p q : Path} (hp : p.Legible) (hq : q.Legible) (h : p.text = q.text) : p = q := by
  have hread : ∀ {r : Path}, r.Legible → Step.readChain r.text.toList = some r.chain := by
    intro r hr
    rw [r.toList_text]
    refine Step.readChain_accessors fun s hs => ?_
    obtain ⟨x, hx, hs⟩ := List.mem_flatMap.1 hs
    exact Step.isPlain_of_mem_chain (List.all_eq_true.1 hr.plain x (List.mem_reverse.1 hx)) hs
  have happart : ∀ {r : Path}, r.Legible → r.steps.reverse.IsChain Step.Apart := by
    intro r hr
    rw [List.isChain_reverse]
    exact hr.apart.imp fun _ _ => Or.symm
  have hchain : p.chain = q.chain :=
    Option.some.inj (by rw [← hread hp, ← hread hq, h])
  have hsteps := Step.chain_inj (happart hp) (happart hq) hchain
  exact congrArg Path.mk (List.reverse_injective hsteps)

end Path

namespace Tree

/-! ## Addresses -/

/-- What stands one step below the top of a tree, each with its step: the fields of a node in
    the order of their names, the items of a list in their own. -/
def children : Tree → List (Step × Tree)
  | leaf _ => []
  | list items => items.mapIdx fun i t => (.item i, t)
  | node _ _ fields => (sortFields fields).map fun f => (.field f.1, f.2)

/-- The place at an address of the tree at `p`, and what stands there. -/
def place? (p : Path) (t : Tree) : List Nat → Option (Path × Tree)
  | [] => some (p, t)
  | i :: a => t.children[i]?.bind fun e => e.2.place? ⟨e.1 :: p.steps⟩ a

theorem mem_children_node {cls : String} {places : List Int} {fields : List (String × Tree)}
    {e : Step × Tree} : e ∈ (node cls places fields).children ↔
      ∃ f ∈ fields, (.field f.1, f.2) = e := by
  rw [children, List.mem_map]
  exact exists_congr fun f => and_congr_left' List.mem_mergeSort

theorem mem_children_list {items : List Tree} {e : Step × Tree} :
    e ∈ (list items).children ↔ ∃ i, items[i]? = some e.2 ∧ e.1 = .item i := by
  rw [children, List.mem_iff_getElem?]
  refine exists_congr fun i => ?_
  rw [List.getElem?_mapIdx, Option.map_eq_some_iff]
  constructor
  · rintro ⟨t, ht, rfl⟩
    exact ⟨ht, rfl⟩
  · rintro ⟨ht, hstep⟩
    exact ⟨e.2, ht, Prod.ext hstep.symm rfl⟩

/-- What holds of a tree if it holds of all that stands one step below holds of every tree. -/
theorem inductionOnChildren {P : Tree → Prop} (h : ∀ t, (∀ e ∈ t.children, P e.2) → P t)
    (t : Tree) : P t := by
  induction t using inductionOn with
  | hleaf v =>
    refine h _ fun e he => ?_
    cases he
  | hlist items ih =>
    refine h _ fun e he => ?_
    obtain ⟨i, hi, -⟩ := mem_children_list.1 he
    exact ih e.2 (List.mem_of_getElem? hi)
  | hnode cls places fields ih =>
    refine h _ fun e he => ?_
    obtain ⟨f, hf, rfl⟩ := mem_children_node.1 he
    exact ih f hf

theorem place?_append (p : Path) (t : Tree) (a b : List Nat) :
    t.place? p (a ++ b) = (t.place? p a).bind fun e => e.2.place? e.1 b := by
  induction a generalizing p t with
  | nil => rfl
  | cons i a ih =>
    rw [List.cons_append, place?, place?, Option.bind_assoc]
    exact Option.bind_congr fun e _ => ih _ e.2

/-- An address has one number for every step of its path. -/
theorem steps_of_place? {p q : Path} {t u : Tree} {a : List Nat}
    (h : t.place? p a = some (q, u)) :
    p.steps <:+ q.steps ∧ q.steps.length = p.steps.length + a.length := by
  induction a generalizing p t with
  | nil =>
    cases h
    exact ⟨List.suffix_rfl, rfl⟩
  | cons i a ih =>
    rw [place?, Option.bind_eq_some_iff] at h
    obtain ⟨e, -, h⟩ := h
    obtain ⟨hsuffix, hlength⟩ := ih h
    refine ⟨(List.suffix_cons e.1 p.steps).trans hsuffix, ?_⟩
    rw [hlength, List.length_cons, List.length_cons]
    omega

/-! ## Names -/

mutual

/-- Whether the fields of every node have different names, without dots and brackets. -/
def hasClearNames : Tree → Bool
  | leaf _ => true
  | list items => hasClearItems items
  | node _ _ fields => decide (fields.map (·.1)).Nodup && hasClearFields fields

/-- The names of the fields are plain, and `hasClearNames` of all that they hold. -/
def hasClearFields : List (String × Tree) → Bool
  | [] => true
  | (name, t) :: fields =>
    (Step.field name).isPlain && t.hasClearNames && hasClearFields fields

/-- `hasClearNames` of all items. -/
def hasClearItems : List Tree → Bool
  | [] => true
  | t :: items => t.hasClearNames && hasClearItems items

end

theorem hasClearNames_of_mem_fields {fields : List (String × Tree)} {f : String × Tree}
    (h : hasClearFields fields = true) (hf : f ∈ fields) :
    (Step.field f.1).isPlain = true ∧ f.2.hasClearNames = true := by
  refine forall_mem_of_check
    (P := fun f => (Step.field f.1).isPlain = true ∧ f.2.hasClearNames = true)
    (fun g fields h => ?_) h f hf
  rwa [hasClearFields, Bool.and_eq_true, Bool.and_eq_true] at h

theorem hasClearNames_of_mem_items {items : List Tree} {t : Tree}
    (h : hasClearItems items = true) (ht : t ∈ items) : t.hasClearNames = true := by
  refine forall_mem_of_check (P := (hasClearNames · = true)) (fun u items h => ?_) h t ht
  rwa [hasClearItems, Bool.and_eq_true] at h

/-- The children of a node with clear names are reached by different steps. -/
theorem nodup_steps_children {t : Tree} (h : t.hasClearNames = true) :
    (t.children.map Prod.fst).Nodup := by
  cases t with
  | leaf v => exact List.nodup_nil
  | list items =>
    have hsteps : (list items).children.map Prod.fst = (List.range items.length).map .item := by
      refine List.ext_getElem (by simp [children]) fun i hi _ => ?_
      simp [children]
    rw [hsteps]
    exact List.nodup_range.map fun i j hij => Step.item.inj hij
  | node cls places fields =>
    rw [hasClearNames, Bool.and_eq_true, decide_eq_true_eq] at h
    have hperm : ((node cls places fields).children.map Prod.fst).Perm
        ((fields.map (·.1)).map .field) := by
      rw [children, List.map_map, List.map_map]
      exact (perm_sortFields fields).map _
    exact hperm.nodup_iff.2 (h.1.map fun x y hxy => Step.field.inj hxy)

/-! ## Places -/

/-- What stands at a place of a tree in which no list holds a list and all names are clear. -/
structure Stands (p : Path) (t : Tree) : Prop where
  legible : p.Legible
  noInner : ∀ i up, p.steps = .item i :: up → ∀ items, t ≠ list items
  flat : t.isFlat = true
  names : t.hasClearNames = true

theorem Stands.root {t : Tree} (hflat : t.isFlat = true) (hnames : t.hasClearNames = true) :
    Stands .root t where
  legible := ⟨rfl, List.isChain_nil⟩
  noInner _ _ h := by cases h
  flat := hflat
  names := hnames

/-- What stands one step below. -/
theorem Stands.child {p : Path} {t : Tree} {e : Step × Tree} (h : Stands p t)
    (he : e ∈ t.children) : Stands ⟨e.1 :: p.steps⟩ e.2 := by
  have hplain := h.legible.plain
  rw [Path.isPlain] at hplain
  cases t with
  | leaf v => cases he
  | list items =>
    obtain ⟨i, hi, hstep⟩ := mem_children_list.1 he
    obtain ⟨hflat, hno⟩ := isFlat_of_mem h.flat (List.mem_of_getElem? hi)
    have hnames := hasClearNames_of_mem_items h.names (List.mem_of_getElem? hi)
    rw [hstep]
    refine ⟨⟨?_, ?_⟩, fun _ _ _ => hno, hflat, hnames⟩
    · rw [Path.isPlain, List.all_cons, hplain]
      rfl
    · -- the list itself is no item
      cases hup : p.steps with
      | nil => exact List.isChain_singleton _
      | cons s up =>
        refine List.isChain_cons_cons.2 ⟨?_, hup ▸ h.legible.apart⟩
        cases s with
        | field name => exact Or.inr rfl
        | item j => exact absurd rfl (h.noInner j up hup items)
  | node cls places fields =>
    obtain ⟨f, hf, rfl⟩ := mem_children_node.1 he
    have hfields := h.names
    rw [hasClearNames, Bool.and_eq_true] at hfields
    obtain ⟨hname, hnames⟩ := hasClearNames_of_mem_fields hfields.2 hf
    refine ⟨⟨?_, ?_⟩, ?_, isFlat_of_mem_fields h.flat hf, hnames⟩
    · rw [Path.isPlain, List.all_cons, hplain, hname]
      rfl
    · cases hup : p.steps with
      | nil => exact List.isChain_singleton _
      | cons s up => exact List.isChain_cons_cons.2 ⟨Or.inl rfl, hup ▸ h.legible.apart⟩
    · intro i up hitem
      cases hitem

theorem Stands.place? {p q : Path} {t u : Tree} {a : List Nat} (h : Stands p t)
    (hu : t.place? p a = some (q, u)) : Stands q u := by
  induction a generalizing p t with
  | nil =>
    cases hu
    exact h
  | cons i a ih =>
    rw [Tree.place?, Option.bind_eq_some_iff] at hu
    obtain ⟨e, he, hu⟩ := hu
    exact ih (h.child (List.mem_of_getElem? he)) hu

/-- Different addresses have different paths. -/
theorem Stands.address_inj {p q : Path} {t u v : Tree} {a b : List Nat} (h : Stands p t)
    (ha : t.place? p a = some (q, u)) (hb : t.place? p b = some (q, v)) : a = b := by
  have hlength : a.length = b.length := by
    have hla := (steps_of_place? ha).2
    have hlb := (steps_of_place? hb).2
    omega
  induction a generalizing p t b with
  | nil => exact (List.eq_nil_of_length_eq_zero hlength.symm).symm
  | cons i a ih =>
    cases b with
    | nil => cases hlength
    | cons j b =>
      rw [Tree.place?, Option.bind_eq_some_iff] at ha hb
      obtain ⟨e, he, ha⟩ := ha
      obtain ⟨e', he', hb⟩ := hb
      -- the first step can be told from the path
      have hstep : e.1 = e'.1 := by
        have hsame := List.suffix_of_suffix_length_le (steps_of_place? ha).1 (steps_of_place? hb).1
          (by simp)
        exact (List.cons.inj (hsame.eq_of_length (by simp))).1
      have hij : i = j := by
        refine (List.getElem?_inj ?_ (nodup_steps_children h.names)).1 ?_
        · rw [List.length_map]
          exact (List.getElem?_eq_some_iff.1 he).1
        · rw [List.getElem?_map, List.getElem?_map, he, he', Option.map_some, Option.map_some,
            hstep]
      subst hij
      obtain rfl : e = e' := Option.some.inj (he.symm.trans he')
      rw [ih (h.child (List.mem_of_getElem? he)) ha hb (Nat.succ_inj.1 hlength)]

/-! ## Paths that are shown -/

/-- The place whose written form is the path of a list: that of its last item, if there is
    one. -/
def shown (p : Path) : Tree → Path
  | list (_ :: items) => p.item items.length
  | _ => p

theorem pathText_of_ne_list {p : Path} {u : Tree} (h : ∀ items, u ≠ list items) :
    u.pathText p = p.text := by
  cases u with
  | leaf v => rfl
  | node cls places fields => rfl
  | list items => exact absurd rfl (h items)

theorem pathText_eq_shown (p : Path) (u : Tree) : u.pathText p = (u.shown p).text := by
  cases u with
  | leaf v => rfl
  | node cls places fields => rfl
  | list items =>
    cases items with
    | nil => simp [pathText, Path.listText, Path.indices, shown]
    | cons t items => rfl

/-- The address of the last item of a list at the address `a`, if it has items. -/
def lastItem? (a : List Nat) : Tree → Option (List Nat)
  | list (_ :: items) => some (a ++ [items.length])
  | _ => none

/-- The path of a tree is the written form of the place of its last item, or of its own. -/
theorem place?_shown {t u : Tree} {p r : Path} {a : List Nat} (h : t.place? r a = some (p, u)) :
    ∃ w, t.place? r ((u.lastItem? a).getD a) = some (u.shown p, w) := by
  cases u with
  | leaf v => exact ⟨_, h⟩
  | node cls places fields => exact ⟨_, h⟩
  | list items =>
    cases items with
    | nil => exact ⟨_, h⟩
    | cons x items =>
      have hlast : (list (x :: items)).children[items.length]? =
          some (.item items.length, (x :: items).getLast (by simp)) := by
        rw [children, List.getElem?_mapIdx, List.getLast_eq_getElem]
        simp
      refine ⟨(x :: items).getLast (by simp), ?_⟩
      rw [lastItem?, Option.getD_some, place?_append, h, Option.bind_some, place?, hlast]
      rfl

theorem Stands.legible_shown {p : Path} {u : Tree} (h : Stands p u) : (u.shown p).Legible := by
  have hown : u.place? p [] = some (p, u) := rfl
  obtain ⟨w, hw⟩ := place?_shown hown
  exact (h.place? hw).legible

/-- Two paths are the same just if they are written for the same place. -/
theorem Stands.pathText_eq_iff {t u v : Tree} {p q r : Path} {a b : List Nat} (h : Stands r t)
    (ha : t.place? r a = some (p, u)) (hb : t.place? r b = some (q, v)) :
    u.pathText p = v.pathText q ↔ (u.lastItem? a).getD a = (v.lastItem? b).getD b := by
  obtain ⟨w, hw⟩ := place?_shown ha
  obtain ⟨x, hx⟩ := place?_shown hb
  rw [pathText_eq_shown, pathText_eq_shown]
  constructor
  · intro htext
    have hsame := Path.text_inj (h.place? ha).legible_shown (h.place? hb).legible_shown htext
    rw [hsame] at hw
    exact h.address_inj hw hx
  · intro haddress
    rw [haddress, hx, Option.some.injEq, Prod.mk.injEq] at hw
    rw [hw.1]

theorem lastItem?_eq_some {a b : List Nat} {u : Tree} :
    u.lastItem? a = some b ↔ ∃ x items, u = list (x :: items) ∧ b = a ++ [items.length] := by
  constructor
  · intro h
    cases u with
    | leaf v => cases h
    | node cls places fields => cases h
    | list items =>
      cases items with
      | nil => cases h
      | cons x items => exact ⟨x, items, rfl, (Option.some.inj h).symm⟩
  · rintro ⟨x, items, rfl, rfl⟩
    rfl

/-- The last item of a list is no list itself. -/
theorem Stands.lastItem?_eq_none {t u v : Tree} {p q r : Path} {a b : List Nat} (h : Stands r t)
    (ha : t.place? r a = some (p, u)) (hb : t.place? r b = some (q, v))
    (hlast : u.lastItem? a = some b) : v.lastItem? b = none := by
  obtain ⟨w, hw⟩ := place?_shown ha
  rw [hlast, Option.getD_some, hb, Option.some.injEq, Prod.mk.injEq] at hw
  obtain ⟨x, items, rfl, -⟩ := lastItem?_eq_some.1 hlast
  have hno : ∀ inner, v ≠ list inner :=
    (h.place? hb).noInner items.length p.steps (by rw [hw.1]; rfl)
  by_contra hsome
  obtain ⟨b', hb'⟩ := Option.ne_none_iff_exists'.1 hsome
  obtain ⟨y, inner, hv, -⟩ := lastItem?_eq_some.1 hb'
  exact hno _ hv

/-- **The path of a place tells the place.**  Let no list of a tree hold a list, and the fields
    of every node have different names without dots and brackets.  Then two different places
    that hold nodes or scalars have different paths.  Where lists are looked at too, a path is
    shared just by a list and its last item. -/
theorem path_tells_place {t u v : Tree} {p q : Path} {a b : List Nat} (hflat : t.isFlat = true)
    (hnames : t.hasClearNames = true) (ha : t.place? .root a = some (p, u))
    (hb : t.place? .root b = some (q, v)) (hne : a ≠ b) :
    ((∀ items, u ≠ list items) → (∀ items, v ≠ list items) → p.text ≠ q.text) ∧
    (u.pathText p = v.pathText q ↔ u.lastItem? a = some b ∨ v.lastItem? b = some a) := by
  have hroot := Stands.root hflat hnames
  have hlast : u.pathText p = v.pathText q ↔ u.lastItem? a = some b ∨ v.lastItem? b = some a := by
    rw [hroot.pathText_eq_iff ha hb]
    cases hua : u.lastItem? a with
    | none =>
      cases hvb : v.lastItem? b with
      | none => simpa using hne
      | some y => simp [eq_comm]
    | some x =>
      cases hvb : v.lastItem? b with
      | none => simp
      | some y =>
        -- two lists: neither is an item of the other
        have hxb : x ≠ b := by
          rintro rfl
          rw [hroot.lastItem?_eq_none ha hb hua] at hvb
          cases hvb
        have hya : y ≠ a := by
          rintro rfl
          rw [hroot.lastItem?_eq_none hb ha hvb] at hua
          cases hua
        obtain ⟨_, items, -, rfl⟩ := lastItem?_eq_some.1 hua
        obtain ⟨_, items', -, rfl⟩ := lastItem?_eq_some.1 hvb
        have hxy : a ++ [items.length] ≠ b ++ [items'.length] := fun h =>
          hne (List.append_inj_left' h rfl)
        simp [hxb, hya, hxy]
  refine ⟨fun hu hv htext => ?_, hlast⟩
  rw [pathText_of_ne_list hu, pathText_of_ne_list hv] at hlast
  rcases hlast.1 htext with h | h
  · obtain ⟨x, items, rfl, -⟩ := lastItem?_eq_some.1 h
    exact hu _ rfl
  · obtain ⟨x, items, rfl, -⟩ := lastItem?_eq_some.1 h
    exact hv _ rfl

/-- A module of eleven statements of one word and an assignment to two names. -/
def manyStatements : Tree :=
  let name (id : String) : Tree := .node "Name" [12, 0] [("id", .leaf (.str id))]
  .node "Module" [] [("body", .list (List.replicate 11 (.node "Pass" [1, 0] []) ++
    [.node "Assign" [12, 0] [("targets", .list [name "a", name "b"]), ("value", name "c")]]))]

/-- The eleventh statement, the second target and the text of the value have paths of their
    own; the list of targets has that of the second one. -/
theorem manyStatements_path_tells_place :
    let statement : Path := ⟨[.item 10, .field "body"]⟩
    let targets : Path := ⟨[.field "targets", .item 11, .field "body"]⟩
    let second : Path := ⟨[.item 1, .field "targets", .item 11, .field "body"]⟩
    let text : Path := ⟨[.field "id", .field "value", .item 11, .field "body"]⟩
    manyStatements.isFlat = true ∧ manyStatements.hasClearNames = true ∧
      statement.text ≠ second.text ∧ second.text ≠ text.text ∧
      targets.listText 2 = second.text := by
  intro statement targets second text
  have hflat : manyStatements.isFlat = true := by decide
  have hnames : manyStatements.hasClearNames = true := by decide
  have hstatement : manyStatements.place? .root [0, 10] =
      some (statement, .node "Pass" [1, 0] []) := by cbv
  have htargets : manyStatements.place? .root [0, 11, 0] =
      some (targets, .list [.node "Name" [12, 0] [("id", .leaf (.str "a"))],
        .node "Name" [12, 0] [("id", .leaf (.str "b"))]]) := by cbv
  have hsecond : manyStatements.place? .root [0, 11, 0, 1] =
      some (second, .node "Name" [12, 0] [("id", .leaf (.str "b"))]) := by cbv
  have htext : manyStatements.place? .root [0, 11, 1, 0] =
      some (text, .leaf (.str "c")) := by cbv
  refine ⟨hflat, hnames, ?_, ?_, ?_⟩
  · exact (path_tells_place hflat hnames hstatement hsecond (by decide)).1 (by simp) (by simp)
  · exact (path_tells_place hflat hnames hsecond htext (by decide)).1 (by simp) (by simp)
  · exact (path_tells_place hflat hnames htargets hsecond (by decide)).2.2 (Or.inl rfl)

end Tree

end SourceScribe
