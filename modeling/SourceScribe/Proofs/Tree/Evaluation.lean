/-
  Where the written form of a path leads.

  A written path is a chain of accessors: `.name` takes a field and `[i]` an item of a list.
  `Tree.evaluate?` reads such a text and follows it from the top of a tree, to a place and
  what stands there.

  An item is written with the indices of all items up to it, and a list with those of all its
  items (`Path.chain`), so there are accessors too many wherever a list has been entered after
  its first item.  `written_path_leads_iff`: the path of a place leads to it just if every list on
  the way is entered at its first item and, for a list, that is empty.
-/
import Mathlib.Data.List.Induction
import SourceScribe.Proofs.Tree.Lookup
import SourceScribe.Tree.Listing

namespace SourceScribe

/-! ## Accessors -/

namespace Step

/-- Whether a character goes on with the name of a field. -/
def isNameChar (c : Char) : Bool := c != '.' && c != '['

/-- Whether the name of a field has no dots and brackets, so that its end can be told. -/
def isPlain : Step → Bool
  | .field name => name.toList.all isNameChar
  | .item _ => true

/-- A step as an accessor. -/
def accessor : Step → List Char
  | .field name => '.' :: name.toList
  | .item i => '[' :: ((toString i).toList ++ [']'])

/-- The steps that a chain of accessors takes, the first one first. -/
def readChain : List Char → Option (List Step)
  | [] => some []
  | '.' :: cs =>
    (readChain (cs.dropWhile isNameChar)).map
      (.field (String.ofList (cs.takeWhile isNameChar)) :: ·)
  | '[' :: cs =>
    match _h : cs.dropWhile Char.isDigit with
    | ']' :: rest =>
      if (cs.takeWhile Char.isDigit).isEmpty then none
      else (readChain rest).map (.item (Nat.ofDigitChars 10 (cs.takeWhile Char.isDigit) 0) :: ·)
    | _ => none
  | _ => none
termination_by cs => cs.length
decreasing_by
  · exact Nat.lt_succ_of_le (List.dropWhile_suffix _).length_le
  · have hle := (List.dropWhile_suffix (l := cs) Char.isDigit).length_le
    simp only [_h, List.length_cons] at hle ⊢
    omega

theorem readChain_field {name : String} (h : (field name).isPlain = true) {cs : List Char}
    (hcs : ∀ c ∈ cs.head?, isNameChar c = false) :
    readChain ((field name).accessor ++ cs) = (readChain cs).map (.field name :: ·) := by
  have hname : ∀ c ∈ name.toList, isNameChar c = true := List.all_eq_true.1 h
  have hstop : cs.takeWhile isNameChar = [] ∧ cs.dropWhile isNameChar = cs := by
    cases cs with
    | nil => exact ⟨rfl, rfl⟩
    | cons c cs => simp [hcs c rfl]
  rw [accessor, List.cons_append, readChain, List.takeWhile_append_of_pos hname,
    List.dropWhile_append_of_pos hname, hstop.1, hstop.2, List.append_nil, String.ofList_toList]

theorem readChain_item (i : Nat) (cs : List Char) :
    readChain ((item i).accessor ++ cs) = (readChain cs).map (.item i :: ·) := by
  have htext : (toString i).toList = Nat.toDigits 10 i := by
    rw [Nat.toString_eq_repr, Nat.repr_eq_ofList_toDigits, String.toList_ofList]
  have hdigits : ∀ c ∈ Nat.toDigits 10 i, c.isDigit = true :=
    fun c hc => Nat.isDigit_of_mem_toDigits (by decide) (by decide) hc
  have htake : (Nat.toDigits 10 i ++ ']' :: cs).takeWhile Char.isDigit = Nat.toDigits 10 i := by
    rw [List.takeWhile_append_of_pos hdigits]
    simp
  have hdrop : (Nat.toDigits 10 i ++ ']' :: cs).dropWhile Char.isDigit = ']' :: cs := by
    rw [List.dropWhile_append_of_pos hdigits]
    simp
  have hsome : (Nat.toDigits 10 i).isEmpty = false := by
    simp [List.isEmpty_eq_false_iff, Nat.toDigits_ne_nil]
  rw [accessor, htext, List.cons_append, List.append_assoc, List.singleton_append, readChain, htake,
    hsome, Nat.ofDigitChars_toDigits (by decide) (by decide)]
  split
  · rename_i hcons
    rw [hdrop] at hcons
    cases hcons
    rfl
  · rename_i hno
    exact absurd hdrop (hno cs)

/-- A chain of plain accessors is read as it was written. -/
theorem readChain_accessors {steps : List Step} (h : ∀ s ∈ steps, s.isPlain = true) :
    readChain (steps.flatMap accessor) = some steps := by
  induction steps with
  | nil => rw [List.flatMap_nil, readChain]
  | cons s steps ih =>
    have hmore := ih fun s hs => h s (List.mem_cons_of_mem _ hs)
    rw [List.flatMap_cons]
    cases s with
    | item i => rw [readChain_item, hmore, Option.map_some]
    | field name =>
      rw [readChain_field (h _ List.mem_cons_self) ?_, hmore, Option.map_some]
      -- the next accessor begins with a dot or a bracket
      rcases steps with _ | ⟨_ | _, steps⟩ <;> simp [accessor, isNameChar]

/-- The accessors with which a step is written: an item with the items before it. -/
def chain : Step → List Step
  | .field name => [.field name]
  | .item i => (List.range (i + 1)).map .item

/-- Whether a step takes no item but the first of a list. -/
def isFirst : Step → Bool
  | .field _ => true
  | .item i => i = 0

theorem chain_of_isFirst : ∀ {s : Step}, s.isFirst = true → s.chain = [s]
  | .field _, _ => rfl
  | .item i, h => by
    obtain rfl : i = 0 := of_decide_eq_true h
    rfl

theorem isPlain_of_mem_chain {s x : Step} (h : s.isPlain = true) (hx : x ∈ s.chain) :
    x.isPlain = true := by
  cases s with
  | field name => rwa [List.mem_singleton.1 hx]
  | item i =>
    obtain ⟨j, -, rfl⟩ := List.mem_map.1 hx
    rfl

end Step

namespace Path

/-- Whether all names of fields on the way are plain. -/
def isPlain (p : Path) : Bool := p.steps.all Step.isPlain

/-- Whether every list on the way is entered at its first item. -/
def isFirst (p : Path) : Bool := p.steps.all Step.isFirst

/-- The accessors in the written form of a path, the first one first. -/
def chain (p : Path) : List Step := p.steps.reverse.flatMap Step.chain

theorem toList_indices (n : Nat) :
    (indices n).toList = ((List.range n).map Step.item).flatMap Step.accessor := by
  induction n with
  | zero => rfl
  | succ n ih =>
    rw [indices, String.toList_append, String.toList_append, String.toList_append, ih,
      List.range_succ, List.map_append, List.flatMap_append]
    simp [Step.accessor]

theorem toList_text (p : Path) : p.text.toList = p.chain.flatMap Step.accessor := by
  obtain ⟨steps⟩ := p
  rw [text, chain]
  induction steps with
  | nil => rfl
  | cons s up ih =>
    rw [List.reverse_cons, List.flatMap_append, List.flatMap_append, ← ih]
    cases s with
    | field name =>
      rw [textOf, String.toList_append, String.toList_append]
      simp [Step.chain, Step.accessor]
    | item i =>
      rw [textOf, String.toList_append, toList_indices]
      simp [Step.chain]

end Path

namespace Tree

/-! ## Evaluation -/

/-- What one accessor takes of a tree. -/
def select? : Tree → Step → Option Tree
  | node _ _ fields, .field name => fields.lookup name
  | list items, .item i => items[i]?
  | _, _ => none

/-- Where a chain of accessors leads from the tree at `p`. -/
def locate? (p : Path) (t : Tree) : List Step → Option (Path × Tree)
  | [] => some (p, t)
  | s :: steps => (t.select? s).bind fun u => u.locate? ⟨s :: p.steps⟩ steps

/-- The place to which a text leads from the top of a tree, and what stands there. -/
def evaluate? (t : Tree) (text : String) : Option (Path × Tree) :=
  (Step.readChain text.toList).bind (t.locate? .root)

/-- The path that is shown for what stands at a place. -/
def pathText (p : Path) : Tree → String
  | list items => p.listText items.length
  | _ => p.text

/-- The accessors at the end of that path: a list shows the indices of its items. -/
def ownChain : Tree → List Step
  | list items => (List.range items.length).map .item
  | _ => []

theorem toList_pathText (p : Path) (u : Tree) :
    (u.pathText p).toList = (p.chain ++ u.ownChain).flatMap Step.accessor := by
  rw [List.flatMap_append, ← p.toList_text]
  cases u with
  | list items => rw [pathText, Path.listText, String.toList_append, Path.toList_indices, ownChain]
  | leaf v => simp [pathText, ownChain]
  | node cls places fields => simp [pathText, ownChain]

theorem evaluate?_eq_locate? {p : Path} (h : p.isPlain = true) (t u : Tree) :
    t.evaluate? (u.pathText p) = t.locate? .root (p.chain ++ u.ownChain) := by
  have hplain : ∀ s ∈ p.chain ++ u.ownChain, s.isPlain = true := by
    intro s hs
    rcases List.mem_append.1 hs with hs | hs
    · obtain ⟨x, hx, hs⟩ := List.mem_flatMap.1 hs
      exact Step.isPlain_of_mem_chain (List.all_eq_true.1 h x (List.mem_reverse.1 hx)) hs
    · cases u with
      | list items =>
        obtain ⟨i, -, rfl⟩ := List.mem_map.1 hs
        rfl
      | leaf v => cases hs
      | node cls places fields => cases hs
  rw [evaluate?, toList_pathText, Step.readChain_accessors hplain, Option.bind_some]

theorem locate?_append (steps more : List Step) (p : Path) (t : Tree) :
    t.locate? p (steps ++ more) = (t.locate? p steps).bind fun e => e.2.locate? e.1 more := by
  induction steps generalizing p t with
  | nil => rfl
  | cons s steps ih =>
    rw [List.cons_append, locate?, locate?, Option.bind_assoc]
    exact Option.bind_congr fun u _ => ih _ u

/-- The place reached is the one that the accessors name. -/
theorem steps_of_locate? {steps : List Step} {p q : Path} {t u : Tree}
    (h : t.locate? p steps = some (q, u)) : q.steps = steps.reverse ++ p.steps := by
  induction steps generalizing p t with
  | nil =>
    cases h
    rfl
  | cons s steps ih =>
    rw [locate?, Option.bind_eq_some_iff] at h
    obtain ⟨v, -, h⟩ := h
    rw [ih h, List.reverse_cons, List.append_assoc, List.singleton_append]

theorem select?_of_step? {t u : Tree} {s : Step} (h : t.step? s = some u) :
    t.select? s = some u := by
  cases s with
  | field name =>
    cases t with
    | node cls places fields => exact h
    | leaf v => cases h
    | list items => cases h
  | item i =>
    cases t with
    | list items => exact (step?_item.1 h).1
    | leaf v => cases h
    | node cls places fields => cases h

/-- A path on which every list is entered at its first item leads to its place. -/
theorem locate?_chain {t u : Tree} {p : Path} (hu : t.get? p = some u) (h : p.isFirst = true) :
    t.locate? .root p.chain = some (p, u) := by
  obtain ⟨steps⟩ := p
  rw [Path.chain]
  induction steps generalizing u with
  | nil =>
    cases hu
    rfl
  | cons s up ih =>
    obtain ⟨v, hv, hs⟩ := Option.bind_eq_some_iff.1 hu
    rw [Path.isFirst, List.all_cons, Bool.and_eq_true] at h
    rw [List.reverse_cons, List.flatMap_append, locate?_append, ih hv h.2, List.flatMap_singleton,
      Step.chain_of_isFirst h.1, Option.bind_some, locate?, select?_of_step? hs]
    rfl

theorem length_le_chain (steps : List Step) :
    steps.length ≤ (steps.flatMap Step.chain).length := by
  induction steps with
  | nil => exact Nat.le_refl 0
  | cons s steps ih =>
    have hone : 1 ≤ s.chain.length := by cases s <;> simp [Step.chain]
    rw [List.flatMap_cons, List.length_append, List.length_cons]
    omega

/-- There are as many accessors as steps only where every step takes a first item. -/
theorem isFirst_of_chain_le {steps : List Step}
    (h : (steps.flatMap Step.chain).length ≤ steps.length) : steps.all Step.isFirst = true := by
  induction steps with
  | nil => rfl
  | cons s steps ih =>
    have hmore := length_le_chain steps
    rw [List.flatMap_cons, List.length_append, List.length_cons] at h
    cases s with
    | field name =>
      have hone : (Step.field name).chain.length = 1 := rfl
      exact ih (by omega)
    | item i =>
      have hcount : (Step.item i).chain.length = i + 1 := by simp [Step.chain]
      obtain rfl : i = 0 := by omega
      exact ih (by omega)

/-- Whether a tree is a list that has items. -/
def hasItems : Tree → Bool
  | list items => !items.isEmpty
  | _ => false

theorem ownChain_eq_nil_iff {u : Tree} : u.ownChain = [] ↔ u.hasItems = false := by
  cases u with
  | list items => simp [hasItems, ownChain]
  | leaf v => simp [hasItems, ownChain]
  | node cls places fields => simp [hasItems, ownChain]

theorem locate?_chain_iff {t u : Tree} {p : Path} (hu : t.get? p = some u) :
    t.locate? .root (p.chain ++ u.ownChain) = some (p, u) ↔
      p.isFirst = true ∧ u.hasItems = false := by
  rw [← ownChain_eq_nil_iff]
  constructor
  · intro h
    have hsteps := congrArg List.length (steps_of_locate? h)
    have hle := length_le_chain p.steps.reverse
    simp only [Path.root, List.append_nil, List.length_reverse, List.length_append, Path.chain]
      at hsteps hle
    have hfirst : p.steps.reverse.all Step.isFirst = true :=
      isFirst_of_chain_le (by rw [List.length_reverse]; omega)
    rw [List.all_reverse] at hfirst
    exact ⟨hfirst, List.eq_nil_of_length_eq_zero (by omega)⟩
  · rintro ⟨hfirst, hown⟩
    rw [hown, List.append_nil, locate?_chain hu hfirst]

/-! ## Lists that hold no lists -/

mutual

/-- Whether no list holds a list. -/
def isFlat : Tree → Bool
  | leaf _ => true
  | node _ _ fields => isFlatFields fields
  | list items => isFlatItems items

/-- `isFlat` of all fields. -/
def isFlatFields : List (String × Tree) → Bool
  | [] => true
  | (_, t) :: fields => t.isFlat && isFlatFields fields

/-- All items are no lists, and `isFlat`. -/
def isFlatItems : List Tree → Bool
  | [] => true
  | list _ :: _ => false
  | t :: items => t.isFlat && isFlatItems items

end

theorem isFlat_of_mem_fields {fields : List (String × Tree)} {f : String × Tree}
    (h : isFlatFields fields = true) (hf : f ∈ fields) : f.2.isFlat = true := by
  refine forall_mem_of_check (P := fun f => f.2.isFlat = true) (fun g fields h => ?_) h f hf
  rwa [isFlatFields, Bool.and_eq_true] at h

theorem isFlat_of_mem {items : List Tree} {t : Tree} (h : isFlatItems items = true)
    (ht : t ∈ items) : t.isFlat = true ∧ ∀ inner, t ≠ list inner := by
  refine forall_mem_of_check (P := fun t => t.isFlat = true ∧ ∀ inner, t ≠ list inner)
    (fun u items h => ?_) h t ht
  cases u with
  | list inner => cases h
  | leaf | node =>
    simp only [isFlatItems, Bool.and_eq_true] at h
    exact ⟨⟨h.1, by simp⟩, h.2⟩

theorem isFlat_of_step? {t u : Tree} {s : Step} (ht : t.isFlat = true)
    (h : t.step? s = some u) : u.isFlat = true := by
  cases s with
  | field name =>
    cases t with
    | node cls places fields => exact isFlat_of_mem_fields ht (mem_of_lookup h)
    | leaf v => cases h
    | list items => cases h
  | item i =>
    cases t with
    | list items => exact (isFlat_of_mem ht (List.mem_of_getElem? (step?_item.1 h).1)).1
    | leaf v => cases h
    | node cls places fields => cases h

theorem isFlat_of_follow? {t u : Tree} {steps : List Step} (ht : t.isFlat = true)
    (h : t.follow? steps = some u) : u.isFlat = true := by
  induction steps generalizing u with
  | nil =>
    cases h
    exact ht
  | cons s up ih =>
    obtain ⟨v, hv, hs⟩ := Option.bind_eq_some_iff.1 h
    exact isFlat_of_step? (ih hv) hs

/-- No item of a list of no lists has items itself. -/
theorem locate?_range {t : Tree} (h : t.isFlat = true) (p : Path) (n : Nat) :
    t.locate? p ((List.range (n + 2)).map .item) = none := by
  rw [List.range_succ_eq_map, List.range_succ_eq_map]
  simp only [List.map_cons, locate?, Option.bind_eq_none_iff]
  intro x hx y hy
  cases t with
  | leaf v => cases hx
  | node cls places fields => cases hx
  | list items =>
    have hitem := (isFlat_of_mem h (List.mem_of_getElem? hx)).2
    cases x with
    | list inner => exact absurd rfl (hitem inner)
    | leaf v => cases hy
    | node cls places fields => cases hy

theorem locate?_chain_of_not_isFirst {t u : Tree} {p : Path} (ht : t.isFlat = true)
    (hu : t.get? p = some u) (h : p.isFirst = false) : t.locate? .root p.chain = none := by
  obtain ⟨steps⟩ := p
  rw [Path.chain]
  induction steps generalizing u with
  | nil => cases h
  | cons s up ih =>
    obtain ⟨v, hv, hs⟩ := Option.bind_eq_some_iff.1 hu
    rw [List.reverse_cons, List.flatMap_append, List.flatMap_singleton, locate?_append]
    cases hup : up.all Step.isFirst with
    | false =>
      rw [ih hv hup]
      rfl
    | true =>
      -- the last step takes a later item of its list
      have hlast : s.isFirst = false := by simpa [Path.isFirst, hup] using h
      have hchain : t.locate? .root (up.reverse.flatMap Step.chain) = some (⟨up⟩, v) :=
        locate?_chain hv hup
      rw [hchain, Option.bind_some]
      cases s with
      | field name => cases hlast
      | item i =>
        obtain ⟨j, rfl⟩ : ∃ j, i = j + 1 :=
          Nat.exists_eq_succ_of_ne_zero (of_decide_eq_false hlast)
        exact locate?_range (isFlat_of_follow? ht hv) _ j

/-- Where the indices at the end of its path lead from what stands at a place. -/
def ownEnd? (p : Path) : Tree → Option (Path × Tree)
  | list [] => some (p, list [])
  | list [item] => some (p.item 0, item)
  | list _ => none
  | u => some (p, u)

theorem locate?_eq_ownEnd? {t u : Tree} {p : Path} (ht : t.isFlat = true)
    (hu : t.get? p = some u) :
    t.locate? .root (p.chain ++ u.ownChain) = if p.isFirst then u.ownEnd? p else none := by
  rw [locate?_append]
  cases hfirst : p.isFirst with
  | false =>
    rw [locate?_chain_of_not_isFirst ht hu hfirst]
    rfl
  | true =>
    rw [locate?_chain hu hfirst, Option.bind_some, if_pos rfl]
    cases u with
    | leaf v => rfl
    | node cls places fields => rfl
    | list items =>
      rcases items with _ | ⟨x, _ | ⟨y, items⟩⟩
      · rfl
      · rfl
      · exact locate?_range (isFlat_of_follow? ht hu) p items.length

/-! ## Paths in the listing -/

/-- What the line of a place says after its path. -/
def placeNote : Tree → String
  | leaf v => " => " ++ v.text
  | list _ => " []"
  | node cls _ _ => " (" ++ cls ++ ")"

theorem subset_of_joinAll {α : Type} {part : Option (List α)} :
    ∀ {parts : List (Option (List α))} {all : List α}, joinAll parts = some all → part ∈ parts →
      ∃ xs, part = some xs ∧ xs ⊆ all
  | none :: _, _, h, _ => nomatch h
  | some xs :: parts, all, h, hpart => by
    rw [joinAll, Option.map_eq_some_iff] at h
    obtain ⟨more, hmore, rfl⟩ := h
    rcases List.mem_cons.1 hpart with rfl | hpart
    · exact ⟨xs, rfl, List.subset_append_left _ _⟩
    · obtain ⟨ys, hys, hsub⟩ := subset_of_joinAll hmore hpart
      exact ⟨ys, hys, List.Subset.trans hsub (List.subset_append_right _ _)⟩

theorem fieldListings_eq_map (p : Path) (fields : List (String × Tree)) :
    fieldListings p fields = fields.map fun f => (f.1, f.2.listing (p.field f.1)) := by
  induction fields with
  | nil => rfl
  | cons f fields ih => rw [fieldListings, ih, List.map_cons]

theorem mem_fieldListings {path : Path} {name : String} {t : Tree}
    {fields : List (String × Tree)} (h : fields.lookup name = some t) :
    (name, t.listing (path.field name)) ∈ fieldListings path fields := by
  rw [fieldListings_eq_map]
  exact List.mem_map.2 ⟨(name, t), mem_of_lookup h, rfl⟩

theorem subset_itemListing {path : Path} {t : Tree} {i : Nat} :
    ∀ {items : List Tree} {first : Nat} {lines : List String},
      itemListing path first items = some lines → items[i]? = some t →
      ∃ own, t.listing (path.item (first + i)) = some own ∧ own ⊆ lines
  | u :: items, first, lines, h, ht => by
    cases u with
    | leaf v => rw [itemListing] at h; cases h; nofun
    | list inner => rw [itemListing] at h; cases h; nofun
    | node cls places fields =>
      rw [itemListing] at h
      cases i with
      | zero =>
        cases ht
        exact subset_of_joinAll h List.mem_cons_self
      | succ i =>
        obtain ⟨more, hmore, hsub⟩ := subset_of_joinAll h
          (List.mem_cons_of_mem _ List.mem_cons_self)
        obtain ⟨own, hown, hsub'⟩ := subset_itemListing hmore ht
        rw [Nat.succ_add_eq_add_succ] at hown
        exact ⟨own, hown, List.Subset.trans hsub' hsub⟩

/-- The listing of a tree begins with its own line and has all of those one step below. -/
theorem listing_cons {t : Tree} {path : Path} {lines : List String}
    (h : t.listing path = some lines) : ∃ rest, lines = (t.pathText path ++ t.placeNote) :: rest ∧
      ∀ s u, t.step? s = some u → ∃ own, u.listing ⟨s :: path.steps⟩ = some own ∧ own ⊆ rest := by
  cases t with
  | leaf v =>
    cases h
    refine ⟨[], ?_, fun s u hu => by cases s <;> cases hu⟩
    rw [pathText, placeNote, scalarLine, String.append_assoc]
    intro _ hlist
    cases hlist
  | list items =>
    rw [listing, Option.map_eq_some_iff] at h
    obtain ⟨rest, hrest, rfl⟩ := h
    refine ⟨rest, rfl, fun s u hu => ?_⟩
    cases s with
    | field name => cases hu
    | item i =>
      obtain ⟨own, hown, hsub⟩ := subset_itemListing hrest (step?_item.1 hu).1
      rw [Nat.zero_add] at hown
      exact ⟨own, hown, hsub⟩
  | node cls places fields =>
    rw [listing, Option.map_eq_some_iff] at h
    obtain ⟨rest, hrest, rfl⟩ := h
    refine ⟨rest, ?_, fun s u hu => ?_⟩
    · rw [pathText, placeNote]
      · simp only [String.append_assoc]
      · intro _ hlist
        cases hlist
    cases s with
    | item i => cases hu
    | field name =>
      refine subset_of_joinAll hrest (List.mem_map.2 ⟨(name, _), ?_, rfl⟩)
      exact (List.mergeSort_perm _ _).mem_iff.2 (mem_fieldListings hu)

/-- Every place has a line with its path, and the top has the first one. -/
theorem mem_listing {t u : Tree} {q : List Step} {path : Path} {lines : List String}
    (h : t.listing path = some lines) (hu : t.follow? q = some u) :
    u.pathText ⟨q ++ path.steps⟩ ++ u.placeNote ∈ lines ∧
      (q ≠ [] → u.pathText ⟨q ++ path.steps⟩ ++ u.placeNote ∈ lines.tail) := by
  induction q using List.reverseRecOn generalizing t path lines with
  | nil =>
    obtain ⟨rest, rfl, -⟩ := listing_cons h
    cases hu
    exact ⟨List.mem_cons_self, fun hne => absurd rfl hne⟩
  | append_singleton q s ih =>
    obtain ⟨rest, rfl, hbelow⟩ := listing_cons h
    rw [follow?_concat, Option.bind_eq_some_iff] at hu
    obtain ⟨v, hv, hu⟩ := hu
    obtain ⟨own, hown, hsub⟩ := hbelow s v hv
    have hmem := hsub (ih hown hu).1
    rw [List.append_assoc, List.singleton_append]
    exact ⟨List.mem_cons_of_mem _ hmem, fun _ => hmem⟩

/-- **Where the path of a place leads.**  Let a node, a scalar or a list stand at a place to
    which only fields of plain names lead.  The path in its line of the listing leads back to
    that very place just if every list on the way there is entered at its first item and it is
    itself no list with items.  In a tree in which no list holds a list, the path leads
    nowhere if a list is entered after its first item; else that of a list with one item leads
    to the item, and that of a list with several nowhere. -/
theorem written_path_leads_iff {t u : Tree} {p : Path} (hu : t.get? p = some u)
    (hp : p.isPlain = true) :
    (∀ lines, t.fullListing = some lines → p ≠ .root → u.pathText p ++ u.placeNote ∈ lines) ∧
    (t.evaluate? (u.pathText p) = some (p, u) ↔ p.isFirst = true ∧ u.hasItems = false) ∧
    (t.isFlat = true →
      t.evaluate? (u.pathText p) = if p.isFirst then u.ownEnd? p else none) := by
  rw [evaluate?_eq_locate? hp]
  refine ⟨fun lines hlines hne => ?_, locate?_chain_iff hu, fun ht => locate?_eq_ownEnd? ht hu⟩
  obtain ⟨whole, hwhole, rfl⟩ := Option.map_eq_some_iff.1 hlines
  have hsteps : p.steps ≠ [] := fun h => hne (congrArg Path.mk h)
  have hmem := (mem_listing hwhole hu).2 hsteps
  rwa [Path.root, List.append_nil] at hmem

/-- A module of two statements. -/
def twoStatements : Tree :=
  .node "Module" [] [("body", .list [.node "Pass" [1, 0] [],
    .node "Expr" [2, 0] [("value", .node "Str" [2, 0] [("s", .leaf (.str "a"))])]])]

/-- The path of its first statement leads there; those of the second one and of all below it
    lead nowhere, and neither does that of the list. -/
theorem twoStatements_written_path_leads :
    let first : Path := ⟨[.item 0, .field "body"]⟩
    let text : Path := ⟨[.field "s", .field "value", .item 1, .field "body"]⟩
    let body : Path := ⟨[.field "body"]⟩
    twoStatements.evaluate? ".body[0]" = some (first, .node "Pass" [1, 0] []) ∧
    text.text = ".body[0][1].value.s" ∧ twoStatements.evaluate? text.text = none ∧
    body.listText 2 = ".body[0][1]" ∧ twoStatements.evaluate? (body.listText 2) = none := by
  intro first text body
  have hfirst := written_path_leads_iff (t := twoStatements) (p := first) rfl (by decide)
  have htext := written_path_leads_iff (t := twoStatements) (p := text) rfl (by decide)
  have hbody := written_path_leads_iff (t := twoStatements) (p := body) rfl (by decide)
  exact ⟨hfirst.2.1.2 ⟨rfl, rfl⟩, by decide, htext.2.2 (by decide), by decide,
    hbody.2.2 (by decide)⟩

end Tree

end SourceScribe
