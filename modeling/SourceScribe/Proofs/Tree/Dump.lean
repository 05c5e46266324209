/-
  The text of a tree tells the tree.

  Names and numbers are written bare, everything else starts with a mark of its own: texts
  and byte strings with a quote, lists with a square bracket, nodes with a round one after
  their class.  A list or node ends where its bracket closes, and inside it every item ends
  before a comma or that bracket.  So the text of a tree can be told from whatever follows
  it (`tells_of_isLegible`), and two trees with the same text are the same up to the order
  of fields (`dump_eq_dump_iff`).
-/
import Mathlib
import SourceScribe.Proofs.Text.Quoted
import SourceScribe.Proofs.Tree.Lookup
import SourceScribe.Tree.Dump

namespace SourceScribe

/-! ## Trees that a text can tell -/

/-- The characters of names.  All that is not ASCII counts as a letter. -/
def isNamePart (c : Char) : Bool :=
  c.isAlphanum || c = '_' || 0x80 ≤ c.toNat

/-- Whether a text is a name: letters, digits and underscores, no digit first. -/
def isIdentifier (s : String) : Bool :=
  s.toList.all isNamePart && s.toList.head?.any fun c => !c.isDigit

/-- Whether the written form of a scalar is its own: real and complex numbers are known by
    nothing else. -/
def Scalar.isLegible : Scalar → Bool
  | none | bool _ | int _ | str _ | bytes _ => true
  | real _ | complex _ | ellipsis => false

namespace Tree

mutual

/-- Classes and fields have names, the fields of a node different ones and none that of a
    position number; there are at most as many position numbers as names for them; scalars
    are legible, and no list holds a list. -/
def isLegible : Tree → Bool
  | leaf v => v.isLegible
  | node cls places fields =>
    isIdentifier cls && places.length ≤ placeNames.length && decide (fields.map (·.1)).Nodup
      && isLegibleFields fields
  | list items => isLegibleItems items

/-- `isLegible` of all fields, with their names. -/
def isLegibleFields : List (String × Tree) → Bool
  | [] => true
  | (name, t) :: fields =>
    isIdentifier name && name ∉ placeNames && t.isLegible && isLegibleFields fields

/-- `isLegible` of all items, none of which is a list. -/
def isLegibleItems : List Tree → Bool
  | [] => true
  | list _ :: _ => false
  | t :: items => t.isLegible && isLegibleItems items

end

/-- Two trees that differ at most in the order of fields: some order of the second one's
    fields has the names of the first one's, with values that are the same. -/
inductive Same : Tree → Tree → Prop where
  | leaf (v : Scalar) : Same (leaf v) (leaf v)
  | list {items items' : List Tree} (h : List.Forall₂ Same items items') :
      Same (list items) (list items')
  | node {cls : String} {places : List Int} {fields fields' order : List (String × Tree)}
      (horder : order.Perm fields') (hnames : fields.map Prod.fst = order.map Prod.fst)
      (h : List.Forall₂ Same (fields.map Prod.snd) (order.map Prod.snd)) :
      Same (node cls places fields) (node cls places fields')

/-- Fields of the same name with values that are the same. -/
def SameField (f g : String × Tree) : Prop := f.1 = g.1 ∧ Same f.2 g.2

theorem forall₂_sameField_iff {fields fields' : List (String × Tree)} :
    List.Forall₂ SameField fields fields' ↔ fields.map Prod.fst = fields'.map Prod.fst ∧
      List.Forall₂ Same (fields.map Prod.snd) (fields'.map Prod.snd) := by
  induction fields generalizing fields' with
  | nil => cases fields' <;> simp
  | cons f fields ih =>
    cases fields' with
    | nil => simp
    | cons g fields' =>
      simp only [List.forall₂_cons, List.map_cons, List.cons.injEq, ih, SameField]
      tauto

theorem isLegible_of_mem_fields {fields : List (String × Tree)} {f : String × Tree}
    (h : isLegibleFields fields = true) (hf : f ∈ fields) :
    isIdentifier f.1 = true ∧ f.1 ∉ placeNames ∧ f.2.isLegible = true := by
  refine forall_mem_of_check
    (P := fun f => isIdentifier f.1 = true ∧ f.1 ∉ placeNames ∧ f.2.isLegible = true)
    (fun g fields h => ?_) h f hf
  simp only [isLegibleFields, Bool.and_eq_true, decide_eq_true_eq] at h
  exact ⟨⟨h.1.1.1, h.1.1.2, h.1.2⟩, h.2⟩

theorem isLegible_of_mem_items {items : List Tree} {t : Tree} (h : isLegibleItems items = true)
    (ht : t ∈ items) : t.isLegible = true := by
  refine forall_mem_of_check (P := (isLegible · = true)) (fun u items h => ?_) h t ht
  cases u with
  | list => simp [isLegibleItems] at h
  | leaf | node => simpa only [isLegibleItems, Bool.and_eq_true] using h

theorem isLegibleItems_tail {t : Tree} {items : List Tree}
    (h : isLegibleItems (t :: items) = true) : isLegibleItems items = true := by
  cases t with
  | list => simp [isLegibleItems] at h
  | leaf | node =>
    simp only [isLegibleItems, Bool.and_eq_true] at h
    exact h.2

/-! ## Texts side by side -/

/-- The characters of names and of numbers. -/
def isBare (c : Char) : Bool := isNamePart c || c = '-'

/-- What may follow the text of a tree: nothing, or the sign that ends an item. -/
def Ends (r : List Char) : Prop := ∀ c ∈ r.head?, c = ',' ∨ c = ')' ∨ c = ']'

theorem ends_nil : Ends [] := by simp [Ends]

/-- A bare text ends at the first character that is not bare. -/
theorem bare_append_inj {x y a b : List Char} (hx : x.all isBare = true) (hy : y.all isBare = true)
    (ha : ∀ c ∈ a.head?, isBare c = false) (hb : ∀ c ∈ b.head?, isBare c = false)
    (h : x ++ a = y ++ b) : x = y ∧ a = b := by
  induction x generalizing y with
  | nil =>
    cases y with
    | nil => exact ⟨rfl, h⟩
    | cons d y =>
      rw [List.all_cons, Bool.and_eq_true] at hy
      rw [List.nil_append] at h
      rw [h] at ha
      exact absurd hy.1 (by rw [ha d rfl]; decide)
  | cons c x ih =>
    rw [List.all_cons, Bool.and_eq_true] at hx
    cases y with
    | nil =>
      rw [List.nil_append] at h
      rw [← h] at hb
      exact absurd hx.1 (by rw [hb c rfl]; decide)
    | cons d y =>
      rw [List.all_cons, Bool.and_eq_true] at hy
      obtain ⟨rfl, htail⟩ := List.cons.inj h
      obtain ⟨rfl, rfl⟩ := ih hx.2 hy.2 htail
      exact ⟨rfl, rfl⟩

/-- Items after the first one, and the sign that closes them. -/
def further (close : Char) : List (List Char) → List Char
  | [] => [close]
  | x :: xs => ',' :: ' ' :: x ++ further close xs

/-- Items with commas between them, and the sign that closes them. -/
def closed (close : Char) : List (List Char) → List Char
  | [] => [close]
  | x :: xs => x ++ further close xs

theorem intercalate_eq_closed (close : Char) (xs : List String) :
    (", ".intercalate xs).toList ++ [close] = closed close (xs.map String.toList) := by
  cases xs with
  | nil => rfl
  | cons x xs =>
    rw [List.map_cons, closed]
    induction xs generalizing x with
    | nil => simp [further]
    | cons y xs ih =>
      rw [String.intercalate_cons_cons, List.map_cons, further, List.cons_append, List.cons_append,
        ← ih y]
      simp

theorem ends_further {close : Char} (hclose : close = ')' ∨ close = ']') (xs : List (List Char))
    (r : List Char) : Ends (further close xs ++ r) := by
  intro c hc
  cases xs with
  | nil => exact Or.inr (by simp_all [further])
  | cons x xs => exact Or.inl (by simpa [further, eq_comm] using hc)

section
variable {α : Type} {f : α → List Char} {R : α → α → Prop} {close : Char} {as bs : List α}
  (hclose : close = ')' ∨ close = ']')
  (hitem : ∀ a ∈ as, ∀ b ∈ bs, ∀ x y, Ends x → Ends y → f a ++ x = f b ++ y → R a b ∧ x = y)
include hclose hitem

theorem further_append_inj {x y : List Char}
    (h : further close (as.map f) ++ x = further close (bs.map f) ++ y) :
    List.Forall₂ R as bs ∧ x = y := by
  have hne : close ≠ ',' := by rcases hclose with rfl | rfl <;> decide
  induction as generalizing bs with
  | nil =>
    cases bs with
    | nil => exact ⟨.nil, (List.cons.inj h).2⟩
    | cons b bs => exact absurd (List.cons.inj h).1 hne
  | cons a as ih =>
    cases bs with
    | nil => exact absurd (List.cons.inj h).1.symm hne
    | cons b bs =>
      simp only [List.map_cons, further, List.cons_append, List.append_assoc, List.cons.injEq,
        true_and] at h
      obtain ⟨hab, h⟩ := hitem a (by simp) b (by simp) _ _ (ends_further hclose _ _)
        (ends_further hclose _ _) h
      obtain ⟨habs, rfl⟩ := ih (fun a ha b hb => hitem a (by simp [ha]) b (by simp [hb])) h
      exact ⟨.cons hab habs, rfl⟩

/-- Items that can be told from what follows them can be told one by one. -/
theorem closed_append_inj (hhead : ∀ a ∈ as ++ bs, ∀ x, (f a ++ x).head? ≠ some close)
    {x y : List Char} (h : closed close (as.map f) ++ x = closed close (bs.map f) ++ y) :
    List.Forall₂ R as bs ∧ x = y := by
  cases as with
  | nil =>
    cases bs with
    | nil => exact ⟨.nil, (List.cons.inj h).2⟩
    | cons b bs =>
      rw [List.map_cons, closed, List.append_assoc] at h
      exact absurd (congrArg List.head? h).symm (hhead b (by simp) _)
  | cons a as =>
    cases bs with
    | nil =>
      rw [List.map_cons, closed, List.append_assoc] at h
      exact absurd (congrArg List.head? h) (hhead a (by simp) _)
    | cons b bs =>
      rw [List.map_cons, List.map_cons, closed, closed, List.append_assoc, List.append_assoc] at h
      obtain ⟨hab, h⟩ := hitem a (by simp) b (by simp) _ _ (ends_further hclose _ _)
        (ends_further hclose _ _) h
      obtain ⟨habs, rfl⟩ := further_append_inj hclose
        (fun a ha b hb => hitem a (by simp [ha]) b (by simp [hb])) h
      exact ⟨.cons hab habs, rfl⟩

end

/-! ## The beginning of a text -/

theorem isBare_of_isDigit {c : Char} (h : c.isDigit = true) : isBare c = true := by
  simp [isBare, isNamePart, Char.isAlphanum, h]

theorem mem_toString_int {i : Int} {c : Char} (h : c ∈ (toString i).toList) :
    c.isDigit = true ∨ c = '-' := by
  have hdigit (n : Nat) (h : c ∈ n.repr.toList) : c.isDigit = true := by
    rw [Nat.repr_eq_ofList_toDigits, String.toList_ofList] at h
    exact Nat.isDigit_of_mem_toDigits (by decide) (by decide) h
  rw [Int.toString_eq_repr, Int.repr_eq_if] at h
  split at h
  · exact Or.inl (hdigit _ h)
  · rw [String.toList_append, List.mem_append] at h
    rcases h with h | h
    · exact Or.inr (List.mem_singleton.1 h)
    · exact Or.inl (hdigit _ h)

theorem toString_int_ne {i : Int} {s : String} {c : Char} (hc : c ∈ s.toList)
    (hdigit : c.isDigit = false) (hsign : c ≠ '-') : toString i ≠ s := by
  rintro rfl
  rcases mem_toString_int hc with h | h
  · rw [hdigit] at h; cases h
  · exact hsign h

/-- What a scalar or a tree starts with, beside bare characters. -/
inductive Mark where
  | bare | quote | square | round

/-- The mark of a text, and of what follows it. -/
def Mark.of (r : List Char) : Mark :=
  match r.head? with
  | some '(' => round
  | some '[' => square
  | some '\'' | some '"' => quote
  | _ => bare

/-- The mark of a tree. -/
def mark : Tree → Mark
  | leaf (.str _) | leaf (.bytes _) => .quote
  | leaf _ => .bare
  | list _ => .square
  | node .. => .round

/-- The bare characters that a tree starts with. -/
def lead : Tree → List Char
  | leaf (.str _) => []
  | leaf (.bytes _) => ['b']
  | leaf v => v.text.toList
  | list _ => []
  | node cls _ _ => cls.toList

theorem dumpItems_eq_map (items : List Tree) : dumpItems items = items.map dump := by
  induction items with
  | nil => rfl
  | cons t items ih => rw [dumpItems, ih, List.map_cons]

theorem dumpFields_eq_map (fields : List (String × Tree)) :
    dumpFields fields = fields.map fun f => (f.1, f.2.dump) := by
  induction fields with
  | nil => rfl
  | cons f fields ih => rw [dumpFields, ih, List.map_cons]

theorem dump_list (items : List Tree) :
    (list items).dump.toList = '[' :: closed ']' (items.map fun t => t.dump.toList) := by
  rw [dump, dumpItems_eq_map, String.toList_append, String.toList_append, List.append_assoc,
    show "]".toList = [']'] from rfl, intercalate_eq_closed, List.map_map]
  rfl

/-- All that stands in a node's brackets under a name: its position numbers, and its fields
    in the order of their names. -/
def entries (places : List Int) (fields : List (String × Tree)) : List (String × Tree) :=
  (namedPlaces places).map (fun p => (p.1, leaf (.int p.2))) ++ sortFields fields

/-- A named value. -/
def entryChars (e : String × Tree) : List Char := e.1.toList ++ '=' :: e.2.dump.toList

theorem dump_node (cls : String) (places : List Int) (fields : List (String × Tree)) :
    (node cls places fields).dump.toList =
      cls.toList ++ '(' :: closed ')' ((entries places fields).map entryChars) := by
  have hsort : sortFields (dumpFields fields) =
      (sortFields fields).map fun f => (f.1, f.2.dump) := by
    rw [dumpFields_eq_map, sortFields, sortFields,
      ← List.map_mergeSort (r := fun a b => decide (a.1 ≤ b.1)) fun _ _ _ _ => rfl]
  have hplace : String.toList ∘ (fun p : String × Int => entryText p.1 (toString p.2)) =
      entryChars ∘ fun p => (p.1, leaf (.int p.2)) := by
    funext p
    simp [entryText, entryChars, dump, Scalar.text]
  have hfield : (String.toList ∘ fun f : String × String => entryText f.1 f.2) ∘
      (fun f : String × Tree => (f.1, f.2.dump)) = entryChars := by
    funext f
    simp [entryText, entryChars]
  rw [dump, hsort, String.toList_append, String.toList_append, String.toList_append,
    List.append_assoc, List.append_assoc, show ")".toList = [')'] from rfl, intercalate_eq_closed,
    entries, List.map_append, List.map_append, List.map_map, List.map_map, List.map_map, hplace,
    hfield, List.map_map]
  rfl

theorem IsIdentifier.bare {s : String} (h : isIdentifier s = true) :
    s.toList.all isBare = true ∧ s.toList ≠ [] := by
  rw [isIdentifier, Bool.and_eq_true, List.all_eq_true] at h
  refine ⟨List.all_eq_true.2 fun c hc => by simp [isBare, h.1 c hc], ?_⟩
  rintro hnil
  rw [hnil] at h
  cases h.2

theorem Mark.of_ends {r : List Char} (hr : Ends r) :
    Mark.of r = .bare ∧ ∀ c ∈ r.head?, isBare c = false := by
  cases r with
  | nil => exact ⟨rfl, by simp⟩
  | cons c r => rcases hr c rfl with rfl | rfl | rfl <;> exact ⟨rfl, by simp; decide⟩

theorem Mark.of_quote {q : Char} (hq : Text.IsQuote q) (r : List Char) :
    Mark.of (q :: r) = .quote ∧ ∀ c ∈ (q :: r).head?, isBare c = false := by
  rcases hq with rfl | rfl <;> exact ⟨rfl, by simp; decide⟩

/-- A text is bare up to the mark of its tree. -/
theorem lead_spec {t : Tree} (ht : t.isLegible = true) {r : List Char} (hr : Ends r) :
    t.lead.all isBare = true ∧ ∃ rest, t.dump.toList ++ r = t.lead ++ rest ∧
      Mark.of rest = t.mark ∧ ∀ c ∈ rest.head?, isBare c = false := by
  cases t with
  | leaf v =>
    cases v with
    | none => exact ⟨by decide, r, rfl, Mark.of_ends hr⟩
    | bool b => cases b <;> exact ⟨by decide, r, rfl, Mark.of_ends hr⟩
    | int i =>
      refine ⟨List.all_eq_true.2 fun c hc => ?_, r, rfl, Mark.of_ends hr⟩
      rcases mem_toString_int hc with h | rfl
      · exact isBare_of_isDigit h
      · decide
    | str s =>
      refine ⟨rfl, Text.quoteChars s.toList ++ r, ?_, ?_⟩
      · simp [dump, Scalar.text, Text.quote, lead]
      · exact Mark.of_quote (Text.isQuote_quoteFor _) _
    | bytes bs =>
      obtain ⟨q, rest, hchars, hq⟩ := Text.quoteBytes_head bs
      refine ⟨show ['b'].all isBare = true by decide, q :: rest ++ r, ?_, Mark.of_quote hq _⟩
      rw [dump, Scalar.text, hchars]
      rfl
    | real | complex | ellipsis => simp [isLegible, Scalar.isLegible] at ht
  | list items =>
    refine ⟨rfl, '[' :: _, by rw [dump_list]; rfl, rfl, ?_⟩
    simp; decide
  | node cls places fields =>
    simp only [isLegible, Bool.and_eq_true] at ht
    refine ⟨(IsIdentifier.bare ht.1.1.1).1, '(' :: _, by rw [dump_node, List.append_assoc]; rfl,
      rfl, ?_⟩
    simp; decide

/-- Two texts that go on alike start with the same bare characters and the same mark. -/
theorem lead_inj {t u : Tree} (ht : t.isLegible = true) (hu : u.isLegible = true)
    {r s : List Char} (hr : Ends r) (hs : Ends s) (h : t.dump.toList ++ r = u.dump.toList ++ s) :
    t.lead = u.lead ∧ t.mark = u.mark := by
  obtain ⟨hbare, rest, hrest, hmark, hhead⟩ := lead_spec ht hr
  obtain ⟨hbare', rest', hrest', hmark', hhead'⟩ := lead_spec hu hs
  rw [hrest, hrest'] at h
  obtain ⟨hlead, rfl⟩ := bare_append_inj hbare hbare' hhead hhead' h
  exact ⟨hlead, hmark.symm.trans hmark'⟩

theorem lead_ne_nil {t : Tree} (ht : t.isLegible = true)
    (hmark : t.mark = .bare ∨ t.mark = .round) : t.lead ≠ [] := by
  cases t with
  | leaf v =>
    cases v with
    | none => decide
    | bool b => cases b <;> decide
    | int i =>
      show (toString i).toList ≠ []
      rw [Int.toString_eq_repr, Int.repr_eq_if]
      split
      · simp
      · simp
    | str | bytes => rcases hmark with h | h <;> cases h
    | real | complex | ellipsis => simp [isLegible, Scalar.isLegible] at ht
  | list => rcases hmark with h | h <;> cases h
  | node cls =>
    simp only [isLegible, Bool.and_eq_true] at ht
    exact (IsIdentifier.bare ht.1.1.1).2

/-! ## Telling trees -/

/-- Whatever follows the text of the tree, it is told from all other trees. -/
def Tells (t : Tree) : Prop :=
  ∀ u r s, u.isLegible = true → Ends r → Ends s → t.dump.toList ++ r = u.dump.toList ++ s →
    Same t u ∧ r = s

/-- Bare scalars are told by their text. -/
theorem bare_text_inj {v w : Scalar} (hv : (leaf v).mark = .bare) (hw : (leaf w).mark = .bare)
    (hlv : v.isLegible = true) (hlw : w.isLegible = true) (h : v.text = w.text) : v = w := by
  cases v with
  | none =>
    cases w with
    | none => rfl
    | bool b => cases b <;> exact absurd h (by decide)
    | int i => exact absurd h.symm (toString_int_ne (c := 'N') (by decide) (by decide) (by decide))
    | str | bytes => cases hw
    | real | complex | ellipsis => cases hlw
  | bool b =>
    cases w with
    | none => cases b <;> exact absurd h (by decide)
    | bool b' => cases b <;> cases b' <;> first | rfl | exact absurd h (by decide)
    | int i =>
      cases b <;>
        exact absurd h.symm (toString_int_ne (c := 'e') (by decide) (by decide) (by decide))
    | str | bytes => cases hw
    | real | complex | ellipsis => cases hlw
  | int i =>
    cases w with
    | none => exact absurd h (toString_int_ne (c := 'N') (by decide) (by decide) (by decide))
    | bool b =>
      cases b <;> exact absurd h (toString_int_ne (c := 'e') (by decide) (by decide) (by decide))
    | int j =>
      simp only [Scalar.text, Int.toString_eq_repr, Int.repr_inj] at h
      rw [h]
    | str | bytes => cases hw
    | real | complex | ellipsis => cases hlw
  | str | bytes => cases hv
  | real | complex | ellipsis => cases hlv

theorem lead_of_bare {v : Scalar} (h : (leaf v).mark = .bare) : (leaf v).lead = v.text.toList := by
  cases v with
  | none | bool | int | real | complex | ellipsis => rfl
  | str | bytes => cases h

theorem tells_leaf {v : Scalar} (hv : v.isLegible = true) : Tells (leaf v) := by
  intro u r s hu hr hs h
  obtain ⟨hlead, hmark⟩ := lead_inj (t := leaf v) hv hu hr hs h
  cases u with
  | list => cases v <;> cases hmark
  | node => cases v <;> cases hmark
  | leaf w =>
    cases hw : (leaf w).mark with
    | bare =>
      rw [hw] at hmark
      rw [lead_of_bare hmark, lead_of_bare hw, String.toList_inj] at hlead
      obtain rfl := bare_text_inj hmark hw hv hu hlead
      exact ⟨.leaf v, List.append_cancel_left h⟩
    | quote =>
      rw [hw] at hmark
      cases v with
      | str a =>
        cases w with
        | str b =>
          simp only [dump, Scalar.text, Text.quote, String.toList_ofList] at h
          obtain ⟨hab, rfl⟩ := Text.quoteChars_append_inj h
          obtain rfl := String.toList_inj.1 hab
          exact ⟨.leaf _, rfl⟩
        | bytes => cases hlead
        | none | bool | int | real | complex | ellipsis => cases hw
      | bytes a =>
        cases w with
        | str => cases hlead
        | bytes b =>
          obtain ⟨rfl, rfl⟩ := Text.quoteBytes_append_inj h
          exact ⟨.leaf _, rfl⟩
        | none | bool | int | real | complex | ellipsis => cases hw
      | none | bool | int | real | complex | ellipsis => cases hmark
    | square => cases w <;> cases hw
    | round => cases w <;> cases hw

theorem head_ne {t : Tree} (ht : t.isLegible = true) (x : List Char) :
    (t.dump.toList ++ x).head? ≠ some ']' := by
  obtain ⟨hbare, rest, hrest, hmark, -⟩ := lead_spec ht ends_nil
  rw [List.append_nil] at hrest
  rw [hrest]
  cases hlead : t.lead with
  | nil =>
    cases rest with
    | nil => exact absurd hlead (lead_ne_nil ht (Or.inl hmark.symm))
    | cons c rest =>
      rintro h
      obtain rfl : c = ']' := by simpa using h
      exact absurd hlead (lead_ne_nil ht (Or.inl hmark.symm))
  | cons c lead =>
    rw [hlead, List.all_cons, Bool.and_eq_true] at hbare
    rintro h
    obtain rfl : c = ']' := by simpa using h
    exact absurd hbare.1 (by decide)

theorem tells_list {items : List Tree} (hlegible : isLegibleItems items = true)
    (hitems : ∀ t ∈ items, Tells t) : Tells (list items) := by
  intro u r s hu hr hs h
  obtain ⟨-, hmark⟩ := lead_inj (t := list items) hlegible hu hr hs h
  cases u with
  | leaf v => cases v <;> cases hmark
  | node => cases hmark
  | list items' =>
    rw [dump_list, dump_list] at h
    have hlegible' : ∀ t ∈ items', t.isLegible = true := fun t ht => isLegible_of_mem_items hu ht
    have hhead : ∀ t ∈ items ++ items', ∀ x, (t.dump.toList ++ x).head? ≠ some ']' := by
      intro t ht
      rcases List.mem_append.1 ht with ht | ht
      · exact head_ne (isLegible_of_mem_items hlegible ht)
      · exact head_ne (hlegible' t ht)
    obtain ⟨hsame, rfl⟩ := closed_append_inj (R := Same) (Or.inr rfl)
      (fun t ht u hu x y => hitems t ht u x y (hlegible' u hu)) hhead (List.cons.inj h).2
    exact ⟨.list hsame, rfl⟩

/-- Entries are told by name and value. -/
theorem entryChars_append_inj {e e' : String × Tree} (hname : isIdentifier e.1 = true)
    (hname' : isIdentifier e'.1 = true) (htells : Tells e.2) (hlegible : e'.2.isLegible = true)
    {x y : List Char} (hx : Ends x) (hy : Ends y) (h : entryChars e ++ x = entryChars e' ++ y) :
    SameField e e' ∧ x = y := by
  rw [entryChars, entryChars, List.append_assoc, List.append_assoc] at h
  obtain ⟨hnames, hrest⟩ := bare_append_inj (IsIdentifier.bare hname).1 (IsIdentifier.bare hname').1
    (by simp; decide) (by simp; decide) h
  obtain ⟨hsame, rfl⟩ := htells _ _ _ hlegible hx hy (List.cons.inj hrest).2
  exact ⟨⟨String.toList_inj.1 hnames, hsame⟩, rfl⟩

theorem entryChars_head_ne {e : String × Tree} (hname : isIdentifier e.1 = true) (x : List Char) :
    (entryChars e ++ x).head? ≠ some ')' := by
  obtain ⟨hbare, hne⟩ := IsIdentifier.bare hname
  rw [entryChars]
  cases hchars : e.1.toList with
  | nil => exact absurd hchars hne
  | cons c cs =>
    rw [hchars, List.all_cons, Bool.and_eq_true] at hbare
    rintro h
    obtain rfl : c = ')' := by simpa using h
    exact absurd hbare.1 (by decide)

theorem mem_entries {places : List Int} {fields : List (String × Tree)} {e : String × Tree}
    (he : e ∈ entries places fields) :
    (e.1 ∈ placeNames ∧ ∃ i, e.2 = leaf (.int i)) ∨ e ∈ fields := by
  rcases List.mem_append.1 he with he | he
  · obtain ⟨p, hp, rfl⟩ := List.mem_map.1 he
    exact Or.inl ⟨(List.of_mem_zip hp).1, p.2, rfl⟩
  · exact Or.inr (List.mem_mergeSort.1 he)

theorem isIdentifier_placeNames {name : String} (h : name ∈ placeNames) :
    isIdentifier name = true := by
  revert name
  decide

theorem isLegible_of_mem_entries {places : List Int} {fields : List (String × Tree)}
    {e : String × Tree} (hfields : isLegibleFields fields = true)
    (he : e ∈ entries places fields) : isIdentifier e.1 = true ∧ e.2.isLegible = true := by
  rcases mem_entries he with ⟨hname, i, hi⟩ | he
  · exact ⟨isIdentifier_placeNames hname, by rw [hi]; rfl⟩
  · obtain ⟨hname, -, hvalue⟩ := isLegible_of_mem_fields hfields he
    exact ⟨hname, hvalue⟩

/-- Position numbers and fields can be told apart by their names. -/
theorem forall₂_entries {places places' : List Int} {fields fields' : List (String × Tree)}
    (hplaces : places.length ≤ placeNames.length) (hplaces' : places'.length ≤ placeNames.length)
    (hfields : ∀ f ∈ fields, f.1 ∉ placeNames) (hfields' : ∀ f ∈ fields', f.1 ∉ placeNames)
    (h : List.Forall₂ SameField (entries places fields) (entries places' fields')) :
    places = places' ∧ List.Forall₂ SameField (sortFields fields) (sortFields fields') := by
  have hin {ps : List Int} {e : String × Tree}
      (he : e ∈ (namedPlaces ps).map fun p => (p.1, leaf (.int p.2))) : e.1 ∈ placeNames := by
    obtain ⟨p, hp, rfl⟩ := List.mem_map.1 he
    exact (List.of_mem_zip hp).1
  have hnumbers (ps : List Int) {fs : List (String × Tree)} (hfs : ∀ f ∈ fs, f.1 ∉ placeNames) :
      (entries ps fs).filter (·.1 ∈ placeNames) =
        (namedPlaces ps).map fun p => (p.1, leaf (.int p.2)) := by
    rw [entries, List.filter_append, List.filter_eq_self.2 fun e he => decide_eq_true (hin he),
      List.filter_eq_nil_iff.2 fun f hf => by simpa using hfs f (List.mem_mergeSort.1 hf),
      List.append_nil]
  have hothers (ps : List Int) {fs : List (String × Tree)} (hfs : ∀ f ∈ fs, f.1 ∉ placeNames) :
      (entries ps fs).filter (·.1 ∉ placeNames) = sortFields fs := by
    rw [entries, List.filter_append, List.filter_eq_nil_iff.2 fun e he => by simpa using hin he,
      List.filter_eq_self.2 fun f hf => by simpa using hfs f (List.mem_mergeSort.1 hf),
      List.nil_append]
  constructor
  · have hsame := List.rel_filter (p := (·.1 ∈ placeNames)) (q := (·.1 ∈ placeNames))
      (fun e e' hee => by simp [hee.1]) h
    rw [hnumbers places hfields, hnumbers places' hfields', List.forall₂_map_left_iff,
      List.forall₂_map_right_iff] at hsame
    have heq : namedPlaces places = namedPlaces places' := by
      refine List.forall₂_eq_eq_eq ▸ hsame.imp ?_
      rintro ⟨name, i⟩ ⟨name', j⟩ ⟨rfl, hij⟩
      cases hij
      rfl
    rw [← List.map_snd_zip hplaces, ← List.map_snd_zip hplaces']
    exact congrArg (List.map Prod.snd) heq
  · have hsame := List.rel_filter (p := (·.1 ∉ placeNames)) (q := (·.1 ∉ placeNames))
      (fun e e' hee => by simp [hee.1]) h
    rwa [hothers places hfields, hothers places' hfields'] at hsame

theorem tells_node {cls : String} {places : List Int} {fields : List (String × Tree)}
    (hlegible : (node cls places fields).isLegible = true) (hfields : ∀ f ∈ fields, Tells f.2) :
    Tells (node cls places fields) := by
  intro u r s hu hr hs h
  obtain ⟨hlead, hmark⟩ := lead_inj hlegible hu hr hs h
  cases u with
  | leaf v => cases v <;> cases hmark
  | list => cases hmark
  | node cls' places' fields' =>
    obtain rfl : cls = cls' := String.toList_inj.1 hlead
    simp only [isLegible, Bool.and_eq_true, decide_eq_true_eq] at hlegible hu
    have htells {e : String × Tree} (he : e ∈ entries places fields) : Tells e.2 := by
      rcases mem_entries he with ⟨-, i, hi⟩ | he
      · rw [hi]; exact tells_leaf rfl
      · exact hfields e he
    have hhead : ∀ e ∈ entries places fields ++ entries places' fields',
        ∀ x, (entryChars e ++ x).head? ≠ some ')' := by
      intro e he
      rcases List.mem_append.1 he with he | he
      · exact entryChars_head_ne (isLegible_of_mem_entries hlegible.2 he).1
      · exact entryChars_head_ne (isLegible_of_mem_entries hu.2 he).1
    rw [dump_node, dump_node, List.append_assoc, List.append_assoc] at h
    obtain ⟨hsame, rfl⟩ := closed_append_inj (R := SameField) (Or.inl rfl)
      (fun e he e' he' x y hx hy => entryChars_append_inj
        (isLegible_of_mem_entries hlegible.2 he).1 (isLegible_of_mem_entries hu.2 he').1
        (htells he) (isLegible_of_mem_entries hu.2 he').2 hx hy) hhead
      (List.cons.inj (List.append_cancel_left h)).2
    obtain ⟨rfl, hsorted⟩ := forall₂_entries hlegible.1.1.2 hu.1.1.2
      (fun f hf => (isLegible_of_mem_fields hlegible.2 hf).2.1)
      (fun f hf => (isLegible_of_mem_fields hu.2 hf).2.1) hsame
    obtain ⟨order, horder, hperm⟩ :=
      List.perm_comp_forall₂ (List.mergeSort_perm fields _).symm hsorted
    obtain ⟨hnames, hvalues⟩ := forall₂_sameField_iff.1 horder
    exact ⟨.node (hperm.trans (List.mergeSort_perm fields' _)) hnames hvalues, rfl⟩

mutual

/-- **The text of a legible tree tells the tree**, and where its text ends. -/
theorem tells_of_isLegible : ∀ t : Tree, t.isLegible = true → Tells t
  | leaf _, h => tells_leaf h
  | list items, h => tells_list h (tells_of_mem_items items h)
  | node cls places fields, h => by
    refine tells_node h (tells_of_mem_fields fields ?_)
    simp only [isLegible, Bool.and_eq_true] at h
    exact h.2

theorem tells_of_mem_fields : ∀ fields : List (String × Tree), isLegibleFields fields = true →
    ∀ f ∈ fields, Tells f.2
  | [], _, _, hf => by cases hf
  | (_, t) :: fields, h, f, hf => by
    simp only [isLegibleFields, Bool.and_eq_true] at h
    rcases List.mem_cons.1 hf with rfl | hf
    · exact tells_of_isLegible t h.1.2
    · exact tells_of_mem_fields fields h.2 f hf

theorem tells_of_mem_items : ∀ items : List Tree, isLegibleItems items = true →
    ∀ t ∈ items, Tells t
  | [], _, _, ht => by cases ht
  | u :: items, h, t, ht => by
    have hu := tells_of_isLegible u (isLegible_of_mem_items h List.mem_cons_self)
    have hitems := tells_of_mem_items items (isLegibleItems_tail h)
    rcases List.mem_cons.1 ht with rfl | ht
    · exact hu
    · exact hitems t ht

end

/-! ## Same trees -/

/-- Fields in another order are written in the same order. -/
theorem sortFields_eq_of_perm {α : Type} {fields fields' : List (String × α)}
    (hperm : fields.Perm fields') (hnodup : (fields.map Prod.fst).Nodup) :
    sortFields fields = sortFields fields' := by
  refine List.Perm.eq_of_pairwise ?_ (pairwise_sortFields fields) (pairwise_sortFields fields')
    (((perm_sortFields fields).trans hperm).trans (perm_sortFields fields').symm)
  intro f g hf hg hfg hgf
  have hf := List.mem_mergeSort.1 hf
  have hg := hperm.mem_iff.2 (List.mem_mergeSort.1 hg)
  exact List.inj_on_of_nodup_map hnodup hf hg (le_antisymm hfg hgf)

mutual

theorem dump_eq_of_same : ∀ t u : Tree, t.isLegible = true → Same t u → t.dump = u.dump
  | leaf _, _, _, h => by cases h; rfl
  | list items, _, hlegible, h => by
    cases h with
    | list h => rw [dump, dump, dumpItems_eq_of_same items _ hlegible h]
  | node cls places fields, _, hlegible, h => by
    simp only [isLegible, Bool.and_eq_true, decide_eq_true_eq] at hlegible
    cases h with
    | @node _ _ _ fields' order horder hnames hvalues =>
      have hfields := dumpFields_eq_of_same fields order hlegible.2
        (forall₂_sameField_iff.2 ⟨hnames, hvalues⟩)
      have hperm : (dumpFields order).Perm (dumpFields fields') := by
        rw [dumpFields_eq_map, dumpFields_eq_map]
        exact horder.map _
      have hnodup : ((dumpFields order).map Prod.fst).Nodup := by
        rw [dumpFields_eq_map, List.map_map]
        exact hnames ▸ hlegible.1.2
      rw [dump, dump, hfields, sortFields_eq_of_perm hperm hnodup]

theorem dumpItems_eq_of_same : ∀ items items' : List Tree, isLegibleItems items = true →
    List.Forall₂ Same items items' → dumpItems items = dumpItems items'
  | [], _, _, .nil => rfl
  | t :: items, u :: items', hlegible, .cons h hitems => by
    have ht := dump_eq_of_same t u (isLegible_of_mem_items hlegible List.mem_cons_self) h
    rw [dumpItems, dumpItems, ht, dumpItems_eq_of_same items items' (isLegibleItems_tail hlegible)
      hitems]

theorem dumpFields_eq_of_same : ∀ fields fields' : List (String × Tree),
    isLegibleFields fields = true → List.Forall₂ SameField fields fields' →
      dumpFields fields = dumpFields fields'
  | [], _, _, .nil => rfl
  | (name, t) :: fields, (name', u) :: fields', hlegible, .cons h hfields => by
    simp only [isLegibleFields, Bool.and_eq_true] at hlegible
    obtain rfl : name = name' := h.1
    rw [dumpFields, dumpFields, dump_eq_of_same t u hlegible.1.2 h.2,
      dumpFields_eq_of_same fields fields' hlegible.2 hfields]

end

/-- **The text determines the tree.**  Two legible trees have the same text just if they are
    the same: the same classes with the same position numbers, the same fields up to their
    order, and the same values in them. -/
theorem dump_eq_dump_iff {t u : Tree} (ht : t.isLegible = true) (hu : u.isLegible = true) :
    t.dump = u.dump ↔ Same t u := by
  constructor
  · intro h
    exact (tells_of_isLegible t ht u [] [] hu ends_nil ends_nil (by rw [h])).1
  · exact dump_eq_of_same t u ht

/-- A call with delimiters of the written form in its texts: `f("a', b=[", b")]'", None)`. -/
def delimitedSample (swap : Bool) : Tree :=
  let func := ("func", node "Name" [1, 0] [("id", leaf (.str "f")), ("ctx", node "Load" [] [])])
  let args := ("args", list [leaf (.str "a', b=["), leaf (.bytes [41, 93, 39]), leaf .none])
  node "Call" [1, 0] (if swap then [args, func] else [func, args])

theorem dump_delimitedSample :
    (delimitedSample false).isLegible = true ∧ (delimitedSample true).isLegible = true ∧
      (delimitedSample false).dump = (delimitedSample true).dump ∧
      Same (delimitedSample false) (delimitedSample true) := by
  have hlegible : ∀ swap, (delimitedSample swap).isLegible = true := by decide
  have hdump : (delimitedSample false).dump = (delimitedSample true).dump := by cbv
  exact ⟨hlegible false, hlegible true, hdump,
    (dump_eq_dump_iff (hlegible false) (hlegible true)).1 hdump⟩

end Tree

end SourceScribe
