/-
  What a run still has to show.

  Outstanding are the tokens that are not taken yet and the parentheses kept aside.  A step
  may take tokens as it likes, but what it takes it has to show: `Pays x debt m shown` says
  that the step `m` shows, in the text of its result, all that is outstanding no more after
  it, and a debt from before on top, counted in copies of the character `x`.  Gaps and other
  texts may be shown besides.

  The rules of this account go along a step: whatever is taken adds to the debt, and where
  the result is put together the debt has to be in it.
-/
import SourceScribe.Proofs.Conversion.Balance

namespace SourceScribe.Conversion

open Scan Markup

/-! ## Copies of a character -/

/-- How often a character is in a text. -/
def copies (x : Char) (s : String) : Nat := (chars s).count x

@[simp] theorem copies_empty (x : Char) : copies x "" = 0 := by
  simp [copies]

@[simp] theorem copies_append (x : Char) (s t : String) :
    copies x (s ++ t) = copies x s + copies x t := by
  simp [copies]

/-- The characters of tokens, without gaps. -/
def bare (ts : List Token) : Multiset Char :=
  (ts.map fun t => chars t.text).sum

@[simp] theorem bare_nil : bare [] = 0 := rfl

@[simp] theorem bare_cons (t : Token) (ts : List Token) : bare (t :: ts) = chars t.text + bare ts := by
  simp [bare]

@[simp] theorem bare_append (ts us : List Token) : bare (ts ++ us) = bare ts + bare us := by
  simp [bare]

/-- The characters that are outstanding. -/
def Cursor.outstanding (c : Cursor) : Multiset Char :=
  bare c.rest + held c.deferred

/-! ## The account -/

variable {x : Char} {α β : Type} {c c' : Cursor}

/-- A debt and all that is outstanding no more is in the text. -/
structure Settles (x : Char) (debt : Nat) (c : Cursor) (s : String) (c' : Cursor) : Prop where
  honest : c.Honest
  rest : c'.rest <:+ c.rest
  settled : debt + c.outstanding.count x ≤ copies x s + c'.outstanding.count x

namespace Settles

variable {debt part : Nat} {c₁ : Cursor} {s s' : String}

theorem trans (h : Settles x debt c s c₁) (h' : Settles x 0 c₁ s' c') :
    Settles x debt c (s ++ s') c' where
  honest := h.honest
  rest := h'.rest.trans h.rest
  settled := by
    have hsettled := h.settled
    have hsettled' := h'.settled
    rw [copies_append]
    omega

/-- What was shown is part of the debt that is shown later. -/
theorem after (h : Settles x part c s c₁) (h' : Settles x (debt + copies x s) c₁ s' c') :
    Settles x (debt + part) c s' c' where
  honest := h.honest
  rest := h'.rest.trans h.rest
  settled := by
    have hsettled := h.settled
    have hsettled' := h'.settled
    omega

end Settles

/-- A step shows a debt and all that it takes, if the texts in place of tokens are theirs. -/
def Pays (x : Char) (debt : Nat) (m : Scan α) (shown : α → String) : Prop :=
  ∀ c a c', m c = .ok a c' → c'.Honest → Settles x debt c (shown a) c'

theorem tally_settles (x : Char) : Tally fun c _ s c' _ => c'.Honest → Settles x 0 c s c' where
  refl c _ hh := ⟨hh, List.suffix_rfl, by simp⟩
  trans h h' hh := (h (h' hh).honest).trans (h' hh)
  token {c t ts} hr hh := by
    refine ⟨hh, by rw [hr]; exact List.suffix_cons t ts, ?_⟩
    rw [Cursor.outstanding, hr, bare_cons, add_assoc, Multiset.count_add, zero_add]
    rfl
  gap ha hr hh := ⟨hh, List.suffix_rfl, by omega⟩

/-- The step leaves the cursor where it is. -/
def Looks (m : Scan α) : Prop := ∀ c a c', m c = .ok a c' → c = c'

namespace Pays

variable {debt : Nat} {m : Scan α} {k : α → Scan β} {shown : β → String} {owed : α → String}

theorem pure {a : α} {shown : α → String} (h : debt ≤ copies x (shown a)) :
    Pays x debt (pure a) shown := by
  intro c b c' hb hh
  obtain ⟨rfl, rfl⟩ := pure_ok.1 hb
  exact ⟨hh, List.suffix_rfl, by omega⟩

/-- A step that shows part of the debt. -/
theorem bindFrom {part : Nat} (hm : Pays x part m owed)
    (hk : ∀ a, Pays x (debt + copies x (owed a)) (k a) shown) :
    Pays x (debt + part) (m >>= k) shown := by
  intro c b c' hb hh
  obtain ⟨a, c₁, ha, hb⟩ := bind_ok.1 hb
  have hsettles := hk a _ _ _ hb hh
  exact (hm _ _ _ ha hsettles.honest).after hsettles

/-- Less is owed than is shown. -/
theorem mono {total : Nat} (h : Pays x debt m owed) (hle : total ≤ debt) : Pays x total m owed := by
  intro c a c' ha hh
  obtain ⟨hhonest, hrest, hsettled⟩ := h _ _ _ ha hh
  exact ⟨hhonest, hrest, by omega⟩

/-- All is owed by a step but `debt`. -/
theorem bindAllBut (debt : Nat) {total part : Nat} (hm : Pays x part m owed)
    (hle : total ≤ debt + part) (hk : ∀ a, Pays x (debt + copies x (owed a)) (k a) shown) :
    Pays x total (m >>= k) shown :=
  (bindFrom hm hk).mono hle

theorem bind (hm : Pays x 0 m owed) (hk : ∀ a, Pays x (debt + copies x (owed a)) (k a) shown) :
    Pays x debt (m >>= k) shown :=
  bindFrom hm hk

theorem fail {e : Cause} {shown : α → String} : Pays x debt (fail e) shown :=
  fun _ _ _ h _ => (fail_ok.1 h).elim

theorem within {r : NodeRef} {shown : α → String} (h : Pays x debt m shown) :
    Pays x debt (within r m) shown :=
  fun _ _ _ hm => h _ _ _ (within_ok.1 hm)

theorem ite {p : Prop} [Decidable p] {m₁ m₂ : Scan α} {shown : α → String}
    (h₁ : p → Pays x debt m₁ shown) (h₂ : ¬ p → Pays x debt m₂ shown) :
    Pays x debt (if p then m₁ else m₂) shown := by
  split
  · exact h₁ ‹_›
  · exact h₂ ‹_›

/-- A step that takes nothing and gives a result of some sort. -/
theorem look {P : α → Prop} (hm : ∀ c a c', m c = .ok a c' → P a ∧ c = c')
    (hk : ∀ a, P a → Pays x debt (k a) shown) : Pays x debt (m >>= k) shown := by
  intro c b c' hb hh
  obtain ⟨a, c₁, ha, hb⟩ := bind_ok.1 hb
  obtain ⟨hP, rfl⟩ := hm _ _ _ ha
  exact hk a hP _ _ _ hb hh

/-- A step that takes nothing. -/
theorem skip (hm : Looks m) (hk : ∀ a, Pays x debt (k a) shown) : Pays x debt (m >>= k) shown :=
  look (P := fun _ => True) (fun _ _ _ ha => ⟨trivial, hm _ _ _ ha⟩) fun a _ => hk a

/-! ## Tokens -/

/-- A token is taken, perhaps with a question asked about it. -/
theorem token {m : Scan Token} {k : Token → Scan β} {P : Token → Prop}
    (hm : ∀ c t c', m c = .ok t c' → take c = .ok t c' ∧ P t)
    (hk : ∀ t, P t → Pays x (debt + copies x t.text) (k t) shown) :
    Pays x debt (m >>= k) shown := by
  intro c b c' hb hh
  obtain ⟨t, c₁, ht, hb⟩ := bind_ok.1 hb
  obtain ⟨htake, hP⟩ := hm _ _ _ ht
  have hsettles := hk t hP _ _ _ hb hh
  exact ((tally_settles x).take htake hsettles.honest).after hsettles

theorem take {k : Token → Scan β} (hk : ∀ t, Pays x (debt + copies x t.text) (k t) shown) :
    Pays x debt (take >>= k) shown :=
  token (P := fun _ => True) (fun _ _ _ ht => ⟨ht, trivial⟩) fun t _ => hk t

theorem expect {p : Token → Bool} {k : Token → Scan β}
    (hk : ∀ t, p t = true → Pays x (debt + copies x t.text) (k t) shown) :
    Pays x debt (expect p >>= k) shown :=
  token (fun _ _ _ => expect_ok.1) hk

theorem expectShown {p : Token → Bool} {k : Token → Scan β}
    (hk : ∀ t, p t = true → Pays x (debt + copies x t.text) (k t) shown) :
    Pays x debt (expectShown p >>= k) shown :=
  token (fun _ _ _ => expectShown_ok.1) hk

theorem expectText {s : String} {k : Token → Scan β}
    (hk : ∀ t, Pays x (debt + copies x s) (k t) shown) :
    Pays x debt (Scan.expect (·.text = s) >>= k) shown :=
  expect fun t ht => by rw [of_decide_eq_true ht]; exact hk t

theorem expectOp {o : Operator} {k : Token → Scan β} (s : String)
    (hs : ∀ row ∈ Operator.table, row.1 = o → row.2.1 = s)
    (hk : ∀ t, Pays x (debt + copies x s) (k t) shown) :
    Pays x debt (Scan.expect (·.isOp o) >>= k) shown :=
  expect fun t ht => by rw [Token.text_of_isOp ht hs]; exact hk t

/-- A token with the gaps on both sides. -/
theorem marked {m : Scan Token} {k : Token → String → Scan β}
    (hm : ∀ c t c', m c = .ok t c' → Scan.take c = .ok t c')
    (hk : ∀ t s, Pays x (debt + copies x s) (k t s) shown) :
    Pays x debt (m >>= fun t => withGaps >>= k t) shown := by
  intro c b c' hb hh
  obtain ⟨t, c₁, ht, hb⟩ := bind_ok.1 hb
  obtain ⟨s, c₂, hs, hb⟩ := bind_ok.1 hb
  have hsettles := hk t s _ _ _ hb hh
  exact ((tally_settles x).takeWithGaps (hm _ _ _ ht) hs hsettles.honest).after hsettles

theorem expectMarked {p : Token → Bool} {k : Token → String → Scan β}
    (hk : ∀ t s, Pays x (debt + copies x s) (k t s) shown) :
    Pays x debt (Scan.expect p >>= fun t => withGaps >>= k t) shown :=
  marked (fun _ _ _ ht => (expect_ok.1 ht).1) hk

theorem expectShownMarked {p : Token → Bool} {k : Token → String → Scan β}
    (hk : ∀ t s, Pays x (debt + copies x s) (k t s) shown) :
    Pays x debt (Scan.expectShown p >>= fun t => withGaps >>= k t) shown :=
  marked (fun _ _ _ ht => (expectShown_ok.1 ht).1) hk

/-- A text that is written in place of what was taken last is owed instead of that. -/
theorem inPlaceOf {found written : String} {k : Unit → Scan β}
    (hk : Pays x (debt + copies x written) (k ()) shown) :
    Pays x (debt + copies x found) (inPlaceOf found written >>= k) shown := by
  intro c b c' hb hh
  obtain ⟨_, c₁, hu, hb⟩ := bind_ok.1 hb
  obtain rfl := inPlaceOf_ok.1 hu
  obtain ⟨hh₁, hrest, hsettled⟩ := hk _ _ _ hb hh
  obtain rfl : found = written := hh₁ _ _ (by simp [Cursor.remark])
  exact ⟨fun _ _ hr => hh₁ _ _ (List.mem_cons_of_mem _ hr), hrest, hsettled⟩

theorem idle {k : Unit → Scan β} (hk : Pays x debt (k ()) shown) :
    Pays x debt (idle >>= k) shown := by
  intro c b c' hb hh
  obtain ⟨_, c₁, hu, hb⟩ := bind_ok.1 hb
  obtain rfl := idle_ok.1 hu
  obtain ⟨hh₁, hrest, hsettled⟩ := hk _ _ _ hb hh
  exact ⟨fun _ _ hr => hh₁ _ _ (List.mem_cons_of_mem _ hr), hrest, hsettled⟩

end Pays

/-! ## Runs of tokens -/

theorem absorb_pays (p : Token → Bool) : Pays x 0 (absorb p) fun s => s :=
  fun _ _ _ => (tally_settles x).absorb

theorem betweenStatements_pays (after : Bool) : Pays x 0 (betweenStatements after) fun s => s :=
  fun _ _ _ => (tally_settles x).betweenStatements

theorem delimiter_pays : Pays x 0 delimiter fun s => s :=
  fun _ _ _ => (tally_settles x).delimiter

theorem enclosed_pays (before after : Bool) : Pays x 0 (enclosed before after) fun s => s :=
  fun _ _ _ => (tally_settles x).enclosed

theorem enclosedOf_pays (want : Option ExactKind) :
    Pays x 0 (enclosedOf want true false) fun s => s :=
  fun _ _ _ => (tally_settles x).enclosedOf

/-! ## Looking -/

theorem looks_gapBefore : Looks gapBefore := fun _ _ _ h => (gapBefore_ok.1 h).2

theorem looks_gapAfter : Looks gapAfter := fun _ _ _ h => (gapAfter_ok.1 h).2

theorem looks_peek : Looks peek := fun _ _ _ h => (peek_ok.1 h).2

theorem looks_cls (p : Part) : Looks p.cls := fun _ _ _ h => (Part.cls_ok.1 h).2

theorem looks_fieldCls (n : Site) (name : String) : Looks (n.fieldCls name) :=
  fun _ _ _ h => (Site.fieldCls_ok.1 h).2

theorem looks_orFail (e : Cause) (o : Option α) : Looks (orFail e o) :=
  fun _ _ _ h => (orFail_ok.1 h).2

/-! ## Markup -/

/-- A step that may be left out. -/
theorem onlyIf_pays {asked : Bool} {m : Scan (List Markup)} (h : Pays x 0 m contents) :
    Pays x 0 (onlyIf asked m) contents := by
  cases asked with
  | false => exact .pure (Nat.zero_le _)
  | true => exact h

theorem forEach_pays {f : α → Scan (List Markup)} {as : List α}
    (hf : ∀ a ∈ as, Pays x 0 (f a) contents) : Pays x 0 (forEach f as) contents := by
  induction as with
  | nil => exact .pure (Nat.zero_le _)
  | cons a as ih =>
    refine (hf a List.mem_cons_self).bind fun ms => ?_
    refine (ih fun b hb => hf b (List.mem_cons_of_mem a hb)).bind fun ms' => .pure ?_
    simp

/-! ## Adding to the children of an element -/

/-- The step shows what it takes besides what is there already. -/
def PaysInto (x : Char) (m : Into) : Prop :=
  ∀ parent, Pays x (copies x (contents parent)) (m parent) contents

theorem PaysInto.alone {m : Into} (h : PaysInto x m) : Pays x 0 (m []) contents :=
  (h []).mono (Nat.zero_le _)

theorem addIf_pays {asked : Bool} {m : Into} (h : PaysInto x m) : PaysInto x (addIf asked m) :=
  fun parent => .ite (fun _ => h parent) fun _ => .pure le_rfl

/-- A step for a part that may be missing. -/
theorem orIdle_pays {there : Bool} {m : Into} (h : PaysInto x m) : PaysInto x (orIdle there m) :=
  fun parent => .ite (fun _ => h parent) fun _ => .idle (.pure le_rfl)

theorem addEach_pays {f : α → Into} {as : List α} (hf : ∀ a ∈ as, PaysInto x (f a)) :
    PaysInto x (addEach f as) := by
  induction as with
  | nil => exact fun _ => .pure le_rfl
  | cons a as ih =>
    intro parent
    refine .bindAllBut 0 (hf a List.mem_cons_self parent) (by simp) fun ms => ?_
    rw [Nat.zero_add]
    exact ih (fun b hb => hf b (List.mem_cons_of_mem a hb)) ms

/-! ## Parts -/

/-- The markup of every node in the part shows what is taken for it. -/
inductive Part.Shows (x : Char) : Part → Prop where
  | leaf (v : Scalar) : Shows x (.leaf v)
  | letter : Shows x .letter
  | list {items : List Part} (h : ∀ p ∈ items, Shows x p) : Shows x (.list items)
  | node {ref : NodeRef} {fields : List (String × Part)} {start : Except Cause Position}
      {add : Into} (hfields : ∀ name p, fields.lookup name = some p → Shows x p)
      (hadd : PaysInto x add) : Shows x (.node ref fields start add)

/-- All fields of the node are such. -/
def Site.Shows (x : Char) (n : Site) : Prop :=
  ∀ name p, n.fields.lookup name = some p → p.Shows x

section
variable {p : Part} {n : Site} {debt : Nat} {shown : β → String}

theorem Part.Shows.addTo (h : p.Shows x) : PaysInto x p.addTo := by
  cases h with
  | node _ hadd => exact hadd
  | leaf | letter | list => exact fun _ => .fail

theorem Part.Shows.write (h : p.Shows x) : Pays x 0 p.write contents :=
  h.addTo.alone

theorem Site.Shows.addField (h : n.Shows x) (name : String) : PaysInto x (n.addField name) := by
  intro parent c ms c' hms
  obtain ⟨p, hp, hadd⟩ := Site.addField_ok.1 hms
  exact (h name p hp).addTo parent _ _ _ hadd

theorem Site.Shows.writeField (h : n.Shows x) (name : String) :
    Pays x 0 (n.writeField name) contents := by
  intro c ms c' hms
  obtain ⟨p, hp, hwrite⟩ := Site.writeField_ok.1 hms
  exact (h name p hp).write _ _ _ hwrite

namespace Pays

theorem field (h : n.Shows x) (name : String) {k : Part → Scan β}
    (hk : ∀ p, p.Shows x → Pays x debt (k p) shown) : Pays x debt (n.field name >>= k) shown :=
  look (fun _ p _ hp => ⟨h name p (Site.field_ok.1 hp).1, (Site.field_ok.1 hp).2⟩) hk

theorem partField (h : p.Shows x) (name : String) {k : Part → Scan β}
    (hk : ∀ q, q.Shows x → Pays x debt (k q) shown) : Pays x debt (p.field name >>= k) shown := by
  refine look (fun _ q _ hq => ?_) hk
  obtain ⟨hlookup, rfl⟩ := Part.field_ok.1 hq
  refine ⟨?_, rfl⟩
  cases h with
  | node hfields => exact hfields name q hlookup
  | leaf | letter | list => cases hlookup

theorem items (h : p.Shows x) {k : List Part → Scan β}
    (hk : ∀ ps, (∀ q ∈ ps, q.Shows x) → Pays x debt (k ps) shown) :
    Pays x debt (p.items >>= k) shown := by
  refine look (fun _ ps _ hps => ⟨?_, Part.items_ok hps⟩) hk
  cases h with
  | list h =>
    obtain ⟨rfl, -⟩ := pure_ok.1 hps
    exact h
  | leaf v =>
    cases v with
    | str | bytes =>
      obtain ⟨rfl, -⟩ := pure_ok.1 hps
      intro q hq
      obtain ⟨_, -, rfl⟩ := List.mem_map.1 hq
      exact .letter
    | none | bool | int | real | complex | ellipsis => exact (fail_ok.1 hps).elim
  | letter | node => exact (fail_ok.1 hps).elim

theorem fieldItems (h : n.Shows x) (name : String) {k : List Part → Scan β}
    (hk : ∀ ps, (∀ q ∈ ps, q.Shows x) → Pays x debt (k ps) shown) :
    Pays x debt (n.fieldItems name >>= k) shown := by
  rw [Site.fieldItems, bind_assoc]
  exact field h name fun p hp => items hp hk

theorem writeField (h : n.Shows x) (name : String) {k : List Markup → Scan β}
    (hk : ∀ ms, Pays x (debt + copies x (contents ms)) (k ms) shown) :
    Pays x debt (n.writeField name >>= k) shown :=
  (h.writeField name).bind hk

/-- The text of a part is written without an element. -/
theorem asText {k : String → Scan β} (hk : ∀ s, Pays x debt (k s) shown) :
    Pays x debt (p.asText >>= k) shown :=
  skip (fun _ _ _ h => (Part.asText_ok.1 h).2) hk

theorem caption {k : List Markup → Scan β} (hk : ∀ ms, Pays x debt (k ms) shown) :
    Pays x debt (p.caption >>= k) shown :=
  skip (fun _ _ _ h => (Part.caption_ok h).2.2) hk

end Pays

end

end SourceScribe.Conversion
