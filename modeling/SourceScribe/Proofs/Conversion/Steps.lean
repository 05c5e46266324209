/-
  What a step that gave a result has done.

  One lemma for each kind of step: the result and the cursor after it, as an
  equivalence, so that a rule is taken apart by rewriting with these lemmas.
-/
import SourceScribe.Conversion.Basic
import SourceScribe.Proofs.Markup.Naming

namespace SourceScribe

/-- The text of an operator token is how its operator is spelled. -/
theorem Token.text_of_isOp {t : Token} {o : Operator} {s : String} (h : t.isOp o = true)
    (hs : ∀ row ∈ Operator.table, row.1 = o → row.2.1 = s) : t.text = s := by
  rw [Token.isOp, decide_eq_true_eq, Token.exact] at h
  split at h
  · split at h
    · rename_i o' ho
      obtain ⟨row, hrow, rfl⟩ := Option.map_eq_some_iff.1 ho
      have hspelt := List.find?_some hrow
      rw [decide_eq_true_eq] at hspelt
      rw [← hspelt]
      exact hs row (List.mem_of_find?_eq_some hrow) (by simpa using h)
    · simp at h
  · simp at h

namespace Conversion

/-- The cursor after the token `t` is taken and `ts` are left. -/
def Cursor.after (c : Cursor) (t : Token) (ts : List Token) : Cursor :=
  { c with rest := ts, current := some t, previous := c.current }

@[simp] theorem Cursor.after_rest (c : Cursor) (t : Token) (ts : List Token) :
    (c.after t ts).rest = ts := rfl

@[simp] theorem Cursor.after_current (c : Cursor) (t : Token) (ts : List Token) :
    (c.after t ts).current = some t := rfl

@[simp] theorem Cursor.after_previous (c : Cursor) (t : Token) (ts : List Token) :
    (c.after t ts).previous = c.current := rfl

@[simp] theorem Cursor.after_deferred (c : Cursor) (t : Token) (ts : List Token) :
    (c.after t ts).deferred = c.deferred := rfl

@[simp] theorem Cursor.after_remarks (c : Cursor) (t : Token) (ts : List Token) :
    (c.after t ts).remarks = c.remarks := rfl

namespace Scan

variable {α β : Type} {c c' : Cursor}

/-! ## Sequences -/

theorem bind_ok {m : Scan α} {k : α → Scan β} {b : β} :
    (m >>= k) c = .ok b c' ↔ ∃ a c₁, m c = .ok a c₁ ∧ k a c₁ = .ok b c' := by
  rw [show (m >>= k) c = EStateM.bind m k c from rfl, EStateM.bind]
  cases m c with
  | ok a c₁ =>
    simp only [EStateM.Result.ok.injEq]
    constructor
    · intro h; exact ⟨a, c₁, ⟨rfl, rfl⟩, h⟩
    · rintro ⟨_, _, ⟨rfl, rfl⟩, h⟩; exact h
  | error f c₁ => simp

/-- Two continuations need to agree only on what the step before gives. -/
theorem bind_congr_ok {m : Scan α} {k k' : α → Scan β}
    (h : ∀ c a c', m c = .ok a c' → k a c' = k' a c') : m >>= k = m >>= k' := by
  funext c
  rw [show (m >>= k) c = EStateM.bind m k c from rfl,
    show (m >>= k') c = EStateM.bind m k' c from rfl, EStateM.bind, EStateM.bind]
  cases hm : m c with
  | ok a c₁ => exact h c a c₁ hm
  | error f c₁ => rfl

theorem pure_ok {a b : α} : (pure a : Scan α) c = .ok b c' ↔ a = b ∧ c = c' := by
  rw [show (pure a : Scan α) c = .ok a c from rfl, EStateM.Result.ok.injEq]

theorem fail_ok {e : Cause} {a : α} : (fail e : Scan α) c = .ok a c' ↔ False := by
  rw [show (fail e : Scan α) c = .error (Failure.of e) c from rfl]; simp

theorem orFail_ok {e : Cause} {o : Option α} {a : α} :
    orFail e o c = .ok a c' ↔ o = some a ∧ c = c' := by
  cases o with
  | none => simp [orFail, fail_ok]
  | some b => simp [orFail, pure_ok]

theorem get_ok {a : Cursor} : (get : Scan Cursor) c = .ok a c' ↔ c = a ∧ c = c' := by
  rw [show (get : Scan Cursor) c = .ok c c from rfl, EStateM.Result.ok.injEq]

theorem set_ok {s : Cursor} {u : PUnit} : (set s : Scan PUnit) c = .ok u c' ↔ s = c' := by
  rw [show (set s : Scan PUnit) c = .ok ⟨⟩ s from rfl, EStateM.Result.ok.injEq]; simp

theorem modify_ok {f : Cursor → Cursor} {u : PUnit} :
    (modify f : Scan PUnit) c = .ok u c' ↔ f c = c' := by
  rw [show (modify f : Scan PUnit) c = .ok ⟨⟩ (f c) from rfl, EStateM.Result.ok.injEq]; simp

theorem within_ok {r : NodeRef} {m : Scan α} {a : α} :
    within r m c = .ok a c' ↔ m c = .ok a c' := by
  rw [within]; cases m c <;> simp

theorem inPlaceOf_ok {found written : String} {u : Unit} :
    inPlaceOf found written c = .ok u c' ↔ c.remark (.replaced found written) = c' :=
  modify_ok

theorem idle_ok {u : Unit} : idle c = .ok u c' ↔ c.remark (.idle c.rest.length) = c' :=
  modify_ok

/-! ## Tokens -/

theorem take_ok {t : Token} : take c = .ok t c' ↔ ∃ ts, c.rest = t :: ts ∧ c.after t ts = c' := by
  rw [take]
  cases h : c.rest with
  | nil => simp
  | cons u us =>
    simp only [EStateM.Result.ok.injEq, List.cons.injEq]
    constructor
    · rintro ⟨rfl, rfl⟩; exact ⟨us, ⟨rfl, rfl⟩, rfl⟩
    · rintro ⟨ts, ⟨rfl, rfl⟩, rfl⟩; exact ⟨rfl, rfl⟩

/-- Taking from tokens that are known. -/
theorem take_cons {t u : Token} {ts : List Token} (hr : c.rest = t :: ts)
    (h : take c = .ok u c') : u = t ∧ c'.rest = ts := by
  obtain ⟨us, hus, rfl⟩ := take_ok.1 h
  rw [hr, List.cons.injEq] at hus
  exact ⟨hus.1.symm, hus.2.symm⟩

theorem peek_ok {t : Token} : peek c = .ok t c' ↔ c.rest.head? = some t ∧ c = c' := by
  simp only [peek, bind_ok, get_ok, orFail_ok]
  constructor
  · rintro ⟨_, _, ⟨rfl, rfl⟩, h, rfl⟩; exact ⟨h, rfl⟩
  · rintro ⟨h, rfl⟩; exact ⟨c, c, ⟨rfl, rfl⟩, h, rfl⟩

theorem peekPastFiller_ok {t : Token} : peekPastFiller c = .ok t c' ↔
    (c.rest.dropWhile Token.isFiller).head? = some t ∧ c = c' := by
  simp only [peekPastFiller, bind_ok, get_ok, orFail_ok]
  constructor
  · rintro ⟨_, _, ⟨rfl, rfl⟩, h, rfl⟩; exact ⟨h, rfl⟩
  · rintro ⟨h, rfl⟩; exact ⟨c, c, ⟨rfl, rfl⟩, h, rfl⟩

theorem current_ok {t : Token} : current c = .ok t c' ↔ c.current = some t ∧ c = c' := by
  simp only [current, bind_ok, get_ok, orFail_ok]
  constructor
  · rintro ⟨_, _, ⟨rfl, rfl⟩, h, rfl⟩; exact ⟨h, rfl⟩
  · rintro ⟨h, rfl⟩; exact ⟨c, c, ⟨rfl, rfl⟩, h, rfl⟩

/-- Taking a token that has to be as asked, whatever the failure says if it is not. -/
theorem takeIf_ok {p : Token → Bool} {cause : Token → Cause} {t : Token} :
    (do let u ← take; if p u then return u else fail (cause u) : Scan Token) c = .ok t c' ↔
      take c = .ok t c' ∧ p t = true := by
  rw [bind_ok]
  constructor
  · rintro ⟨u, c₁, hu, h⟩
    split at h
    · rename_i hp
      obtain ⟨rfl, rfl⟩ := pure_ok.1 h
      exact ⟨hu, hp⟩
    · exact (fail_ok.1 h).elim
  · rintro ⟨ht, hp⟩
    exact ⟨t, c', ht, by rw [if_pos hp]; rfl⟩

theorem expect_ok {p : Token → Bool} {t : Token} :
    expect p c = .ok t c' ↔ take c = .ok t c' ∧ p t = true := by
  rw [expect]
  exact takeIf_ok

theorem expectShown_ok {p : Token → Bool} {t : Token} :
    expectShown p c = .ok t c' ↔ take c = .ok t c' ∧ p t = true := by
  rw [expectShown]
  exact takeIf_ok

/-! ## Gaps -/

theorem gapBefore_ok {s : String} : gapBefore c = .ok s c' ↔
    (∃ a b, c.previous = some a ∧ c.current = some b ∧ a.gap b = s) ∧ c = c' := by
  simp only [gapBefore, bind_ok, get_ok, orFail_ok, current_ok, pure_ok]
  constructor
  · rintro ⟨_, _, ⟨rfl, rfl⟩, a, _, ⟨ha, rfl⟩, b, _, ⟨hb, rfl⟩, rfl, rfl⟩
    exact ⟨⟨a, b, ha, hb, rfl⟩, rfl⟩
  · rintro ⟨⟨a, b, ha, hb, rfl⟩, rfl⟩
    exact ⟨c, c, ⟨rfl, rfl⟩, a, c, ⟨ha, rfl⟩, b, c, ⟨hb, rfl⟩, rfl, rfl⟩

theorem gapAfter_ok {s : String} : gapAfter c = .ok s c' ↔
    (∃ a b, c.current = some a ∧ c.rest.head? = some b ∧ a.gap b = s) ∧ c = c' := by
  simp only [gapAfter, bind_ok, peek_ok, current_ok, pure_ok]
  constructor
  · rintro ⟨b, _, ⟨hb, rfl⟩, a, _, ⟨ha, rfl⟩, rfl, rfl⟩
    exact ⟨⟨a, b, ha, hb, rfl⟩, rfl⟩
  · rintro ⟨⟨a, b, ha, hb, rfl⟩, rfl⟩
    exact ⟨b, c, ⟨hb, rfl⟩, a, c, ⟨ha, rfl⟩, rfl, rfl⟩

theorem gapBeforeIf_ok {before : Bool} {s : String} (h : gapBeforeIf before c = .ok s c') :
    c = c' := by
  cases before with
  | false => exact (pure_ok.1 h).2
  | true => exact (gapBefore_ok.1 h).2

theorem withGaps_ok {s : String} : withGaps c = .ok s c' ↔
    (∃ before t after, gapBefore c = .ok before c ∧ c.current = some t ∧
      gapAfter c = .ok after c ∧ before ++ t.text ++ after = s) ∧ c = c' := by
  simp only [withGaps, bind_ok, current_ok, pure_ok]
  constructor
  · rintro ⟨before, c₁, hb, t, _, ⟨ht, rfl⟩, after, c₂, ha, rfl, rfl⟩
    obtain ⟨-, rfl⟩ := gapBefore_ok.1 hb
    obtain ⟨-, rfl⟩ := gapAfter_ok.1 ha
    exact ⟨⟨before, t, after, hb, ht, ha, rfl⟩, rfl⟩
  · rintro ⟨⟨before, t, after, hb, ht, ha, rfl⟩, rfl⟩
    exact ⟨before, c, hb, t, c, ⟨ht, rfl⟩, after, c, ha, rfl, rfl⟩

end Scan

/-! ## Parts -/

section Parts
open Scan
variable {c c' : Cursor}

theorem fieldOf_ok {fields : List (String × Part)} {name : String} {p : Part} :
    fieldOf fields name c = .ok p c' ↔ fields.lookup name = some p ∧ c = c' :=
  orFail_ok

theorem Site.field_ok {n : Site} {name : String} {p : Part} :
    n.field name c = .ok p c' ↔ n.fields.lookup name = some p ∧ c = c' :=
  orFail_ok

theorem Site.writeField_ok {n : Site} {name : String} {ms : List Markup} :
    n.writeField name c = .ok ms c' ↔
      ∃ p, n.fields.lookup name = some p ∧ p.write c = .ok ms c' := by
  simp only [Site.writeField, bind_ok, Site.field_ok]
  constructor
  · rintro ⟨p, _, ⟨hp, rfl⟩, h⟩; exact ⟨p, hp, h⟩
  · rintro ⟨p, hp, h⟩; exact ⟨p, c, ⟨hp, rfl⟩, h⟩

theorem Site.addField_ok {n : Site} {name : String} {before ms : List Markup} :
    n.addField name before c = .ok ms c' ↔
      ∃ p, n.fields.lookup name = some p ∧ p.addTo before c = .ok ms c' := by
  simp only [Site.addField, bind_ok, Site.field_ok]
  constructor
  · rintro ⟨p, _, ⟨hp, rfl⟩, h⟩; exact ⟨p, hp, h⟩
  · rintro ⟨p, hp, h⟩; exact ⟨p, c, ⟨hp, rfl⟩, h⟩

theorem Part.cls_ok {p : Part} {s : String} :
    p.cls c = .ok s c' ↔ (∃ ref fields start add, p = .node ref fields start add ∧ ref.cls = s) ∧
      c = c' := by
  cases p with
  | node ref fields start add =>
    simp only [Part.cls, pure_ok]
    constructor
    · rintro ⟨rfl, rfl⟩; exact ⟨⟨ref, fields, start, add, rfl, rfl⟩, rfl⟩
    · rintro ⟨⟨_, _, _, _, h, rfl⟩, rfl⟩; cases h; exact ⟨rfl, rfl⟩
  | leaf | letter | list => simp [Part.cls, fail_ok]

theorem Site.fieldCls_ok {n : Site} {name : String} {s : String} :
    n.fieldCls name c = .ok s c' ↔
      (∃ p, n.fields.lookup name = some p ∧ p.cls c = .ok s c) ∧ c = c' := by
  simp only [Site.fieldCls, bind_ok, Site.field_ok]
  constructor
  · rintro ⟨p, _, ⟨hp, rfl⟩, h⟩
    obtain ⟨-, rfl⟩ := Part.cls_ok.1 h
    exact ⟨⟨p, hp, h⟩, rfl⟩
  · rintro ⟨⟨p, hp, h⟩, rfl⟩; exact ⟨p, c, ⟨hp, rfl⟩, h⟩

/-- What the part holds, by the names of its fields. -/
def Part.parts : Part → List (String × Part)
  | .node _ fields _ _ => fields
  | _ => []

theorem Part.field_ok {p : Part} {name : String} {q : Part} :
    p.field name c = .ok q c' ↔ p.parts.lookup name = some q ∧ c = c' := by
  cases p with
  | node ref fields start add => exact fieldOf_ok
  | leaf | letter | list => simp [Part.field, Part.parts, fail_ok]

theorem Part.asText_ok {p : Part} {s : String} :
    p.asText c = .ok s c' ↔ p = .leaf (.str s) ∧ c = c' := by
  cases p with
  | leaf v =>
    cases v with
    | str t =>
      simp only [Part.asText, pure_ok, Part.leaf.injEq, Scalar.str.injEq]
    | none | bool | int | real | complex | bytes | ellipsis => simp [Part.asText, fail_ok]
  | letter | list | node => simp [Part.asText, fail_ok]

theorem Part.caption_ok {p : Part} {ms : List Markup} (h : p.caption c = .ok ms c') :
    Markup.contents ms = p.attrValue ∧ Markup.ProperAll ms ∧ c = c' := by
  rw [Part.caption] at h
  split at h
  · simp only [bind_ok, pure_ok, Part.asText_ok] at h
    obtain ⟨s, _, ⟨rfl, rfl⟩, rfl, rfl⟩ := h
    exact ⟨by simp [Part.attrValue], by simp, rfl⟩
  · rename_i hp
    obtain ⟨rfl, rfl⟩ := pure_ok.1 h
    refine ⟨?_, by simp, rfl⟩
    -- an absent text is the empty one
    cases p with
    | leaf v => cases v <;> simp_all [Part.attrValue, Part.isPresent, Scalar.isEmpty]
    | letter | list | node => rfl

theorem Part.items_ok {p : Part} {ps : List Part} (h : p.items c = .ok ps c') : c = c' := by
  cases p with
  | list items => exact (pure_ok.1 h).2
  | leaf v =>
    cases v with
    | str | bytes => exact (pure_ok.1 h).2
    | none | bool | int | real | complex | ellipsis => exact (fail_ok.1 h).elim
  | letter | node => exact (fail_ok.1 h).elim

theorem Part.items_ne_nil {p : Part} {ps : List Part} (hp : p.isPresent = true)
    (h : p.items c = .ok ps c') : ps ≠ [] := by
  cases p with
  | list items =>
    obtain ⟨rfl, -⟩ := pure_ok.1 h
    simpa [Part.isPresent] using hp
  | leaf v =>
    cases v with
    | str | bytes =>
      obtain ⟨rfl, -⟩ := pure_ok.1 h
      simpa [Part.isPresent, Scalar.isEmpty] using hp
    | none | bool | int | real | complex | ellipsis => exact (fail_ok.1 h).elim
  | letter | node => exact (fail_ok.1 h).elim

theorem Site.fieldItems_ok {n : Site} {name : String} {ps : List Part} :
    n.fieldItems name c = .ok ps c' ↔
      (∃ p, n.fields.lookup name = some p ∧ p.items c = .ok ps c) ∧ c = c' := by
  simp only [Site.fieldItems, bind_ok, Site.field_ok]
  constructor
  · rintro ⟨p, _, ⟨hp, rfl⟩, h⟩
    obtain rfl := Part.items_ok h
    exact ⟨⟨p, hp, h⟩, rfl⟩
  · rintro ⟨⟨p, hp, h⟩, rfl⟩; exact ⟨p, c, ⟨hp, rfl⟩, h⟩

/-- Either the part is there, or the gap that was written for it is remarked upon. -/
theorem orIdle_ok {there : Bool} {m : Into} {before ms : List Markup}
    (h : orIdle there m before c = .ok ms c') :
    there = true ∧ m before c = .ok ms c' ∨
      there = false ∧ ms = before ∧ c.remark (.idle c.rest.length) = c' := by
  cases there with
  | true => exact Or.inl ⟨rfl, h⟩
  | false =>
    simp only [orIdle, Bool.false_eq_true, if_false, bind_ok, pure_ok, idle_ok] at h
    obtain ⟨_, _, rfl, rfl, rfl⟩ := h
    exact Or.inr ⟨rfl, rfl, rfl⟩

end Parts

/-! ## Adding to the children of an element -/

/-- Whatever children are there, the step keeps them, and those it adds are as `P` says. -/
def Into.Adds (f : Into) (P : Cursor → List Markup → Cursor → Prop) : Prop :=
  ∀ before c ms c', f before c = .ok ms c' → ∃ added, ms = before ++ added ∧ P c added c'

namespace Into.Adds

open Scan
variable {f : Into} {P : Cursor → List Markup → Cursor → Prop} {c c' : Cursor} {ms : List Markup}

/-- What the step adds to an element without children. -/
theorem alone (hf : f.Adds P) (h : f [] c = .ok ms c') : P c ms c' := by
  obtain ⟨added, rfl, hadded⟩ := hf [] c ms c' h
  exact hadded

/-- A step that gives markup of its own, which is then added. -/
theorem of_scan {m : Scan (List Markup)} (hm : ∀ c ms c', m c = .ok ms c' → P c ms c') :
    Into.Adds (fun before => do return before ++ (← m)) P := by
  intro before c ms c' h
  obtain ⟨added, c₁, hadded, h⟩ := bind_ok.1 h
  obtain ⟨rfl, rfl⟩ := pure_ok.1 h
  exact ⟨added, rfl, hm c added c₁ hadded⟩

/-- A step that is left out if it is not asked for. -/
theorem addIf {asked : Bool} (hnil : ∀ c, P c [] c) (hf : asked = true → f.Adds P) :
    Into.Adds (addIf asked f) P := by
  intro before c ms c' h
  cases asked with
  | false =>
    obtain ⟨rfl, rfl⟩ := pure_ok.1 h
    exact ⟨[], by simp, hnil c⟩
  | true => exact hf rfl before c ms c' h

/-- Items that add one after the other. -/
theorem addEach {α : Type} {f : α → Into} {as : List α} (hnil : ∀ c, P c [] c)
    (happend : ∀ {c ms c₁ ms₁ c₂}, P c ms c₁ → P c₁ ms₁ c₂ → P c (ms ++ ms₁) c₂)
    (hf : ∀ a ∈ as, (f a).Adds P) : Into.Adds (addEach f as) P := by
  induction as with
  | nil =>
    intro before c ms c' h
    obtain ⟨rfl, rfl⟩ := pure_ok.1 h
    exact ⟨[], by simp, hnil c⟩
  | cons a as ih =>
    intro before c ms c' h
    obtain ⟨inside, c₁, ha, hrest⟩ := bind_ok.1 h
    obtain ⟨first, rfl, hfirst⟩ := hf a (by simp) before c inside c₁ ha
    obtain ⟨others, rfl, hothers⟩ :=
      ih (fun b hb => hf b (by simp [hb])) (before ++ first) c₁ ms c' hrest
    exact ⟨first ++ others, List.append_assoc _ _ _, happend hfirst hothers⟩

end Into.Adds

/-- Markup that is put together item by item, and markup that the items add to. -/
theorem forEach_eq_addEach {α : Type} (f : α → Scan (List Markup)) (as : List α) :
    forEach f as = addEach (fun a before => do return before ++ (← f a)) as [] := by
  have hall : ∀ before, (do return before ++ (← forEach f as) : Scan (List Markup)) =
      addEach (fun a before => do return before ++ (← f a)) as before := by
    induction as with
    | nil => intro before; simp [forEach, addEach]
    | cons a as ih =>
      intro before
      simp only [forEach, addEach, bind_assoc, pure_bind]
      refine bind_congr fun x => ?_
      rw [← ih]
      exact bind_congr fun xs => by rw [List.append_assoc]
  simpa using hall []

/-! ## Parentheses -/

/-- The parenthesis `d`, kept aside last, is closed by the next token, and it is one of the
    expression `r`: the expression starts right after it or took it itself. -/
structure Closes (r : NodeRef) (start : Except Cause Position) (d : Deferred) (c : Cursor) :
    Prop where
  next : (c.rest.dropWhile Token.isFiller).head?.any (·.isOp .rpar) = true
  last : c.deferred.head? = some d
  fits : ∃ p, start = .ok p ∧ (d.start = p ∨ d.owner = r.path)

section
open Scan
variable {r : NodeRef} {start : Except Cause Position} {d? : Option Deferred} {c c' : Cursor}

/-- Either nothing closes here, or the parenthesis kept last does and is kept no longer. -/
theorem closesHere_cases (h : closesHere r start c = .ok d? c') :
    (d? = none ∧ c = c' ∧ ∀ d, ¬ Closes r start d c) ∨
      ∃ d ds, c.deferred = d :: ds ∧ d? = some d ∧ c' = { c with deferred := ds } ∧
        Closes r start d c := by
  simp only [closesHere, bind_ok, get_ok, peekPastFiller_ok] at h
  obtain ⟨t, _, ⟨ht, rfl⟩, _, _, ⟨rfl, rfl⟩, h⟩ := h
  cases hrpar : t.isOp .rpar with
  | false =>
    simp only [hrpar] at h
    obtain ⟨rfl, rfl⟩ := pure_ok.1 h
    refine Or.inl ⟨rfl, rfl, fun d hcloses => ?_⟩
    simpa [ht, hrpar] using hcloses.next
  | true =>
    cases hds : c.deferred with
    | nil =>
      simp only [hrpar, hds] at h
      obtain ⟨rfl, rfl⟩ := pure_ok.1 h
      refine Or.inl ⟨rfl, rfl, fun d hcloses => ?_⟩
      simpa [hds] using hcloses.last
    | cons d ds =>
      simp only [hrpar, hds] at h
      cases start with
      | error cause => exact (fail_ok.1 h).elim
      | ok p =>
        simp only at h
        split at h
        · rename_i hfits
          simp only [bind_ok, pure_ok, set_ok] at h
          obtain ⟨_, _, rfl, rfl, rfl⟩ := h
          exact Or.inr ⟨d, ds, rfl, rfl, rfl, by simp [ht, hrpar], by simp [hds], p, rfl, hfits⟩
        · rename_i hfits
          obtain ⟨rfl, rfl⟩ := pure_ok.1 h
          refine Or.inl ⟨rfl, rfl, fun d' hcloses => hfits ?_⟩
          obtain ⟨q, hq, hd'⟩ := hcloses.fits
          obtain rfl : p = q := by simpa using hq
          obtain rfl : d = d' := by simpa [hds] using hcloses.last
          exact hd'

theorem closesHere_ok (h : closesHere r start c = .ok d? c') :
    (d? = none ∧ c = c') ∨
      ∃ d ds, c.deferred = d :: ds ∧ d? = some d ∧ c' = { c with deferred := ds } := by
  rcases closesHere_cases h with ⟨hd, hc, -⟩ | ⟨d, ds, hds, hd, hc, -⟩
  · exact Or.inl ⟨hd, hc⟩
  · exact Or.inr ⟨d, ds, hds, hd, hc⟩

end

/-! ## Whole modules -/

/-- A tree that is converted is a module. -/
theorem rootRule_ok {p : Part} {m : Markup} {c c' : Cursor} (h : rootRule p c = .ok m c') :
    ∃ ref fields start add, p = .node ref fields start add ∧
      wholeModule ⟨ref, fields⟩ c = .ok m c' := by
  have hno (q : Part) : noModule q c ≠ .ok m c' := by
    intro hq
    simp only [noModule, Scan.bind_ok, Scan.fail_ok] at hq
    obtain ⟨_, _, -, _, _, -, hfalse⟩ := hq
    exact hfalse
  cases p with
  | node ref fields start add =>
    rw [rootRule] at h
    split at h
    · exact ⟨ref, fields, start, add, rfl, h⟩
    · exact (hno _ h).elim
  | leaf | letter | list => exact (hno _ h).elim

/-- A run that gave markup has followed the rule of the whole tree. -/
theorem run_ok {lines : List String} {tree : Tree} {tokens : List Token} {m : Markup} {c : Cursor}
    (h : run lines tree tokens = .ok (m, c)) :
    ∃ c₀, Cursor.start? tokens = some c₀ ∧ rootRule (toPart lines .root tree) c₀ = .ok m c := by
  rw [run] at h
  split at h
  · cases h
  split at h
  · cases h
  rename_i c₀ hstart
  split at h
  · rename_i hroot
    cases h
    exact ⟨c₀, hstart, hroot⟩
  · cases h

end Conversion

end SourceScribe
