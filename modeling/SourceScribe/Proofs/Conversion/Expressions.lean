/-
  The rules for expressions account for their tokens.

  Every rule starts with the gap before its first token written and ends with the gap
  after its last token unwritten: `Written R c true ms c' false`, where `ms` is what it adds
  to a fragment without children.
-/
import SourceScribe.Proofs.Conversion.Arguments

namespace SourceScribe.Conversion

open Scan Markup

variable {R : Cursor → Bool → String → Cursor → Bool → Prop} (L : Ledger R)
variable {c c' : Cursor} {ms : List Markup} {n : Site}
include L

/-- A token that was asked to be an operator, under the operator's spelling. -/
theorem expectOp_spelt {o : Operator} {t : Token} {s : String}
    (hs : ∀ row ∈ Operator.table, row.1 = o → row.2.1 = s)
    (h : expect (·.isOp o) c = .ok t c') : R c true s c' false :=
  Tally.congr (L.expect h) (Token.text_of_isOp (expect_ok.1 h).2 hs)

/-- A token that was asked to have a text, under that text. -/
theorem expectText_spelt {t : Token} {s : String} (h : expect (·.text = s) c = .ok t c') :
    R c true s c' false :=
  Tally.congr (L.expect h) (by simpa using (expect_ok.1 h).2)

/-! ## Literals and names -/

theorem numberRule_written (h : numberRule [] c = .ok ms c') : Written R c true ms c' false := by
  simp only [numberRule, bind_ok, pure_ok, List.nil_append] at h
  obtain ⟨t, c₁, ht, rfl, rfl⟩ := h
  exact Written.labelled (by decide) (L.expectShown ht)

theorem stringTail_written {k : Nat} (h : stringTail k c = .ok ms c') :
    Written R c false ms c' false := by
  induction k generalizing c ms with
  | zero =>
    obtain ⟨rfl, rfl⟩ := pure_ok.1 h
    exact Written.nil L c false
  | succ k ih =>
    simp only [stringTail, bind_ok, pure_ok] at h
    obtain ⟨between, c₁, hb, t, c₂, ht, before, c₃, hg, more, c₄, hm, rfl, rfl⟩ := h
    have hgap := L.trans (L.absorb hb) (L.gapBefore ht hg)
    obtain ⟨-, rfl⟩ := gapBefore_ok.1 hg
    refine Written.cons_text L hgap ?_
    exact Written.append L (Written.labelled (by decide) (L.take ht)) (ih hm)

theorem stringRule_written (hc : isWord n.ref.cls = true) (h : stringRule n [] c = .ok ms c') :
    Written R c true ms c' false := by
  simp only [stringRule, bind_ok, pure_ok, get_ok, orFail_ok, List.nil_append] at h
  obtain ⟨t, c₁, ht, _, _, ⟨rfl, rfl⟩, more, _, ⟨-, rfl⟩, tail, c₂, htail, rfl, rfl⟩ := h
  refine Written.element hc ?_
  exact Written.append L (Written.labelled (by decide) (L.expectShown ht)) (stringTail_written L htail)

theorem nameRule_written (hctx : Holds n.fields "ctx" IsClassed) (h : nameRule n [] c = .ok ms c') :
    Written R c true ms c' false := by
  simp only [nameRule, bind_ok, pure_ok, Site.field_ok, inPlaceOf_ok, List.nil_append] at h
  obtain ⟨t, c₁, ht, id, _, ⟨-, rfl⟩, inside, c₂, hi, _, _, rfl, ctx, c₃, hcls, rfl, rfl⟩ := h
  obtain ⟨hid, hp, rfl⟩ := Part.caption_ok hi
  obtain ⟨hw, rfl⟩ := fieldCls_isWord hctx hcls
  have hname : Written R c true inside _ false := ⟨L.replaced (L.expectShown ht), hp⟩
  refine Written.elementWith (by decide) (by simp [attrsNamed, isWord]) ?_ hname
  intro a ha
  rcases List.mem_cons.1 ha with rfl | ha
  · rw [hid]; exact drawn_self _
  · obtain rfl := List.mem_singleton.1 ha
    exact drawn_of_isWord hw _

theorem nameConstantRule_written (h : nameConstantRule [] c = .ok ms c') :
    Written R c true ms c' false := by
  simp only [nameConstantRule, bind_ok, pure_ok, List.nil_append] at h
  obtain ⟨t, c₁, ht, rfl, rfl⟩ := h
  exact Written.labelled (by decide) (L.expect ht)

theorem ellipsisRule_written (h : ellipsisRule [] c = .ok ms c') : Written R c true ms c' false := by
  simp only [ellipsisRule, bind_ok, pure_ok, List.nil_append] at h
  obtain ⟨t, c₁, ht, rfl, rfl⟩ := h
  exact Written.labelled (by decide) (L.expect ht)

/-! ## Displays -/

omit L in
/-- An element whose only attribute is a class. -/
theorem Written.elementOf {tag name cls : String} {b b' : Bool} (ht : isWord tag = true)
    (hn : (isWord name && name != "xmlns") = true) (hcls : isWord cls = true)
    (h : Written R c b ms c' b') : Written R c b [.element tag [(name, cls)] ms] c' b' := by
  refine Written.elementWith ht (by simpa [attrsNamed] using hn) (fun a ha => ?_) h
  obtain rfl := List.mem_singleton.1 ha
  exact drawn_of_isWord hcls _

/-- The first item starts with the gap before it written, every other one writes the gap
    itself. -/
theorem tupleItem_written {first : Bool} {item : Part} (hi : IsExpression R item) :
    (tupleItem first item).Adds fun c ms c' => Written R c first ms c' false := by
  intro before c ms c' h
  simp only [tupleItem, bind_ok, pure_ok] at h
  obtain ⟨left, c₁, hl, inside, c₂, hin, comma, c₃, hc, rfl, rfl⟩ := h
  have hleft : Written R c first left c₁ true := by
    cases first with
    | true =>
      obtain ⟨rfl, rfl⟩ := pure_ok.1 hl
      exact Written.nil L c true
    | false =>
      simp only [onlyIf, Bool.not_false, if_true, bind_ok, pure_ok] at hl
      obtain ⟨gap, c₄, hg, rfl, rfl⟩ := hl
      exact Written.text (L.gapAfter hg)
  obtain ⟨added, rfl, hadded⟩ := hi _ _ _ _ hin
  exact ⟨left ++ added ++ [.text comma], by simp,
    Written.append L (Written.append L hleft hadded) (Written.text (L.enclosedOf hc))⟩

theorem tupleRule_written (hctx : Holds n.fields "ctx" IsClassed)
    (he : Holds n.fields "elts" (Each (IsExpression R))) (h : tupleRule n [] c = .ok ms c') :
    Written R c true ms c' false := by
  simp only [tupleRule, bind_ok, Site.field_ok, List.nil_append] at h
  obtain ⟨ctx, c₁, hcls, elts, _, ⟨helts, rfl⟩, h⟩ := h
  obtain ⟨hw, rfl⟩ := fieldCls_isWord hctx hcls
  split at h
  · rename_i hp
    simp only [bind_ok] at h
    obtain ⟨items, c₂, hi, h⟩ := h
    have hitems := he elts helts _ _ _ hi
    obtain rfl := Part.items_ok hi
    cases items with
    | nil =>
      -- a tuple that is there has an item
      cases elts with
      | list ps => simp_all [Part.items, Part.isPresent, pure_ok]
      | leaf v => cases v <;> simp_all [Part.items, Part.isPresent, Scalar.isEmpty, pure_ok, fail_ok]
      | letter | node => simp_all [Part.items, fail_ok]
    | cons item items =>
      simp only [bind_ok, pure_ok] at h
      obtain ⟨head, c₃, hh, inside, c₄, ht, rfl, rfl⟩ := h
      have hhead := (tupleItem_written L (hitems item (by simp))).alone hh
      obtain ⟨tail, rfl, htail⟩ := addEach_written L
        (fun p hp => tupleItem_written L (hitems p (by simp [hp]))) _ _ _ _ ht
      exact Written.elementOf (by decide) (by decide) hw (Written.append L hhead htail)
  · simp only [bind_ok, pure_ok] at h
    obtain ⟨t, c₂, ht, u, c₃, hu, between, c₄, hb, rfl, rfl⟩ := h
    have hgap := L.gapBefore (expect_ok.1 hu).1 hb
    obtain ⟨-, rfl⟩ := gapBefore_ok.1 hb
    refine Written.elementOf (by decide) (by decide) hw (Written.text ?_)
    exact L.trans (L.trans (expectOp_spelt L (by decide) ht) hgap) (expectOp_spelt L (by decide) hu)

theorem delimitedItem_written {item : Part} (hi : IsExpression R item) :
    (delimitedItem item).Adds fun c ms c' => Written R c true ms c' true := by
  intro before c ms c' h
  simp only [delimitedItem, bind_ok, pure_ok] at h
  obtain ⟨inside, c₁, hin, comma, c₂, hc, rfl, rfl⟩ := h
  obtain ⟨added, rfl, hadded⟩ := hi _ _ _ _ hin
  exact ⟨added ++ [.text comma], by simp, Written.append L hadded (Written.text (L.delimiter hc))⟩

/-- Items with the commas after them. -/
theorem delimitedItems_written {p : Part} {items : List Part} {c₀ : Cursor}
    (hp : Each (IsExpression R) p) (hi : p.items c₀ = .ok items c₀) :
    (addEach delimitedItem items).Adds fun c ms c' => Written R c true ms c' true :=
  addEach_written L fun q hq => delimitedItem_written L (hp _ _ _ hi q hq)

theorem listRule_written (hc : isWord n.ref.cls = true) (hctx : Holds n.fields "ctx" IsClassed)
    (he : Holds n.fields "elts" (Each (IsExpression R))) (h : listRule n [] c = .ok ms c') :
    Written R c true ms c' false := by
  simp only [listRule, bind_ok, pure_ok, Site.fieldItems_ok, List.nil_append] at h
  obtain ⟨attrs, c₁, ha, left, c₂, hl, items, _, ⟨⟨p, hp, hi⟩, rfl⟩, inside, c₃, hin, right, c₄, hr,
    rfl, rfl⟩ := h
  have hattrs : (attrs = [] ∨ ∃ cls, attrs = [("ctx", cls)] ∧ isWord cls = true) ∧ c = c₁ := by
    rw [contextAttr] at ha
    split at ha
    · simp only [bind_ok, pure_ok] at ha
      obtain ⟨cls, c₅, hcls, rfl, rfl⟩ := ha
      obtain ⟨hw, rfl⟩ := fieldCls_isWord hctx hcls
      exact ⟨Or.inr ⟨cls, rfl, hw⟩, rfl⟩
    · obtain ⟨rfl, rfl⟩ := pure_ok.1 ha
      exact ⟨Or.inl rfl, rfl⟩
  obtain ⟨hattrs, rfl⟩ := hattrs
  obtain ⟨added, rfl, hadded⟩ := delimitedItems_written L (he p hp) hi _ _ _ _ hin
  have hw := Written.append L (Written.cons_text L (L.enclosed hl) hadded)
    (Written.text (L.expect hr))
  rcases hattrs with rfl | ⟨cls, rfl, hcls⟩
  · exact Written.element hc hw
  · exact Written.elementOf hc (by decide) hcls hw

theorem dictItem_written {entry : Part × Part} (hk : IsExpression R entry.1)
    (hv : IsExpression R entry.2) (h : dictItem entry c = .ok ms c') :
    Written R c true ms c' true := by
  simp only [dictItem, bind_ok, pure_ok] at h
  obtain ⟨key, c₁, h₁, colon, c₂, h₂, value, c₃, h₃, comma, c₄, h₄, rfl, rfl⟩ := h
  obtain ⟨added, rfl, hadded⟩ := hv _ _ _ _ h₃
  refine Written.cons_element L (by decide) ?_ (Written.text (L.delimiter h₄))
  exact Written.append L (Written.append L (hk.alone h₁) (Written.text (L.enclosed h₂))) hadded

theorem dictRule_written (hk : Holds n.fields "keys" (Each (IsExpression R)))
    (hv : Holds n.fields "values" (Each (IsExpression R))) (h : dictRule n [] c = .ok ms c') :
    Written R c true ms c' false := by
  simp only [dictRule, bind_ok, pure_ok, Site.field_ok, List.nil_append] at h
  obtain ⟨left, c₁, hl, keyField, _, ⟨hkf, rfl⟩, valueField, _, ⟨hvf, rfl⟩, keys, c₂, hki, values, c₃,
    hvi, inside, c₄, hin, t, c₅, ht, rfl, rfl⟩ := h
  have hkeys := hk keyField hkf _ _ _ hki
  obtain rfl := Part.items_ok hki
  have hvalues := hv valueField hvf _ _ _ hvi
  obtain rfl := Part.items_ok hvi
  have hitems : Written R c₁ true inside c₄ true := forEach_written L
    (fun entry he _ _ _ h => dictItem_written L (hkeys _ (List.of_mem_zip he).1)
      (hvalues _ (List.of_mem_zip he).2) h) hin
  refine Written.element (by decide) ?_
  exact Written.append L (Written.cons_text L (L.enclosed hl) hitems)
    (Written.text (expectOp_spelt L (by decide) ht))

/-! ## Parts of objects -/

theorem starredRule_written (hctx : Holds n.fields "ctx" IsClassed)
    (hv : Holds n.fields "value" (IsExpression R)) (h : starredRule n [] c = .ok ms c') :
    Written R c true ms c' false := by
  simp only [starredRule, bind_ok, pure_ok, List.nil_append] at h
  obtain ⟨t, c₁, ht, after, c₂, ha, ctx, c₃, hcls, value, c₄, hval, rfl, rfl⟩ := h
  obtain ⟨hw, rfl⟩ := fieldCls_isWord hctx hcls
  obtain ⟨added, rfl, hadded⟩ := addField_written hv _ _ _ _ hval
  refine Written.elementOf (by decide) (by decide) hw ?_
  exact Written.cons_text L (L.trans (expectOp_spelt L (by decide) ht) (L.gapAfter ha)) hadded

theorem attributeRule_written (hctx : Holds n.fields "ctx" IsClassed)
    (hv : Holds n.fields "value" (IsExpression R)) (h : attributeRule n [] c = .ok ms c') :
    Written R c true ms c' false := by
  simp only [attributeRule, bind_ok, pure_ok, List.nil_append] at h
  obtain ⟨ctx, c₁, hcls, value, c₂, hval, dot, c₃, hd, t, c₄, ht, rfl, rfl⟩ := h
  obtain ⟨hw, rfl⟩ := fieldCls_isWord hctx hcls
  refine Written.elementOf (by decide) (by decide) hw ?_
  refine Written.cons_element L (by decide) (writeField_written hv hval) ?_
  exact Written.cons_text L (L.enclosed hd) (Written.labelled (by decide) (L.expectShown ht))

/-! ## Operators -/

theorem binOpRule_written (hc : isWord n.ref.cls = true)
    (hl : Holds n.fields "left" (IsExpression R)) (hop : Holds n.fields "op" IsClassed)
    (hr : Holds n.fields "right" (IsExpression R)) (h : binOpRule n [] c = .ok ms c') :
    Written R c true ms c' false := by
  simp only [binOpRule, bind_ok, pure_ok, Site.field_ok, List.nil_append] at h
  obtain ⟨left, c₁, h₁, op, _, ⟨ho, rfl⟩, sign, c₂, hs, cls, c₃, hcls, right, c₄, h₂, rfl, rfl⟩ := h
  have hw := hop op ho _ _ _ hcls
  obtain ⟨-, rfl⟩ := Part.cls_ok.1 hcls
  obtain ⟨added, rfl, hadded⟩ := addField_written hr _ _ _ _ h₂
  have hleft := Written.append L (writeField_written hl h₁) (Written.labelled hw (L.enclosed hs))
  exact Written.element hc (Written.append L hleft hadded)

theorem boolOperand_written {operand : Part} (ho : IsExpression R operand)
    (h : boolOperand operand c = .ok ms c') : Written R c false ms c' false := by
  simp only [boolOperand, bind_ok, pure_ok] at h
  obtain ⟨sign, c₁, hs, inside, c₂, hi, rfl, rfl⟩ := h
  exact Written.cons_text L (L.enclosed hs) (Written.element (by decide) (ho.alone hi))

/-- There has to be an operand: without one, the gap before it is written for nothing. -/
theorem boolOpRule_written (hc : isWord n.ref.cls = true) (hop : Holds n.fields "op" IsClassed)
    (hv : Holds n.fields "values" (Each (IsExpression R)))
    (hthere : Holds n.fields "values" fun p => p.isPresent = true)
    (h : boolOpRule n [] c = .ok ms c') : Written R c true ms c' false := by
  simp only [boolOpRule, bind_ok, Site.fieldItems_ok, List.nil_append] at h
  obtain ⟨op, c₁, ho, values, _, ⟨⟨p, hp, hi⟩, rfl⟩, h⟩ := h
  obtain ⟨hw, rfl⟩ := fieldCls_isWord hop ho
  have hvals := hv p hp _ _ _ hi
  cases values with
  | nil => exact absurd rfl (Part.items_ne_nil (hthere p hp) hi)
  | cons operand operands =>
    simp only [bind_ok, pure_ok] at h
    obtain ⟨head, c₂, hh, tail, c₃, ht, rfl, rfl⟩ := h
    refine Written.elementOf hc (by decide) hw ?_
    refine Written.cons_element L (by decide) ((hvals operand (by simp)).alone hh) ?_
    exact forEach_written L
      (fun q hq _ _ _ h => boolOperand_written L (hvals q (by simp [hq])) h) ht

theorem unaryOpRule_written (hc : isWord n.ref.cls = true) (hop : Holds n.fields "op" IsClassed)
    (hv : Holds n.fields "operand" (IsExpression R)) (h : unaryOpRule n [] c = .ok ms c') :
    Written R c true ms c' false := by
  simp only [unaryOpRule, bind_ok, pure_ok, List.nil_append] at h
  obtain ⟨t, c₁, ht, after, c₂, ha, op, c₃, ho, operand, c₄, hval, rfl, rfl⟩ := h
  obtain ⟨hw, rfl⟩ := fieldCls_isWord hop ho
  obtain ⟨added, rfl, hadded⟩ := addField_written hv _ _ _ _ hval
  have hsign := Written.append L (Written.caption (L.take ht))
    (Written.text (L.betweenStatements ha))
  exact Written.elementOf hc (by decide) hw (Written.append L hsign hadded)

theorem comparisonSign_spelt {k : Nat} {s : String} (h : comparisonSign k c = .ok s c') :
    R c true s c' true := by
  induction k generalizing c s with
  | zero =>
    obtain ⟨rfl, rfl⟩ := pure_ok.1 h
    exact L.refl c true
  | succ k ih =>
    simp only [comparisonSign, bind_ok, pure_ok] at h
    obtain ⟨sign, c₁, hs, more, c₂, hm, rfl, rfl⟩ := h
    exact L.trans (L.enclosed hs) (ih hm)

theorem comparison_written {entry : Part × Part} (hv : IsExpression R entry.2)
    (h : comparison entry c = .ok ms c') : Written R c false ms c' false := by
  simp only [comparison, bind_ok, pure_ok, orFail_ok] at h
  obtain ⟨before, c₁, hb, cls, c₂, hcls, k, _, ⟨-, rfl⟩, sign, c₃, hs, value, c₄, hval, rfl, rfl⟩ := h
  obtain ⟨-, rfl⟩ := Part.cls_ok.1 hcls
  refine Written.append L
    (Written.labelled (by decide) (L.trans (L.gapAfter hb) (comparisonSign_spelt L hs))) ?_
  exact Written.element (by decide) (hv.alone hval)

theorem compareRule_written (hc : isWord n.ref.cls = true)
    (hl : Holds n.fields "left" (IsExpression R))
    (hv : Holds n.fields "comparators" (Each (IsExpression R))) (h : compareRule n [] c = .ok ms c') :
    Written R c true ms c' false := by
  simp only [compareRule, bind_ok, pure_ok, Site.field_ok, List.nil_append] at h
  obtain ⟨left, c₁, h₁, opField, _, ⟨-, rfl⟩, valueField, _, ⟨hvf, rfl⟩, ops, c₂, hoi, values, c₃, hvi,
    tail, c₄, ht, rfl, rfl⟩ := h
  obtain rfl := Part.items_ok hoi
  have hvalues := hv valueField hvf _ _ _ hvi
  obtain rfl := Part.items_ok hvi
  refine Written.element hc (Written.cons_element L (by decide) (writeField_written hl h₁) ?_)
  exact forEach_written L
    (fun entry he _ _ _ h => comparison_written L (hvalues _ (List.of_mem_zip he).2) h) ht

/-! ## Calls, conditions and functions -/

theorem callRule_written (hf : Holds n.fields "func" (IsExpression R))
    (ha : Holds n.fields "args" (Each (IsExpression R)))
    (hk : Holds n.fields "keywords" (Each (IsKeyword R)))
    (hs : Holds n.fields "starargs" (IsExpression R))
    (hw : Holds n.fields "kwargs" (IsExpression R)) (h : callRule n [] c = .ok ms c') :
    Written R c true ms c' false := by
  simp only [callRule, bind_ok, pure_ok, Site.field_ok, List.nil_append] at h
  obtain ⟨func, c₁, h₁, left, c₂, h₂, args, _, ⟨hargs, rfl⟩, argsPart, c₃, h₃, named, c₄, h₄, kwargs, _,
    ⟨hkw, rfl⟩, kwargsPart, c₅, h₅, t, c₆, ht, rfl, rfl⟩ := h
  have hargsPart : Written R c₂ true argsPart c₃ true := by
    refine onlyIf_written L (fun _ ms c' h => ?_) h₃
    simp only [bind_ok, pure_ok] at h
    obtain ⟨items, c₇, hi, inside, c₈, hin, rfl, rfl⟩ := h
    obtain rfl := Part.items_ok hi
    exact Written.element (by decide) ((delimitedItems_written L (ha args hargs) hi).alone hin)
  have hkwPart : Written R c₄ true kwargsPart c₅ true := onlyIf_written L
    (fun _ _ _ h => starArgument_written L (by decide) (hw kwargs hkw) h) h₅
  have hclose : R c₅ true ")" c₆ false := Tally.congr (L.expectShown ht)
    (Token.text_of_isOp (expectShown_ok.1 ht).2 (by decide))
  have hinside := Written.append L (Written.append L
    (Written.append L hargsPart (keywordsAndStar_written L hs hk h₄)) hkwPart) (Written.text hclose)
  exact Written.element (by decide) (Written.cons_element L (by decide) (writeField_written hf h₁)
    (Written.cons_text L (L.enclosed h₂) hinside))

theorem ifExpRule_written (hb : Holds n.fields "body" (IsExpression R))
    (ht : Holds n.fields "test" (IsExpression R)) (ho : Holds n.fields "orelse" (IsExpression R))
    (h : ifExpRule n [] c = .ok ms c') : Written R c true ms c' false := by
  simp only [ifExpRule, bind_ok, pure_ok, List.nil_append] at h
  obtain ⟨body, c₁, h₁, ifText, c₂, h₂, test, c₃, h₃, elseText, c₄, h₄, orelse, c₅, h₅, rfl, rfl⟩ := h
  refine Written.element (by decide) ?_
  refine Written.cons_element L (by decide) (writeField_written hb h₁) ?_
  refine Written.cons_text L (L.enclosed h₂) ?_
  refine Written.cons_element L (by decide) (writeField_written ht h₃) ?_
  refine Written.cons_text L (L.enclosed h₄) ?_
  exact Written.element (by decide) (writeField_written ho h₅)

theorem comprehensionIf_written {condition : Part} (hc : IsExpression R condition)
    (h : comprehensionIf condition c = .ok ms c') : Written R c false ms c' false := by
  simp only [comprehensionIf, bind_ok, pure_ok] at h
  obtain ⟨ifText, c₁, h₁, inside, c₂, h₂, rfl, rfl⟩ := h
  obtain ⟨added, rfl, hadded⟩ := hc _ _ _ _ h₂
  exact Written.element (by decide) (Written.cons_text L (L.enclosed h₁) hadded)

theorem comprehension_written {gen : Part} (hg : IsComprehension R gen)
    (h : comprehension gen c = .ok ms c') : Written R c false ms c' false := by
  simp only [comprehension, bind_ok, pure_ok, Part.field_ok] at h
  obtain ⟨forText, c₁, h₁, t, _, ⟨ht, rfl⟩, target, c₂, h₂, inText, c₃, h₃, i, _, ⟨hi, rfl⟩, iter, c₄, h₄,
    ifs, _, ⟨hifs, rfl⟩, ifsPart, c₅, h₅, rfl, rfl⟩ := h
  have hifsPart : Written R c₄ false ifsPart c₅ false := by
    refine onlyIf_written L (fun _ ms c' h => ?_) h₅
    simp only [bind_ok, pure_ok] at h
    obtain ⟨items, c₆, hitems, inside, c₇, hin, rfl, rfl⟩ := h
    have hconds := hg.ifs ifs hifs _ _ _ hitems
    obtain rfl := Part.items_ok hitems
    refine Written.element (by decide) (forEach_written L (fun q hq _ _ _ h => ?_) hin)
    exact comprehensionIf_written L (hconds q hq) h
  refine Written.element (by decide) (Written.cons_text L (L.enclosed h₁) ?_)
  refine Written.cons_element L (by decide) ((hg.target t ht).alone h₂) ?_
  refine Written.cons_text L (L.enclosed h₃) ?_
  exact Written.cons_element L (by decide) ((hg.iter i hi).alone h₄) hifsPart

theorem comprehensionHead_written (he : Holds n.fields "elt" (IsExpression R))
    (hk : Holds n.fields "key" (IsExpression R)) (hv : Holds n.fields "value" (IsExpression R))
    (h : comprehensionHead n c = .ok ms c') : Written R c true ms c' false := by
  rw [comprehensionHead] at h
  split at h
  · simp only [bind_ok, pure_ok] at h
    obtain ⟨elt, c₁, h₁, rfl, rfl⟩ := h
    exact Written.element (by decide) (writeField_written he h₁)
  · simp only [bind_ok, pure_ok] at h
    obtain ⟨key, c₁, h₁, colon, c₂, h₂, value, c₃, h₃, rfl, rfl⟩ := h
    refine Written.cons_element L (by decide) (writeField_written hk h₁) ?_
    exact Written.cons_text L (L.enclosed h₂) (Written.element (by decide) (writeField_written hv h₃))

theorem comprehensionRule_written (hc : isWord n.ref.cls = true)
    (he : Holds n.fields "elt" (IsExpression R)) (hk : Holds n.fields "key" (IsExpression R))
    (hv : Holds n.fields "value" (IsExpression R))
    (hg : Holds n.fields "generators" (Each (IsComprehension R)))
    (h : comprehensionRule n [] c = .ok ms c') : Written R c true ms c' false := by
  simp only [comprehensionRule, bind_ok, pure_ok, Site.fieldItems_ok, List.nil_append] at h
  obtain ⟨left, c₁, h₁, head, c₂, h₂, gens, _, ⟨⟨p, hp, hi⟩, rfl⟩, inside, c₃, h₃, right, c₄, h₄, rfl,
    rfl⟩ := h
  have hleft : Written R c true left c₁ true := by
    refine onlyIf_written L (fun _ ms c' h => ?_) h₁
    simp only [bind_ok, pure_ok] at h
    obtain ⟨bracket, c₅, hb, rfl, rfl⟩ := h
    exact Written.text (L.enclosed hb)
  have hright : Written R c₃ false right c₄ false := by
    refine onlyIf_written L (fun _ ms c' h => ?_) h₄
    simp only [bind_ok, pure_ok] at h
    obtain ⟨bracket, c₅, hb, rfl, rfl⟩ := h
    exact Written.text (L.enclosed hb)
  have hgens := forEach_written L
    (fun q hq _ _ _ h => comprehension_written L (hg p hp _ _ _ hi q hq) h) h₃
  refine Written.element hc ?_
  exact Written.append L (Written.append L hleft (comprehensionHead_written L he hk hv h₂))
    (Written.cons_element L (by decide) hgens hright)

theorem lambdaRule_written (ha : Holds n.fields "args" (IsParameters R))
    (hb : Holds n.fields "body" (IsExpression R)) (h : lambdaRule n [] c = .ok ms c') :
    Written R c true ms c' false := by
  simp only [lambdaRule, bind_ok, pure_ok, List.nil_append] at h
  obtain ⟨t, c₁, ht, after, c₂, h₁, arguments, c₃, h₂, colon, c₄, h₃, body, c₅, h₄, rfl, rfl⟩ := h
  refine Written.element (by decide) ?_
  refine Written.cons_text L (L.trans (expectText_spelt L ht) (L.gapAfter h₁)) ?_
  refine Written.cons_element L (by decide) (parameters_written L ha h₂) ?_
  exact Written.cons_text L (L.enclosed h₃) (Written.element (by decide) (writeField_written hb h₄))

/-- There has to be a value, unless the account allows for a `yield` without one: then the
    gap before it is written for nothing. -/
theorem yieldRule_written (hc : isWord n.ref.cls = true)
    (hv : Holds n.fields "value" (IsExpression R))
    (hthere : Idles R ∧ n.ref.cls ≠ "YieldFrom" ∨
      Holds n.fields "value" fun p => p.isPresent = true) (h : yieldRule n [] c = .ok ms c') :
    Written R c true ms c' false := by
  simp only [yieldRule, bind_ok, pure_ok, Site.field_ok, List.nil_append] at h
  obtain ⟨t, c₁, ht, after, c₂, h₁, fromPart, c₃, h₂, value, _, ⟨hval, rfl⟩, inside, c₄, h₃, rfl,
    rfl⟩ := h
  refine Written.element hc ?_
  rcases orIdle_ok h₃ with ⟨-, hw⟩ | ⟨habsent, rfl, hi⟩
  · have hfrom : Written R c₂ true fromPart c₃ true := by
      refine onlyIf_written L (fun _ ms c' h => ?_) h₂
      simp only [bind_ok, pure_ok] at h
      obtain ⟨u, c₅, hu, gap, c₆, hg, rfl, rfl⟩ := h
      exact Written.text (L.trans (L.expect hu) (L.gapAfter hg))
    obtain ⟨added, rfl, hadded⟩ := hv value hval _ _ _ _ hw
    have hyield := Written.cons_text L (L.trans (L.expect ht) (L.gapAfter h₁)) hfrom
    exact Written.append L hyield hadded
  · rcases hthere with ⟨I, hcls⟩ | hthere
    · rw [onlyIf, if_neg (by simpa using hcls)] at h₂
      obtain ⟨rfl, rfl⟩ := pure_ok.1 h₂
      obtain ⟨htake, htext⟩ := expect_ok.1 ht
      refine Written.text (I.take ?_ htake h₁ hi)
      rw [of_decide_eq_true htext]
      decide
    · have hpresent : value.isPresent = true := hthere value hval
      rw [hpresent] at habsent
      cases habsent

end SourceScribe.Conversion
