/-
  The rules for statements account for their tokens.

  A rule starts with the gap before its first token written, by `afterGap`, and ends
  with the gap after its last token unwritten: `Written R c true [e] c' false`.  The
  statements of a block follow one another with no gap written between them.
-/
import SourceScribe.Proofs.Conversion.Expressions

namespace SourceScribe.Conversion

open Scan Markup

variable {R : Cursor → Bool → String → Cursor → Bool → Prop} (L : Ledger R)
variable {c c' c₀ : Cursor} {ms : List Markup} {e : Markup} {n : Site}
include L

theorem afterGap_written {rule : Scan Markup}
    (hrule : ∀ c e c', rule c = .ok e c' → Written R c true [e] c' false) :
    (afterGap rule).Adds fun c ms c' => Written R c false ms c' false := by
  intro earlier c ms c' h
  simp only [afterGap, bind_ok, pure_ok] at h
  obtain ⟨before, c₁, hb, e, c₂, he, rfl, rfl⟩ := h
  exact ⟨_, rfl, Written.cons_text L (L.betweenStatements hb) (hrule _ _ _ he)⟩

/-! ## Blocks -/

/-- The statements of a block, with the text before them. -/
theorem block_written {field lead : String} {b : Bool} (hw : isWord field = true)
    (hs : Holds n.fields field (Each (IsStatement R))) (hlead : R c₀ b lead c false)
    (h : block n field lead c = .ok e c') : Written R c₀ b [e] c' false := by
  simp only [block, bind_ok, pure_ok, Site.fieldItems_ok] at h
  obtain ⟨items, _, ⟨⟨p, hp, hi⟩, rfl⟩, inside, c₁, hin, rfl, rfl⟩ := h
  obtain ⟨added, rfl, hadded⟩ := addEach_written L (hs p hp _ _ _ hi) _ _ _ _ hin
  exact Written.element hw (Written.append L (Written.caption hlead) hadded)

/-- A block with no text before it. -/
theorem plainBlock_written {field : String} (hw : isWord field = true)
    (hs : Holds n.fields field (Each (IsStatement R))) (h : block n field "" c = .ok e c') :
    Written R c false [e] c' false :=
  block_written L hw hs (L.refl c false) h

theorem colon_spelt {s : String} (h : colon c = .ok s c') : R c false s c' false := by
  simp only [colon, bind_ok, pure_ok] at h
  obtain ⟨t, c₁, ht, before, c₂, hb, rfl, rfl⟩ := h
  have hg := L.gapBefore (expect_ok.1 ht).1 hb
  obtain ⟨-, rfl⟩ := gapBefore_ok.1 hb
  exact L.trans hg (expectOp_spelt L (by decide) ht)

theorem keywordBlock_written {field keyword : String} (hw : isWord field = true)
    (hs : Holds n.fields field (Each (IsStatement R)))
    (h : keywordBlock n field keyword c = .ok e c') : Written R c false [e] c' false := by
  simp only [keywordBlock, bind_ok] at h
  obtain ⟨t, c₁, ht, lead, c₂, hl, u, c₃, hu, h⟩ := h
  have hlead := L.takeWithGaps (expectShown_ok.1 ht).1 hl
  exact block_written L hw hs (L.trans hlead (expectOp_spelt L (by decide) hu)) h

theorem optionalBlock_written {field keyword : String} (hw : isWord field = true)
    (hs : Holds n.fields field (Each (IsStatement R)))
    (h : optionalBlock n field keyword c = .ok ms c') : Written R c false ms c' false := by
  simp only [optionalBlock, bind_ok, Site.field_ok] at h
  obtain ⟨p, _, ⟨-, rfl⟩, h⟩ := h
  split at h
  · simp only [bind_ok, pure_ok] at h
    obtain ⟨before, c₁, hb, e, c₂, he, rfl, rfl⟩ := h
    exact Written.cons_text L (L.betweenStatements hb) (keywordBlock_written L hw hs he)
  · obtain ⟨rfl, rfl⟩ := pure_ok.1 h
    exact Written.nil L c false

/-! ## Simple statements -/

omit L in
theorem exprRule_written (hv : Holds n.fields "value" (IsExpression R))
    (h : exprRule n c = .ok e c') : Written R c true [e] c' false := by
  simp only [exprRule, bind_ok, pure_ok] at h
  obtain ⟨value, c₁, hval, rfl, rfl⟩ := h
  exact Written.element (by decide) (writeField_written hv hval)

theorem wordRule_written (hc : isWord n.ref.cls = true) (h : wordRule n c = .ok e c') :
    Written R c true [e] c' false := by
  simp only [wordRule, bind_ok, pure_ok] at h
  obtain ⟨t, c₁, ht, rfl, rfl⟩ := h
  exact Written.labelled hc (L.expect ht)

theorem assertRule_written (ht : Holds n.fields "test" (IsExpression R))
    (hm : Holds n.fields "msg" (IsExpression R)) (h : assertRule n c = .ok e c') :
    Written R c true [e] c' false := by
  simp only [assertRule, bind_ok, pure_ok, Site.field_ok] at h
  obtain ⟨t, c₁, h₁, after, c₂, h₂, test, c₃, h₃, msg, _, ⟨hmsg, rfl⟩, msgPart, c₄, h₄, rfl, rfl⟩ := h
  have hmsgPart : Written R c₃ false msgPart c₄ false := by
    refine onlyIf_written L (fun _ ms c' h => ?_) h₄
    simp only [bind_ok, pure_ok] at h
    obtain ⟨u, c₅, hu, comma, c₆, hc, inside, c₇, hi, rfl, rfl⟩ := h
    exact Written.cons_text L (L.expectWithGaps hu hc)
      (Written.element (by decide) ((hm msg hmsg).alone hi))
  refine Written.element (by decide) ?_
  refine Written.cons_text L (L.trans (expectText_spelt L h₁) (L.gapAfter h₂)) ?_
  exact Written.cons_element L (by decide) (writeField_written ht h₃) hmsgPart

theorem assignTarget_written {target : Part} (ht : IsExpression R target) :
    (assignTarget target).Adds fun c ms c' => Written R c true ms c' true := by
  intro before c ms c' h
  simp only [assignTarget, bind_ok, pure_ok] at h
  obtain ⟨inside, c₁, hi, t, c₂, he, equal, c₃, hg, rfl, rfl⟩ := h
  obtain ⟨added, rfl, hadded⟩ := ht _ _ _ _ hi
  exact ⟨added ++ [.text equal], by simp,
    Written.append L hadded (Written.text (L.expectWithGaps he hg))⟩

theorem assignRule_written (ht : Holds n.fields "targets" (Each (IsExpression R)))
    (hv : Holds n.fields "value" (IsExpression R)) (h : assignRule n c = .ok e c') :
    Written R c true [e] c' false := by
  simp only [assignRule, bind_ok, pure_ok, Site.fieldItems_ok] at h
  obtain ⟨items, _, ⟨⟨p, hp, hi⟩, rfl⟩, targets, c₁, h₁, value, c₂, h₂, rfl, rfl⟩ := h
  have htargets := (addEach_written L
    fun q hq => assignTarget_written L (ht p hp _ _ _ hi q hq)).alone h₁
  obtain ⟨added, rfl, hadded⟩ := addField_written hv _ _ _ _ h₂
  exact Written.element (by decide) (Written.cons_element L (by decide) htargets hadded)

theorem augAssignRule_written (ht : Holds n.fields "target" (IsExpression R))
    (hop : Holds n.fields "op" IsClassed) (hv : Holds n.fields "value" (IsExpression R))
    (h : augAssignRule n c = .ok e c') : Written R c true [e] c' false := by
  simp only [augAssignRule, bind_ok, pure_ok, Site.field_ok] at h
  obtain ⟨target, c₁, h₁, t, c₂, h₂, op, _, ⟨ho, rfl⟩, cls, c₃, hcls, sign, c₄, h₃, value, c₅, h₄, rfl,
    rfl⟩ := h
  have hw := hop op ho _ _ _ hcls
  obtain ⟨-, rfl⟩ := Part.cls_ok.1 hcls
  have hsign := L.expectWithGaps h₂ h₃
  refine Written.element (by decide) ?_
  refine Written.cons_element L (by decide) (writeField_written ht h₁) ?_
  refine Written.cons_element L (by decide) (Written.labelled hw hsign) ?_
  exact Written.element (by decide) (writeField_written hv h₄)

theorem returnValue_written {value : Part} (hv : IsExpression R value) :
    (returnValue value).Adds fun c ms c' => Written R c false ms c' false := by
  intro before c ms c' h
  obtain ⟨after, c₁, ha, hi⟩ := bind_ok.1 h
  obtain ⟨added, rfl, hadded⟩ := hv _ _ _ _ hi
  exact ⟨.text after :: added, by simp, Written.cons_text L (L.gapAfter ha) hadded⟩

theorem returnRule_written (hv : Holds n.fields "value" (IsExpression R))
    (h : returnRule n c = .ok e c') : Written R c true [e] c' false := by
  simp only [returnRule, bind_ok, pure_ok, Site.field_ok] at h
  obtain ⟨t, c₁, ht, value, _, ⟨hval, rfl⟩, inside, c₂, hp, rfl, rfl⟩ := h
  obtain ⟨added, rfl, hadded⟩ := addIf_written L
    (fun _ => returnValue_written L (hv value hval)) _ _ _ _ hp
  exact Written.element (by decide) (Written.cons_text L (expectText_spelt L ht) hadded)

theorem raiseRule_written (hx : Holds n.fields "exc" (IsExpression R))
    (hf : Holds n.fields "cause" (IsExpression R)) (h : raiseRule n c = .ok e c') :
    Written R c true [e] c' false := by
  simp only [raiseRule, bind_ok, pure_ok, Site.field_ok] at h
  obtain ⟨t, c₁, ht, exc, _, ⟨hexc, rfl⟩, excPart, c₂, h₁, cause, _, ⟨hcause, rfl⟩, causePart, c₃, h₂,
    rfl, rfl⟩ := h
  have hexcPart : Written R c₁ false excPart c₂ false := by
    refine onlyIf_written L (fun _ ms c' h => ?_) h₁
    simp only [bind_ok, pure_ok] at h
    obtain ⟨after, c₄, ha, inside, c₅, hi, rfl, rfl⟩ := h
    exact Written.cons_text L (L.gapAfter ha)
      (Written.element (by decide) ((hx exc hexc).alone hi))
  have hcausePart : Written R c₂ false causePart c₃ false := by
    refine onlyIf_written L (fun _ ms c' h => ?_) h₂
    simp only [bind_ok, pure_ok] at h
    obtain ⟨u, c₄, hu, between, c₅, hb, inside, c₆, hi, rfl, rfl⟩ := h
    exact Written.cons_text L (L.expectWithGaps hu hb)
      (Written.element (by decide) ((hf cause hcause).alone hi))
  refine Written.element (by decide) ?_
  exact Written.append L (Written.cons_text L (expectText_spelt L ht) hexcPart) hcausePart

/-! ## Definitions -/

theorem decorator_written {deco : Part} (hd : IsExpression R deco)
    (h : decorator deco c = .ok ms c') : Written R c true ms c' true := by
  simp only [decorator, bind_ok, pure_ok] at h
  obtain ⟨t, c₁, ht, after, c₂, ha, inside, c₃, hi, between, c₄, hb, rfl, rfl⟩ := h
  obtain ⟨added, rfl, hadded⟩ := hd _ _ _ _ hi
  refine Written.cons_element L (by decide) ?_ (Written.text (L.betweenStatements hb))
  exact Written.cons_text L (L.trans (expectOp_spelt L (by decide) ht) (L.gapAfter ha)) hadded

theorem decorators_written {p : Part} {items : List Part}
    (hd : Each (IsExpression R) p) (hi : p.items c₀ = .ok items c₀)
    (h : forEach decorator items c = .ok ms c') : Written R c true ms c' true :=
  forEach_written L (fun q hq _ _ _ h => decorator_written L (hd _ _ _ hi q hq) h) h

theorem returnsPart_written (hr : Holds n.fields "returns" (IsExpression R))
    (h : returnsPart n c = .ok ms c') : Written R c true ms c' true := by
  simp only [returnsPart, bind_ok, Site.field_ok] at h
  obtain ⟨returns, _, ⟨hret, rfl⟩, h⟩ := h
  split at h
  · simp only [bind_ok, pure_ok, inPlaceOf_ok] at h
    obtain ⟨t, c₁, ht, _, _, rfl, arrow, c₂, ha, inside, c₃, hi, after, c₄, haf, rfl, rfl⟩ := h
    obtain ⟨added, rfl, hadded⟩ := hr returns hret _ _ _ _ hi
    refine Written.element (by decide) ?_
    refine Written.append L (Written.cons_text L ?_ hadded) (Written.text (L.gapAfter haf))
    exact L.trans (L.replaced (L.expect ht)) (L.gapAfter ha)
  · obtain ⟨rfl, rfl⟩ := pure_ok.1 h
    exact Written.nil L c true

omit L in
/-- An element that names what it defines by an attribute, and writes the name inside. -/
theorem Written.elementNamed {tag name : String} {b b' : Bool} (ht : isWord tag = true)
    (hn : Drawn name (contents ms)) (h : Written R c b ms c' b') :
    Written R c b [.element tag [("name", name)] ms] c' b' := by
  refine Written.elementWith ht (by simp [attrsNamed, isWord]) (fun a ha => ?_) h
  obtain rfl := List.mem_singleton.1 ha
  exact hn

theorem functionDefRule_written (hd : Holds n.fields "decorator_list" (Each (IsExpression R)))
    (ha : Holds n.fields "args" (IsParameters R)) (hr : Holds n.fields "returns" (IsExpression R))
    (hb : Holds n.fields "body" (Each (IsStatement R))) (h : functionDefRule n c = .ok e c') :
    Written R c true [e] c' false := by
  simp only [functionDefRule, bind_ok, pure_ok, Site.field_ok, Site.fieldItems_ok, inPlaceOf_ok] at h
  obtain ⟨items, _, ⟨⟨p, hp, hi⟩, rfl⟩, decorators, c₁, h₁, t, c₂, h₂, afterDef, c₃, h₃, u, c₄, h₄,
    nameField, _, ⟨-, rfl⟩, name, c₅, hname, _, _, rfl, h⟩ := h
  obtain ⟨left, c₆, h₅, arguments, c₇, h₆, v, c₈, h₇, afterArgs, c₉, h₈, returns, c₁₀, h₉, w, c₁₁,
    h₁₀, body, c₁₂, h₁₁, rfl, rfl⟩ := h
  obtain ⟨-, rfl⟩ := Part.asText_ok.1 hname
  have hclose : R c₇ true ")" c₈ false := expectOp_spelt L (by decide) h₇
  have hend : R c₁₀ true ":" c₁₁ false := expectOp_spelt L (by decide) h₁₀
  have hargs := Written.append L (Written.append L
    (Written.append L (Written.caption (L.enclosed h₅)) (parameters_written L ha h₆))
    (Written.cons_text L (L.trans hclose (L.gapAfter h₈)) (returnsPart_written L hr h₉)))
    (Written.text hend)
  refine Written.elementNamed (by decide) ?_ ?_
  · simp only [contents_append, contents_cons, content_text]
    exact (((drawn_self name).append_right _).append_left _).append_left _
  · refine Written.append L (decorators_written L (hd p hp) hi h₁) ?_
    refine Written.cons_text L (L.trans (expectText_spelt L h₂) (L.gapAfter h₃)) ?_
    refine Written.cons_text L (L.replaced (L.expect h₄)) ?_
    exact Written.cons_element L (by decide) hargs (plainBlock_written L (by decide) hb h₁₁)

theorem classBase_written {base : Part} (hb : IsExpression R base)
    (h : classBase base c = .ok ms c') : Written R c true ms c' true := by
  simp only [classBase, bind_ok, pure_ok] at h
  obtain ⟨inside, c₁, hi, comma, c₂, hc, rfl, rfl⟩ := h
  exact Written.cons_element L (by decide) (hb.alone hi) (Written.text (L.delimiter hc))

theorem classArguments_written (hb : Holds n.fields "bases" (Each (IsExpression R)))
    (hk : Holds n.fields "keywords" (Each (IsKeyword R)))
    (hs : Holds n.fields "starargs" (IsExpression R))
    (hw : Holds n.fields "kwargs" (IsExpression R)) (h : classArguments n c = .ok ms c') :
    Written R c false ms c' false := by
  simp only [classArguments, bind_ok, peek_ok] at h
  obtain ⟨next, _, ⟨-, rfl⟩, h⟩ := h
  split at h
  · simp only [bind_ok, pure_ok, Site.field_ok, Site.fieldItems_ok] at h
    obtain ⟨left, c₁, h₁, items, _, ⟨⟨p, hp, hi⟩, rfl⟩, bases, c₂, h₂, named, c₃, h₃, kwargs, _,
      ⟨hkw, rfl⟩, kwargsPart, c₄, h₄, t, c₅, h₅, rfl, rfl⟩ := h
    have hbases := forEach_written L
      (fun q hq _ _ _ h => classBase_written L (hb p hp _ _ _ hi q hq) h) h₂
    have hkwPart := onlyIf_written L
      (fun _ _ _ h => starArgument_written L (by decide) (hw kwargs hkw) h) h₄
    refine Written.element (by decide) ?_
    refine Written.append L (Written.append L (Written.append L (Written.append L
      (Written.caption (L.enclosed h₁)) hbases) (keywordsAndStar_written L hs hk h₃)) hkwPart) ?_
    exact Written.text (expectOp_spelt L (by decide) h₅)
  · obtain ⟨rfl, rfl⟩ := pure_ok.1 h
    exact Written.nil L c false

theorem classDefRule_written (hd : Holds n.fields "decorator_list" (Each (IsExpression R)))
    (hb : Holds n.fields "bases" (Each (IsExpression R)))
    (hk : Holds n.fields "keywords" (Each (IsKeyword R)))
    (hs : Holds n.fields "starargs" (IsExpression R))
    (hw : Holds n.fields "kwargs" (IsExpression R))
    (hbody : Holds n.fields "body" (Each (IsStatement R))) (h : classDefRule n c = .ok e c') :
    Written R c true [e] c' false := by
  simp only [classDefRule, bind_ok, pure_ok, Site.field_ok, Site.fieldItems_ok, inPlaceOf_ok] at h
  obtain ⟨items, _, ⟨⟨p, hp, hi⟩, rfl⟩, decorators, c₁, h₁, t, c₂, h₂, u, c₃, h₃, nameField, _,
    ⟨-, rfl⟩, before, c₄, h₄, name, c₅, hname, _, _, rfl, arguments, c₆, h₅, colon, c₇, h₆, body, c₈,
    h₇, rfl, rfl⟩ := h
  obtain ⟨-, rfl⟩ := Part.asText_ok.1 hname
  have hgap := L.gapBefore (expect_ok.1 h₃).1 h₄
  obtain ⟨-, rfl⟩ := gapBefore_ok.1 h₄
  have hhead := Written.cons_text L (expectText_spelt L h₂) (Written.cons_text L
    (L.trans hgap (L.replaced (L.expect h₃))) (classArguments_written L hb hk hs hw h₅))
  refine Written.elementNamed (by decide) ?_ ?_
  · simp only [contents_append, contents_cons, content_text]
    refine Drawn.append_right (Drawn.append_left ?_ _) _
    exact (((drawn_self name).append_left _).append_right _).append_left _
  · refine Written.append L (Written.append L (decorators_written L (hd p hp) hi h₁) hhead) ?_
    exact Written.cons_text L (colon_spelt L h₆) (plainBlock_written L (by decide) hbody h₇)

/-! ## Compound statements -/

theorem elsePart_written (hs : Holds n.fields "orelse" (Each (IsStatement R)))
    (h : elsePart n c = .ok ms c') : Written R c false ms c' false := by
  simp only [elsePart, bind_ok, Site.field_ok] at h
  obtain ⟨orelse, _, ⟨ho, rfl⟩, h⟩ := h
  split at h
  · simp only [bind_ok, peek_ok] at h
    obtain ⟨before, c₁, hb, next, _, ⟨-, rfl⟩, h⟩ := h
    split at h
    · simp only [Part.first, bind_ok, orFail_ok, pure_ok] at h
      obtain ⟨q, _, ⟨items, c₂, hi, hq, rfl⟩, inside, c₃, hin, rfl, rfl⟩ := h
      have hstatements := hs orelse ho _ _ _ hi
      obtain rfl := Part.items_ok hi
      refine Written.cons_text L (L.betweenStatements hb) (Written.element (by decide) ?_)
      exact (hstatements q (List.mem_of_head? hq)).alone hin
    · simp only [bind_ok, pure_ok] at h
      obtain ⟨e, c₂, he, rfl, rfl⟩ := h
      exact Written.cons_text L (L.betweenStatements hb) (keywordBlock_written L (by decide) hs he)
  · obtain ⟨rfl, rfl⟩ := pure_ok.1 h
    exact Written.nil L c false

theorem conditionRule_written (hc : isWord n.ref.cls = true)
    (ht : Holds n.fields "test" (IsExpression R))
    (hb : Holds n.fields "body" (Each (IsStatement R)))
    (ho : Holds n.fields "orelse" (Each (IsStatement R))) (h : conditionRule n c = .ok e c') :
    Written R c true [e] c' false := by
  simp only [conditionRule, bind_ok, pure_ok] at h
  obtain ⟨t, c₁, h₁, after, c₂, h₂, test, c₃, h₃, colon, c₄, h₄, body, c₅, h₅, orelse, c₆, h₆, rfl,
    rfl⟩ := h
  refine Written.element hc ?_
  refine Written.append L (Written.caption (L.trans (L.expect h₁) (L.gapAfter h₂))) ?_
  refine Written.cons_element L (by decide) (writeField_written ht h₃) ?_
  refine Written.cons_text L (colon_spelt L h₄) ?_
  exact Written.append L (plainBlock_written L (by decide) hb h₅) (elsePart_written L ho h₆)

theorem forRule_written (hc : isWord n.ref.cls = true)
    (ht : Holds n.fields "target" (IsExpression R)) (hi : Holds n.fields "iter" (IsExpression R))
    (hb : Holds n.fields "body" (Each (IsStatement R)))
    (ho : Holds n.fields "orelse" (Each (IsStatement R))) (h : forRule n c = .ok e c') :
    Written R c true [e] c' false := by
  simp only [forRule, bind_ok, pure_ok] at h
  obtain ⟨t, c₁, h₁, after, c₂, h₂, target, c₃, h₃, u, c₄, h₄, between, c₅, h₅, iter, c₆, h₆, colon, c₇,
    h₇, body, c₈, h₈, orelse, c₉, h₉, rfl, rfl⟩ := h
  refine Written.element hc ?_
  refine Written.cons_text L (L.trans (L.expect h₁) (L.gapAfter h₂)) ?_
  refine Written.cons_element L (by decide) (writeField_written ht h₃) ?_
  refine Written.cons_text L (L.expectWithGaps h₄ h₅) ?_
  refine Written.cons_element L (by decide) (writeField_written hi h₆) ?_
  refine Written.cons_text L (colon_spelt L h₇) ?_
  exact Written.append L (plainBlock_written L (by decide) hb h₈)
    (optionalBlock_written L (by decide) ho h₉)

/-- Without a type nothing is written, and the gap before it was for nothing. -/
theorem handlerType_written {before : List Markup} (ht : Holds n.fields "type" (IsExpression R))
    (h : handlerType n before c = .ok ms c') :
    (∃ added, ms = before ++ added ∧ Written R c true added c' false) ∨
      ms = before ∧ c.remark (.idle c.rest.length) = c' ∧
        ∃ p, n.fields.lookup "type" = some p ∧ p.isPresent = false := by
  simp only [handlerType, bind_ok, Site.field_ok] at h
  obtain ⟨type, _, ⟨htype, rfl⟩, h⟩ := h
  rcases (orIdle_ok h).symm with ⟨habsent, hms, hc⟩ | ⟨-, h⟩
  · exact Or.inr ⟨hms, hc, type, htype, habsent⟩
  left
  simp only [namedType, bind_ok, pure_ok, Site.field_ok] at h
  obtain ⟨inside, c₁, hi, name, _, ⟨-, rfl⟩, namePart, c₂, hn, rfl, rfl⟩ := h
  refine ⟨_, rfl, Written.cons_element L (by decide) ((ht type htype).alone hi) ?_⟩
  refine onlyIf_written L (fun _ ms c' h => ?_) hn
  simp only [bind_ok, pure_ok, inPlaceOf_ok] at h
  obtain ⟨t, c₃, h₁, between, c₄, h₂, u, c₅, h₃, caption, c₆, h₄, _, _, rfl, rfl, rfl⟩ := h
  obtain ⟨-, hproper, rfl⟩ := Part.caption_ok h₄
  refine Written.cons_text L (L.expectWithGaps h₁ h₂) (Written.element (by decide) ?_)
  exact ⟨L.replaced (L.expect h₃), hproper⟩

/-- There has to be a type, unless the account allows for an `except` without one. -/
theorem exceptHandlerRule_written (ht : Holds n.fields "type" (IsExpression R))
    (hthere : Idles R ∨ Holds n.fields "type" fun p => p.isPresent = true)
    (hb : Holds n.fields "body" (Each (IsStatement R))) :
    (exceptHandlerRule n).Adds fun c ms c' => Written R c false ms c' false := by
  intro earlier c ms c' h
  simp only [exceptHandlerRule, bind_ok, pure_ok] at h
  obtain ⟨before, c₁, h₁, t, c₂, h₂, after, c₃, h₃, head, c₄, h₄, colon, c₅, h₅, body, c₆, h₆, rfl,
    rfl⟩ := h
  obtain ⟨htake, htext⟩ := expectShown_ok.1 h₂
  have hexcept : t.text = "except" := of_decide_eq_true htext
  have hhead : Written R c false head c₄ false := by
    rw [← hexcept] at h₄
    rcases handlerType_written L ht h₄ with ⟨type, rfl, htype⟩ | ⟨rfl, hi, p, hp, habsent⟩
    · exact Written.cons_text L (L.betweenStatements h₁)
        (Written.cons_text L (L.trans (L.take htake) (L.gapAfter h₃)) htype)
    · rcases hthere with I | hthere
      · exact Written.cons_text L (L.betweenStatements h₁)
          (Written.text (I.take (by rw [hexcept]; decide) htake h₃ hi))
      · have hpresent : p.isPresent = true := hthere p hp
        rw [hpresent] at habsent
        cases habsent
  refine ⟨_, rfl, Written.element (by decide) (Written.append L hhead ?_)⟩
  exact Written.cons_text L (colon_spelt L h₅) (plainBlock_written L (by decide) hb h₆)

theorem tryRule_written (hb : Holds n.fields "body" (Each (IsStatement R)))
    (hh : Holds n.fields "handlers" (Each (IsStatement R)))
    (ho : Holds n.fields "orelse" (Each (IsStatement R)))
    (hf : Holds n.fields "finalbody" (Each (IsStatement R))) (h : tryRule n c = .ok e c') :
    Written R c true [e] c' false := by
  simp only [tryRule, bind_ok, pure_ok, Site.field_ok] at h
  obtain ⟨t, c₁, h₁, after, c₂, h₂, u, c₃, h₃, body, c₄, h₄, handlers, _, ⟨hhs, rfl⟩, handlersPart, c₅,
    h₅, orelse, c₆, h₆, final, c₇, h₇, rfl, rfl⟩ := h
  have htry : R c true "try" c₁ false := Tally.congr (L.expectShown h₁)
    (by simpa using (expectShown_ok.1 h₁).2)
  have hhandlers : Written R c₄ false handlersPart c₅ false := by
    refine onlyIf_written L (fun _ ms c' h => ?_) h₅
    simp only [bind_ok, pure_ok] at h
    obtain ⟨items, c₈, hi, inside, c₉, hin, rfl, rfl⟩ := h
    have hitems := hh handlers hhs _ _ _ hi
    obtain rfl := Part.items_ok hi
    exact Written.element (by decide) ((addEach_written L hitems).alone hin)
  refine Written.element (by decide) (Written.append L (Written.append L ?_
    (optionalBlock_written L (by decide) ho h₆)) (optionalBlock_written L (by decide) hf h₇))
  refine Written.cons_text L
    (L.trans (L.trans htry (L.gapAfter h₂)) (expectOp_spelt L (by decide) h₃)) ?_
  exact Written.append L (plainBlock_written L (by decide) hb h₄) hhandlers

theorem withTarget_written {vars : Part} (hv : IsExpression R vars) :
    (withTarget vars).Adds fun c ms c' => Written R c false ms c' false := by
  intro before c ms c' h
  simp only [withTarget, bind_ok] at h
  obtain ⟨t, c₁, ht, between, c₂, hb, hin⟩ := h
  obtain ⟨added, rfl, hadded⟩ := hv _ _ _ _ hin
  exact ⟨.text between :: added, by simp, Written.cons_text L (L.expectWithGaps ht hb) hadded⟩

theorem withItem_written {item : Part} (hi : IsWithItem R item)
    (h : withItem item c = .ok ms c') : Written R c true ms c' true := by
  simp only [withItem, bind_ok, pure_ok, Part.field_ok] at h
  obtain ⟨p, _, ⟨hp, rfl⟩, context, c₁, h₁, vars, _, ⟨hv, rfl⟩, inside, c₂, h₂, comma, c₃, h₃, rfl,
    rfl⟩ := h
  obtain ⟨added, rfl, hadded⟩ := addIf_written L
    (fun _ => withTarget_written L (hi.vars vars hv)) _ _ _ _ h₂
  exact Written.cons_element L (by decide)
    (Written.append L ((hi.context p hp).alone h₁) hadded) (Written.text (L.delimiter h₃))

theorem withRule_written (hc : isWord n.ref.cls = true)
    (hi : Holds n.fields "items" (Each (IsWithItem R)))
    (hb : Holds n.fields "body" (Each (IsStatement R))) (h : withRule n c = .ok e c') :
    Written R c true [e] c' false := by
  simp only [withRule, bind_ok, pure_ok, Site.fieldItems_ok] at h
  obtain ⟨t, c₁, h₁, after, c₂, h₂, items, _, ⟨⟨p, hp, hpi⟩, rfl⟩, inside, c₃, h₃, u, c₄, h₄, body, c₅,
    h₅, rfl, rfl⟩ := h
  have hitems := forEach_written L
    (fun q hq _ _ _ h => withItem_written L (hi p hp _ _ _ hpi q hq) h) h₃
  refine Written.element hc ?_
  refine Written.cons_text L (L.trans (expectText_spelt L h₁) (L.gapAfter h₂)) ?_
  refine Written.cons_element L (by decide) hitems ?_
  exact Written.cons_text L (expectOp_spelt L (by decide) h₄)
    (plainBlock_written L (by decide) hb h₅)

/-! ## Modules -/

theorem moduleRule_written (hb : Holds n.fields "body" (Each (IsStatement R)))
    (h : moduleRule n c = .ok ms c') : Written R c false ms c' false := by
  simp only [moduleRule, bind_ok, Site.fieldItems_ok] at h
  obtain ⟨items, _, ⟨⟨p, hp, hi⟩, rfl⟩, h⟩ := h
  exact (addEach_written L (hb p hp _ _ _ hi)).alone h

/-- A module: the gap after its last token is written too. -/
theorem wholeModule_written (hb : Holds n.fields "body" (Each (IsStatement R)))
    (h : wholeModule n c = .ok e c') : Written R c false [e] c' true := by
  simp only [wholeModule, bind_ok, pure_ok, within_ok] at h
  obtain ⟨statements, c₁, hs, after, c₂, ha, rfl, rfl⟩ := h
  refine Written.element (by decide) ?_
  exact Written.append L (moduleRule_written L hb hs) (Written.text (L.betweenStatements ha))

end SourceScribe.Conversion
