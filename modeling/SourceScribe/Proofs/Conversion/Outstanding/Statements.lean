/-
  The rules for statements show what they take.

  Names are written as the tree has them and not as the tokens do, so they are owed in
  the words of the tree (`Pays.inPlaceOf`); dots and dotted names are taken one token at a
  time, and are the only runs with an account of their own.
-/
import SourceScribe.Proofs.Conversion.Outstanding.Expressions

namespace SourceScribe.Conversion

open Scan Markup

variable {x : Char} {p : Part} {n : Site}

/-! ## Blocks -/

theorem afterGap_pays {rule : Scan Markup} (h : Pays x 0 rule content) :
    PaysInto x (afterGap rule) := by
  intro parent
  refine (betweenStatements_pays true).bind fun before => h.bind fun e => .pure ?_
  simp
  omega

/-- A block shows what stood before it as well. -/
theorem block_pays (h : n.Shows x) (field lead : String) :
    Pays x (copies x lead) (block n field lead) content := by
  refine .fieldItems h field fun items hitems => ?_
  have hinside := addEach_pays fun q hq => (hitems q hq).addTo
  refine .bindAllBut 0 (hinside (caption lead)) (by simp) fun inside => .pure ?_
  simp

theorem body_pays (h : n.Shows x) : Pays x 0 (block n "body" "") content := by
  simpa using block_pays h "body" ""

theorem colon_pays : Pays x 0 colon fun s => s := by
  refine .expectOp ":" (by decide) fun _ => .skip looks_gapBefore fun before => .pure ?_
  simp

theorem keywordBlock_pays (h : n.Shows x) (field keyword : String) :
    Pays x 0 (keywordBlock n field keyword) content := by
  refine .expectShownMarked fun _ lead => .expectOp ":" (by decide) fun _ => ?_
  simpa using block_pays h field (lead ++ ":")

theorem optionalBlock_pays (h : n.Shows x) (field keyword : String) :
    Pays x 0 (optionalBlock n field keyword) contents := by
  refine .field h field fun _ _ => .ite (fun _ => ?_) fun _ => .pure (Nat.zero_le _)
  refine (betweenStatements_pays false).bind fun before => ?_
  refine (keywordBlock_pays h field keyword).bind fun b => .pure ?_
  simp

/-! ## Simple statements -/

theorem exprRule_pays (h : n.Shows x) : Pays x 0 (exprRule n) content := by
  refine .writeField h "value" fun value => .pure ?_
  simp

theorem wordRule_pays : Pays x 0 (wordRule n) content := by
  refine .expect fun t _ => .pure ?_
  simp

/-- A part that may be missing, in an element of its own after a token. -/
theorem optionalMarked_pays (wanted : Token → Bool) (tag : String) (h : p.Shows x) :
    Pays x 0 (onlyIf p.isPresent do
      let _ ← expect wanted
      let between ← withGaps
      let inside ← p.write
      return [text between, element tag [] inside]) contents := by
  refine onlyIf_pays (.expectMarked fun _ between => h.write.bind fun inside => .pure ?_)
  simp

theorem assertRule_pays (h : n.Shows x) : Pays x 0 (assertRule n) content := by
  refine .expectText fun _ => .skip looks_gapAfter fun after => .writeField h "test" fun test => ?_
  refine .field h "msg" fun msg hmsg => (optionalMarked_pays _ "msg" hmsg).bind fun ms => .pure ?_
  simp
  omega

theorem assignTarget_pays (h : p.Shows x) : PaysInto x (assignTarget p) := by
  intro parent
  refine .bindAllBut 0 (h.addTo parent) (by simp) fun inside => .expectMarked fun _ equal => .pure ?_
  simp

theorem assignRule_pays (h : n.Shows x) : Pays x 0 (assignRule n) content := by
  refine .fieldItems h "targets" fun items hitems => ?_
  refine (addEach_pays fun q hq => assignTarget_pays (hitems q hq)).alone.bind fun targets => ?_
  refine .bindAllBut 0 (h.addField "value" _) (by simp) fun inside => .pure ?_
  simp

theorem augAssignRule_pays (h : n.Shows x) : Pays x 0 (augAssignRule n) content := by
  -- the class of the sign is looked up between taking it and writing its gaps, so that
  -- `Pays.expectMarked` does not apply
  intro c e c' he hh
  simp only [augAssignRule, bind_ok, pure_ok, Site.field_ok, Part.cls_ok] at he
  obtain ⟨target, c₁, htarget, t, c₂, ht, op, _, ⟨-, rfl⟩, cls, _, ⟨-, rfl⟩, sign, c₃, hsign,
    value, c₄, hvalue, rfl, rfl⟩ := he
  have hlast := h.writeField "value" _ _ _ hvalue hh
  have hmiddle := (tally_settles x).takeWithGaps (expect_ok.1 ht).1 hsign hlast.honest
  have hfirst := h.writeField "target" _ _ _ htarget hmiddle.honest
  simpa [String.append_assoc] using (hfirst.trans hmiddle).trans hlast

theorem deleteRule_pays (h : n.Shows x) : Pays x 0 (deleteRule n) content := by
  refine .expectText fun _ => .skip looks_gapAfter fun after => ?_
  refine .fieldItems h "targets" fun ps hps => ?_
  refine (delimitedItems_pays hps).alone.bind fun targets => .pure ?_
  simp

theorem declaredName_pays (p : Part) : Pays x 0 (declaredName p) contents := by
  refine .expect fun t _ => .skip (fun c q c' hq => ?_) fun name => .caption fun inside => ?_
  · cases p with
    | leaf | list => exact (pure_ok.1 hq).2
    | letter | node => exact (fail_ok.1 hq).elim
  refine .inPlaceOf (delimiter_pays.bind fun comma => .pure ?_)
  simp

theorem declareRule_pays (h : n.Shows x) : Pays x 0 (declareRule n) content := by
  refine .expect fun t _ => .skip looks_gapAfter fun after => .fieldItems h "names" fun ps _ => ?_
  refine (forEach_pays fun q _ => declaredName_pays q).bind fun names => .pure ?_
  simp

theorem returnValue_pays (h : p.Shows x) : PaysInto x (returnValue p) :=
  fun _ => .skip looks_gapAfter fun _ => (h.addTo _).mono (by simp)

theorem returnRule_pays (h : n.Shows x) : Pays x 0 (returnRule n) content := by
  refine .expectText fun _ => .field h "value" fun value hvalue => ?_
  refine .bindAllBut 0 (addIf_pays (returnValue_pays hvalue) _) (by simp) fun inside => .pure ?_
  simp

theorem raiseRule_pays (h : n.Shows x) : Pays x 0 (raiseRule n) content := by
  refine .expectText fun _ => .field h "exc" fun exc hexc => ?_
  refine (onlyIf_pays (.skip looks_gapAfter fun after => hexc.write.bind fun inside =>
    .pure ?_)).bind fun excPart => ?_
  · simp
  refine .field h "cause" fun cause hcause => ?_
  refine (optionalMarked_pays _ "cause" hcause).bind fun causePart => .pure ?_
  simp
  omega

/-! ## Imports -/

theorem dottedFrom_settles : ∀ (ts : List Token) {c c' : Cursor} {s : String}, c.rest = ts →
    dottedFrom ts c = .ok s c' → c'.Honest → Settles x 0 c s c'
  | [], c, c', s, _, h => (fail_ok.1 h).elim
  | [t], c, c', s, hr, h => by
    rw [dottedFrom] at h
    split at h
    · simp only [bind_ok] at h
      obtain ⟨_, _, ht, _, _, hu, -⟩ := h
      obtain ⟨us, hus, -⟩ := take_ok.1 hu
      rw [(take_cons hr ht).2] at hus
      cases hus
    · obtain ⟨rfl, rfl⟩ := pure_ok.1 h
      exact (tally_settles x).refl c true
  | t :: u :: ts, c, c', s, hr, h => by
    rw [dottedFrom] at h
    split at h
    · rename_i hdot
      simp only [bind_ok, pure_ok] at h
      obtain ⟨_, c₁, ht, _, c₂, hu, more, _, hmore, rfl, rfl⟩ := h
      obtain ⟨rfl, hr₁⟩ := take_cons hr ht
      obtain ⟨rfl, hr₂⟩ := take_cons hr₁ hu
      intro hh
      have hrest := dottedFrom_settles ts hr₂ hmore hh
      have hname := (tally_settles x).take hu hrest.honest
      have hsign := (tally_settles x).take ht hname.honest
      rw [Token.text_of_isOp hdot (s := ".") (by decide)] at hsign
      exact (hsign.trans hname).trans hrest
    · obtain ⟨rfl, rfl⟩ := pure_ok.1 h
      exact (tally_settles x).refl c true

theorem dottedName_pays : Pays x 0 dottedName fun s => s := by
  intro c s c' h hh
  simp only [dottedName, bind_ok, pure_ok, get_ok] at h
  obtain ⟨t, c₁, ht, _, _, ⟨rfl, rfl⟩, more, _, hmore, rfl, rfl⟩ := h
  have hrest : Settles x 0 _ _ _ := dottedFrom_settles _ rfl hmore hh
  exact ((tally_settles x).take ht hrest.honest).trans hrest

theorem dotsFrom_settles {ts : List Token} {c c' : Cursor} {s : String} (hr : c.rest = ts)
    (h : dotsFrom ts c = .ok s c') (hh : c'.Honest) : Settles x 0 c s c' := by
  induction ts generalizing c s with
  | nil => exact (fail_ok.1 h).elim
  | cons t ts ih =>
    rw [dotsFrom] at h
    split at h
    · rename_i hdot
      simp only [bind_ok, pure_ok] at h
      obtain ⟨_, c₁, ht, more, _, hmore, rfl, rfl⟩ := h
      obtain ⟨rfl, hr₁⟩ := take_cons hr ht
      have hrest := ih hr₁ hmore
      have hsign := (tally_settles x).take ht hrest.honest
      rw [Token.text_of_isOp hdot (s := ".") (by decide)] at hsign
      exact hsign.trans hrest
    · obtain ⟨rfl, rfl⟩ := pure_ok.1 h
      exact (tally_settles x).refl c true hh

theorem dots_pays : Pays x 0 dots fun s => s := by
  intro c s c' h hh
  simp only [dots, bind_ok, get_ok] at h
  obtain ⟨_, _, ⟨rfl, rfl⟩, h⟩ := h
  exact dotsFrom_settles rfl h hh

theorem moduleName_pays : Pays x 0 moduleName fun s => s :=
  .skip looks_peek fun _ => .ite (fun _ => dottedName_pays) fun _ => .pure (Nat.zero_le _)

theorem importedName_pays (h : p.Shows x) : Pays x 0 (importedName p) contents := by
  refine dottedName_pays.bind fun dotted => .partField h "name" fun _ _ => .caption fun name => ?_
  refine .inPlaceOf ?_
  cases p with
  | node =>
    refine .skip (looks_orFail _ _) fun asname => ?_
    refine (onlyIf_pays (.expectMarked fun _ between => .expect fun t _ => .caption fun inside =>
      .inPlaceOf (.pure ?_))).bind fun asPart => delimiter_pays.bind fun comma => .pure ?_
    · simp
    · simp
  | leaf | letter | list =>
    -- only a node has fields
    exact .look (P := fun _ => False) (fun _ _ _ hq => (fail_ok.1 hq).elim) fun _ => False.elim

theorem importRule_pays (h : n.Shows x) : Pays x 0 (importRule n) content := by
  refine .expectText fun _ => .skip looks_gapAfter fun after => .fieldItems h "names" fun ps hps => ?_
  refine (forEach_pays fun q hq => importedName_pays (hps q hq)).bind fun names => .pure ?_
  simp

theorem importFromRule_pays (h : n.Shows x) : Pays x 0 (importFromRule n) content := by
  refine .field h "level" fun level _ => .expectText fun _ => .skip looks_gapAfter fun after => ?_
  refine dots_pays.bind fun up => moduleName_pays.bind fun name => ?_
  refine .expectMarked fun _ between => .skip looks_peek fun paren => ?_
  refine (optionalText_pays _ (enclosed_pays false true)).bind fun left => ?_
  refine .fieldItems h "names" fun ps hps => ?_
  refine (forEach_pays fun q hq => importedName_pays (hps q hq)).bind fun names => ?_
  refine (optionalText_pays _ (enclosed_pays false true)).bind fun right => .pure ?_
  simp
  omega

/-! ## Definitions -/

theorem decorator_pays (h : p.Shows x) : Pays x 0 (decorator p) contents := by
  refine .expectOp "@" (by decide) fun _ => .skip looks_gapAfter fun after => ?_
  refine .bindAllBut 0 (h.addTo _) (by simp) fun inside => ?_
  refine (betweenStatements_pays true).bind fun between => .pure ?_
  simp

theorem decorators_pays (h : n.Shows x) {β : Type} {shown : β → String}
    {k : List Markup → Scan β} (hk : ∀ ms, Pays x (0 + copies x (contents ms)) (k ms) shown) :
    Pays x 0 (n.fieldItems "decorator_list" >>= fun items => forEach decorator items >>= k) shown :=
  .fieldItems h "decorator_list" fun _ hitems =>
    (forEach_pays fun q hq => decorator_pays (hitems q hq)).bind hk

theorem returnsPart_pays (h : n.Shows x) : Pays x 0 (returnsPart n) contents := by
  refine .field h "returns" fun returns hreturns => ?_
  refine .ite (fun _ => .expect fun t _ => .inPlaceOf ?_) fun _ => .pure (Nat.zero_le _)
  refine .skip looks_gapAfter fun arrow => ?_
  refine .bindAllBut 0 (hreturns.addTo _) (by simp) fun inside => ?_
  refine .skip looks_gapAfter fun after => .pure ?_
  simp

theorem functionDefRule_pays (h : n.Shows x) : Pays x 0 (functionDefRule n) content := by
  refine decorators_pays h fun decorators => .expectText fun _ => .skip looks_gapAfter fun afterDef => ?_
  refine .expect fun t _ => .field h "name" fun _ _ => .asText fun name => .inPlaceOf ?_
  refine (enclosed_pays true true).bind fun left => (parameters_pays h).bind fun arguments => ?_
  refine .expectOp ")" (by decide) fun _ => .skip looks_gapAfter fun afterArgs => ?_
  refine (returnsPart_pays h).bind fun returns => .expectOp ":" (by decide) fun _ => ?_
  refine (body_pays h).bind fun body => .pure ?_
  simp
  omega

theorem classBase_pays (h : p.Shows x) : Pays x 0 (classBase p) contents := by
  refine h.write.bind fun inside => delimiter_pays.bind fun comma => .pure ?_
  simp

theorem classArguments_pays (h : n.Shows x) : Pays x 0 (classArguments n) contents := by
  refine .skip looks_peek fun next => .ite (fun _ => ?_) fun _ => .pure (Nat.zero_le _)
  refine (enclosed_pays true true).bind fun left => .fieldItems h "bases" fun ps hps => ?_
  refine (forEach_pays fun q hq => classBase_pays (hps q hq)).bind fun bases => ?_
  refine (keywordsAndStar_pays h).bind fun named => .field h "kwargs" fun kwargs hkwargs => ?_
  refine (onlyIf_pays (starArgument_pays "kwargs" hkwargs)).bind fun kwargsPart => ?_
  refine .expectOp ")" (by decide) fun _ => .pure ?_
  simp
  omega

theorem classDefRule_pays (h : n.Shows x) : Pays x 0 (classDefRule n) content := by
  refine decorators_pays h fun decorators => .expectText fun _ => .expect fun t _ => ?_
  refine .field h "name" fun _ _ => .skip looks_gapBefore fun before => .asText fun name => ?_
  refine .inPlaceOf ((classArguments_pays h).bind fun arguments => colon_pays.bind fun last => ?_)
  refine (body_pays h).bind fun body => .pure ?_
  simp
  omega

/-! ## Compound statements -/

theorem elsePart_pays (h : n.Shows x) : Pays x 0 (elsePart n) contents := by
  refine .field h "orelse" fun orelse horelse => .ite (fun _ => ?_) fun _ => .pure (Nat.zero_le _)
  refine (betweenStatements_pays false).bind fun before => .skip looks_peek fun next => ?_
  refine .ite (fun _ => ?_) fun _ => (keywordBlock_pays h "orelse" "else").bind fun b => .pure ?_
  · -- statements after the first one are not converted, and take no tokens
    rw [Part.first, bind_assoc]
    refine .items horelse fun ps hps => .look (fun _ q _ hq => ⟨?_, (orFail_ok.1 hq).2⟩)
      fun q hq => (Part.Shows.write hq).bind fun inside => .pure ?_
    · exact hps q (List.mem_of_head? (orFail_ok.1 hq).1)
    · simp
  · simp

theorem conditionRule_pays (h : n.Shows x) : Pays x 0 (conditionRule n) content := by
  refine .expect fun t _ => .skip looks_gapAfter fun after => .writeField h "test" fun test => ?_
  refine colon_pays.bind fun last => (body_pays h).bind fun body => ?_
  refine (elsePart_pays h).bind fun orelse => .pure ?_
  simp
  omega

theorem forRule_pays (h : n.Shows x) : Pays x 0 (forRule n) content := by
  refine .expect fun t _ => .skip looks_gapAfter fun after => .writeField h "target" fun target => ?_
  refine .expectMarked fun _ between => .writeField h "iter" fun iter => ?_
  refine colon_pays.bind fun last => (body_pays h).bind fun body => ?_
  refine (optionalBlock_pays h "orelse" "else").bind fun orelse => .pure ?_
  simp
  omega

theorem namedType_pays (h : n.Shows x) (hp : p.Shows x) : PaysInto x (namedType n p) := by
  intro parent
  refine hp.write.bind fun inside => .field h "name" fun name _ => ?_
  refine (onlyIf_pays (.expectMarked fun _ between => .expect fun t _ => .caption fun caption =>
    .inPlaceOf (.pure ?_))).bind fun namePart => .pure ?_
  · simp
  · simp
    omega

theorem handlerType_pays (h : n.Shows x) : PaysInto x (handlerType n) :=
  fun parent => .field h "type" fun _ htype => orIdle_pays (namedType_pays h htype) parent

theorem exceptHandlerRule_pays (h : n.Shows x) : PaysInto x (exceptHandlerRule n) := by
  intro parent
  refine (betweenStatements_pays true).bind fun before => .expectShown fun t ht => ?_
  rw [of_decide_eq_true ht]
  refine .skip looks_gapAfter fun after => ?_
  refine .bindAllBut (copies x (contents parent)) (handlerType_pays h _) (by simp; omega)
    fun head => ?_
  refine colon_pays.bind fun last => (body_pays h).bind fun body => .pure ?_
  simp
  omega

theorem tryRule_pays (h : n.Shows x) : Pays x 0 (tryRule n) content := by
  refine .expectShown fun t ht => ?_
  rw [of_decide_eq_true ht]
  refine .skip looks_gapAfter fun after => .expectOp ":" (by decide) fun _ => ?_
  refine (body_pays h).bind fun body => .field h "handlers" fun handlers hhandlers => ?_
  refine (optionalList_pays "handlers" hhandlers fun _ hitems =>
    (addEach_pays fun q hq => (hitems q hq).addTo).alone).bind fun handlersPart => ?_
  refine (optionalBlock_pays h "orelse" "else").bind fun orelse => ?_
  refine (optionalBlock_pays h "finalbody" "finally").bind fun final => .pure ?_
  simp
  omega

theorem withTarget_pays (h : p.Shows x) : PaysInto x (withTarget p) :=
  fun _ => .expectMarked fun _ _ => (h.addTo _).mono (by simp)

theorem withItem_pays (h : p.Shows x) : Pays x 0 (withItem p) contents := by
  refine .partField h "context_expr" fun context hcontext => hcontext.write.bind fun cs => ?_
  refine .partField h "optional_vars" fun vars hvars => ?_
  refine .bindAllBut 0 (addIf_pays (withTarget_pays hvars) cs) (by simp) fun inside => ?_
  refine delimiter_pays.bind fun comma => .pure ?_
  simp

theorem withRule_pays (h : n.Shows x) : Pays x 0 (withRule n) content := by
  refine .expectText fun _ => .skip looks_gapAfter fun after => .fieldItems h "items" fun ps hps => ?_
  refine (forEach_pays fun q hq => withItem_pays (hps q hq)).bind fun items => ?_
  refine .expectOp ":" (by decide) fun _ => (body_pays h).bind fun body => .pure ?_
  simp
  omega

theorem moduleRule_pays (h : n.Shows x) : Pays x 0 (moduleRule n) contents :=
  .fieldItems h "body" fun _ hitems => (addEach_pays fun q hq => (hitems q hq).addTo).alone

end SourceScribe.Conversion
