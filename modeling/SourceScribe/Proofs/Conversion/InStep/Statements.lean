/-
  The rules for statements go in step.

  The level of an import is written as it is, so here it has to be a scalar
  (`importFromRule_inStep`): any other part would show its place.
-/
import SourceScribe.Conversion.Basic
import SourceScribe.Proofs.Conversion.InStep.Expressions

namespace SourceScribe.Conversion

open Scan Markup

variable {σ : Likeness} {p q : Part} {n n' : Site}

/-! ## Blocks -/

theorem afterGap_inStep {rule rule' : Scan Markup} (h : InStep σ (Markup.Matches σ) rule rule') :
    AddsInStep σ (afterGap rule) (afterGap rule') :=
  fun _ _ hparent => (InStep.betweenStatements true).bind fun _ _ hbefore => h.bind fun _ _ he =>
    .pure (hparent.append (.cons (.text hbefore) (.one he)))

theorem block_inStep (h : n.Matches σ n') (field : String) {lead lead' : String}
    (hlead : Text.Matches σ lead lead') :
    InStep σ (Markup.Matches σ) (block n field lead) (block n' field lead') := by
  refine (h.fieldItems field).bind fun items items' hitems => ?_
  exact (addEach_inStep hitems (fun _ _ hpq => hpq.addTo) _ _ (caption_match hlead)).bind
    fun _ _ hms => .pure (.bare hms)

theorem colon_inStep : InStep σ (Text.Matches σ) colon colon :=
  (expectOp .colon).bind fun _ _ _ => InStep.gapBefore.bind fun _ _ hbefore =>
    .pure (hbefore.append (.refl _))

theorem keywordBlock_inStep (h : n.Matches σ n') (field : String) {keyword : String}
    (hkeyword : Token.isWord keyword = true) :
    InStep σ (Markup.Matches σ) (keywordBlock n field keyword) (keywordBlock n' field keyword) :=
  (expectWordShown hkeyword).bind fun _ _ _ => InStep.withGaps.bind fun _ _ hlead =>
    (expectOp .colon).bind fun _ _ _ => block_inStep h field (hlead.append (.refl _))

theorem optionalBlock_inStep (h : n.Matches σ n') (field : String) {keyword : String}
    (hkeyword : Token.isWord keyword = true) :
    InStep σ (AllMatch σ) (optionalBlock n field keyword) (optionalBlock n' field keyword) := by
  refine (h.field field).bind fun part part' hpart => ?_
  rw [hpart.isPresent]
  refine .ite ((InStep.betweenStatements false).bind fun _ _ hbefore => ?_) (.pure .nil)
  exact (keywordBlock_inStep h field hkeyword).bind fun _ _ hb =>
    .pure (.cons (.text hbefore) (.one hb))

/-! ## Simple statements -/

theorem exprRule_inStep (h : n.Matches σ n') :
    InStep σ (Markup.Matches σ) (exprRule n) (exprRule n') :=
  (h.writeField "value").bind fun _ _ hms => .pure (.bare hms)

theorem wordRule_inStep (h : n.Matches σ n') :
    InStep σ (Markup.Matches σ) (wordRule n) (wordRule n') := by
  rw [wordRule, wordRule, h.cls]
  exact (expectKind .name).bind fun _ _ ht => .pure (labelled_match ht.text)

theorem assertRule_inStep (h : n.Matches σ n') :
    InStep σ (Markup.Matches σ) (assertRule n) (assertRule n') := by
  refine (expectWord (by decide)).bind fun _ _ _ => InStep.gapAfter.bind fun _ _ hafter => ?_
  refine (h.writeField "test").bind fun ts ts' hts => (h.field "msg").bind fun msg msg' hmsg => ?_
  refine (onlyIf_inStep hmsg.isPresent ((expectOp .comma).bind fun _ _ _ =>
    InStep.withGaps.bind fun _ _ hcomma => hmsg.write.bind fun ms ms' hms =>
      .pure (.cons (.text hcomma) (.one (.bare hms))))).bind fun ms ms' hms => .pure (.bare ?_)
  exact .cons (.text ((Text.Matches.refl _).append hafter)) (.cons (.bare hts) hms)

theorem assignTarget_inStep (h : p.Matches σ q) :
    AddsInStep σ (assignTarget p) (assignTarget q) :=
  fun parent parent' hparent => (h.addTo parent parent' hparent).bind fun _ _ hms =>
    (expectOp .equal).bind fun _ _ _ => InStep.withGaps.bind fun _ _ hequal =>
      .pure (hms.append (.one (.text hequal)))

theorem assignRule_inStep (h : n.Matches σ n') :
    InStep σ (Markup.Matches σ) (assignRule n) (assignRule n') := by
  refine (h.fieldItems "targets").bind fun ps ps' hps => ?_
  refine (addEach_inStep hps (fun _ _ => assignTarget_inStep) [] [] .nil).bind fun ts ts' hts => ?_
  exact (h.addField "value" _ _ (.one (.bare hts))).bind fun _ _ hms => .pure (.bare hms)

theorem augAssignRule_inStep (h : n.Matches σ n') :
    InStep σ (Markup.Matches σ) (augAssignRule n) (augAssignRule n') := by
  refine (h.writeField "target").bind fun ts ts' hts => (expectKind .operator).bind fun _ _ _ => ?_
  refine (h.field "op").bind fun op op' hop => hop.cls.bindEq fun cls => ?_
  refine InStep.withGaps.bind fun _ _ hsign => ?_
  refine (h.writeField "value").bind fun vs vs' hvs => .pure (.bare ?_)
  exact .cons (.bare hts) (.cons (.bare (.one (labelled_match hsign))) (.one (.bare hvs)))

theorem deleteRule_inStep (h : n.Matches σ n') :
    InStep σ (Markup.Matches σ) (deleteRule n) (deleteRule n') := by
  refine (expectWord (by decide)).bind fun _ _ _ => InStep.gapAfter.bind fun _ _ hafter => ?_
  refine (h.fieldItems "targets").bind fun ps ps' hps => ?_
  refine (addEach_inStep hps (fun _ _ => delimitedItem_inStep) [] [] .nil).bind
    fun ts ts' hts => .pure ?_
  exact .bare (.cons (.text ((Text.Matches.refl _).append hafter)) (.one (.bare hts)))

theorem declaredName_inStep (h : p.Matches σ q) :
    InStep σ (AllMatch σ) (declaredName p) (declaredName q) := by
  refine (expectKind .name).bind fun _ _ _ => h.itemValue.bind fun v v' hv => ?_
  refine hv.caption.bind fun ms ms' hms => (InStep.inPlaceOf _ _ _ _).bind fun _ _ _ => ?_
  exact InStep.delimiter.bind fun _ _ hcomma => .pure (.cons (.bare hms) (.one (.text hcomma)))

theorem declareRule_inStep (h : n.Matches σ n') :
    InStep σ (Markup.Matches σ) (declareRule n) (declareRule n') := by
  rw [declareRule, declareRule, h.cls]
  refine (expectKind .name).bind fun _ _ ht => InStep.gapAfter.bind fun _ _ hafter => ?_
  refine (h.fieldItems "names").bind fun ps ps' hps => ?_
  refine (forEach_inStep hps fun _ _ => declaredName_inStep).bind fun ms ms' hms => .pure ?_
  exact .bare ((caption_match (ht.text.append hafter)).append (.one (.bare hms)))

theorem returnValue_inStep (h : p.Matches σ q) : AddsInStep σ (returnValue p) (returnValue q) :=
  fun _ _ hparent => InStep.gapAfter.bind fun _ _ hafter =>
    h.addTo _ _ (hparent.append (.one (.text hafter)))

theorem returnRule_inStep (h : n.Matches σ n') :
    InStep σ (Markup.Matches σ) (returnRule n) (returnRule n') := by
  refine (expectWord (by decide)).bind fun _ _ _ => (h.field "value").bind fun v v' hv => ?_
  exact (addIf_inStep hv.isPresent (returnValue_inStep hv) _ _ (.one (.word _))).bind
    fun _ _ hms => .pure (.bare hms)

theorem raiseRule_inStep (h : n.Matches σ n') :
    InStep σ (Markup.Matches σ) (raiseRule n) (raiseRule n') := by
  refine (expectWord (by decide)).bind fun _ _ _ => (h.field "exc").bind fun e e' he => ?_
  refine (onlyIf_inStep he.isPresent (InStep.gapAfter.bind fun _ _ hafter =>
    he.write.bind fun ms ms' hms => .pure (.cons (.text hafter) (.one (.bare hms))))).bind
      fun es es' hes => (h.field "cause").bind fun c c' hc => ?_
  refine (onlyIf_inStep hc.isPresent ((expectWord (by decide)).bind fun _ _ _ =>
    InStep.withGaps.bind fun _ _ hbetween => hc.write.bind fun ms ms' hms =>
      .pure (.cons (.text hbetween) (.one (.bare hms))))).bind fun cs cs' hcs => .pure (.bare ?_)
  exact (AllMatch.cons (.word _) hes).append hcs

/-! ## Imports -/

theorem importedName_inStep (h : p.Matches σ q) :
    InStep σ (AllMatch σ) (importedName p) (importedName q) := by
  refine InStep.dottedName.bind fun _ _ _ => (h.field "name").bind fun name name' hname => ?_
  refine hname.caption.bind fun ns ns' hns => (InStep.inPlaceOf _ _ _ _).bind fun _ _ _ => ?_
  cases h with
  | leaf | letter | list => exact (InStep.fail (Q := fun _ _ => False)).bind fun _ _ h => h.elim
  | node _ _ hfields =>
    refine (InStep.orFail (hfields "asname")).bind fun a a' ha => ?_
    refine (onlyIf_inStep ha.isPresent ((expectWord (by decide)).bind fun _ _ _ =>
      InStep.withGaps.bind fun _ _ hbetween => (expectKind .name).bind fun _ _ _ =>
        ha.caption.bind fun ms ms' hms => (InStep.inPlaceOf _ _ _ _).bind fun _ _ _ =>
          .pure (.cons (.text hbetween) (.one (.bare hms))))).bind fun as as' has => ?_
    refine InStep.delimiter.bind fun _ _ hcomma => .pure (.cons (.bare ?_) (.one (.text hcomma)))
    exact .cons (.bare hns) has

theorem importRule_inStep (h : n.Matches σ n') :
    InStep σ (Markup.Matches σ) (importRule n) (importRule n') := by
  refine (expectWord (by decide)).bind fun _ _ _ => InStep.gapAfter.bind fun _ _ hafter => ?_
  refine (h.fieldItems "names").bind fun ps ps' hps => ?_
  refine (forEach_inStep hps fun _ _ => importedName_inStep).bind fun ms ms' hms => .pure (.bare ?_)
  exact .cons (.text ((Text.Matches.refl _).append hafter)) hms

theorem moduleName_inStep : InStep σ (Text.Matches σ) moduleName moduleName := by
  refine InStep.peek.bind fun next next' hnext => ?_
  exact .ite_of_iff (not_congr (hnext.word _ (by decide))) InStep.dottedName (.pure (.refl _))

theorem importFromRule_inStep (h : n.Matches σ n')
    (hlevel : ∀ part, n.fields.lookup "level" = some part → ∃ v, part = .leaf v) :
    InStep σ (Markup.Matches σ) (importFromRule n) (importFromRule n') := by
  have hplain : InStep σ (fun part part' => Text.Matches σ part.plain part'.plain)
      (n.field "level") (n'.field "level") := by
    have hfields := h.fields "level"
    rw [Site.field, Site.field, fieldOf, fieldOf]
    generalize n'.fields.lookup "level" = o' at hfields
    cases ho : n.fields.lookup "level" with
    | none =>
      rw [ho] at hfields
      cases hfields
      exact .fail
    | some part =>
      obtain ⟨v, rfl⟩ := hlevel part ho
      rw [ho] at hfields
      cases hfields with
      | some hpart =>
        cases hpart with
        | leaf hv => exact .pure hv.plain
  refine hplain.bind fun level level' hl => (expectWord (by decide)).bind fun _ _ _ => ?_
  refine InStep.gapAfter.bind fun _ _ hafter => InStep.dots.bind fun _ _ hup => ?_
  refine moduleName_inStep.bind fun _ _ hname => (expectWord (by decide)).bind fun _ _ _ => ?_
  refine InStep.withGaps.bind fun _ _ hbetween => InStep.peek.bind fun paren paren' hparen => ?_
  refine (optionalText_inStep (InStep.enclosed false true) (hparen.isOp .lpar)).bind
    fun ls ls' hls => (h.fieldItems "names").bind fun ps ps' hps => ?_
  refine (forEach_inStep hps fun _ _ => importedName_inStep).bind fun ms ms' hms => ?_
  refine (optionalText_inStep (InStep.enclosed false true) (hparen.isOp .lpar)).bind
    fun rs rs' hrs => .pure (.tagged (.cons "level" hl .nil) ?_)
  refine .cons (.text (((Text.Matches.refl _).append hafter).append hup))
    (.cons (labelled_match hname) ?_)
  exact .cons (.text hbetween) (hls.append (.cons (.bare hms) hrs))

/-! ## Definitions -/

theorem decorator_inStep (h : p.Matches σ q) :
    InStep σ (AllMatch σ) (decorator p) (decorator q) := by
  refine (expectOp .atSign).bind fun _ _ _ => InStep.gapAfter.bind fun _ _ hafter => ?_
  have hsign := (Text.Matches.refl "@").append hafter
  refine (h.addTo _ _ (.one (.text hsign))).bind fun ms ms' hms => ?_
  exact (InStep.betweenStatements true).bind fun _ _ hbetween =>
    .pure (.cons (.bare hms) (.one (.text hbetween)))

theorem returnsPart_inStep (h : n.Matches σ n') :
    InStep σ (AllMatch σ) (returnsPart n) (returnsPart n') := by
  refine (h.field "returns").bind fun returns returns' hreturns => ?_
  rw [hreturns.isPresent]
  refine .ite ((expectKind .operator).bind fun _ _ _ => ?_) (.pure .nil)
  refine (InStep.inPlaceOf _ _ _ _).bind fun _ _ _ => InStep.gapAfter.bind fun _ _ harrow => ?_
  have hsign := (Text.Matches.refl "->").append harrow
  refine (hreturns.addTo _ _ (.one (.text hsign))).bind fun ms ms' hms => ?_
  exact InStep.gapAfter.bind fun _ _ hafter => .pure (.one (.bare (hms.append (.one (.text hafter)))))

theorem functionDefRule_inStep (h : n.Matches σ n') :
    InStep σ (Markup.Matches σ) (functionDefRule n) (functionDefRule n') := by
  refine (h.fieldItems "decorator_list").bind fun ps ps' hps => ?_
  refine (forEach_inStep hps fun _ _ => decorator_inStep).bind fun ds ds' hds => ?_
  refine (expectWord (by decide)).bind fun _ _ _ => InStep.gapAfter.bind fun _ _ hdef => ?_
  refine (expectKind .name).bind fun _ _ _ => (h.field "name").bind fun name name' hname => ?_
  refine hname.asText.bind fun s s' hs => (InStep.inPlaceOf _ _ _ _).bind fun _ _ _ => ?_
  refine (InStep.enclosed true true).bind fun _ _ hleft => ?_
  refine (parameters_inStep h).bind fun as as' has => (expectOp .rpar).bind fun _ _ _ => ?_
  refine InStep.gapAfter.bind fun _ _ hafter => (returnsPart_inStep h).bind fun rs rs' hrs => ?_
  refine (expectOp .colon).bind fun _ _ _ => ?_
  refine (block_inStep h "body" (.refl _)).bind fun b b' hb => .pure (.tagged (.cons _ hs .nil) ?_)
  have harguments := (((caption_match hleft).append has).append
    (.cons (.text ((Text.Matches.refl ")").append hafter)) hrs)).append (.one (.word ":"))
  refine hds.append (.cons (.text ((Text.Matches.refl _).append hdef)) (.cons (.text hs) ?_))
  exact .cons (.bare harguments) (.one hb)

theorem classBase_inStep (h : p.Matches σ q) :
    InStep σ (AllMatch σ) (classBase p) (classBase q) :=
  h.write.bind fun _ _ hms => InStep.delimiter.bind fun _ _ hcomma =>
    .pure (.cons (.bare hms) (.one (.text hcomma)))

theorem classArguments_inStep (h : n.Matches σ n') :
    InStep σ (AllMatch σ) (classArguments n) (classArguments n') := by
  refine InStep.peek.bind fun next next' hnext => ?_
  rw [hnext.isOp]
  refine .ite ((InStep.enclosed true true).bind fun _ _ hleft => ?_) (.pure .nil)
  refine (h.fieldItems "bases").bind fun ps ps' hps => ?_
  refine (forEach_inStep hps fun _ _ => classBase_inStep).bind fun bs bs' hbs => ?_
  refine (keywordsAndStar_inStep h).bind fun ks ks' hks => ?_
  refine (h.field "kwargs").bind fun kwargs kwargs' hkwargs => ?_
  refine (onlyIf_inStep hkwargs.isPresent (starArgument_inStep "kwargs" hkwargs)).bind
    fun ss ss' hss => (expectOp .rpar).bind fun _ _ _ => .pure (.one (.bare ?_))
  exact ((((caption_match hleft).append hbs).append hks).append hss).append (.one (.word _))

theorem classDefRule_inStep (h : n.Matches σ n') :
    InStep σ (Markup.Matches σ) (classDefRule n) (classDefRule n') := by
  refine (h.fieldItems "decorator_list").bind fun ps ps' hps => ?_
  refine (forEach_inStep hps fun _ _ => decorator_inStep).bind fun ds ds' hds => ?_
  refine (expectWord (by decide)).bind fun _ _ _ => (expectKind .name).bind fun _ _ _ => ?_
  refine (h.field "name").bind fun name name' hname => InStep.gapBefore.bind fun _ _ hbefore => ?_
  refine hname.asText.bind fun s s' hs => (InStep.inPlaceOf _ _ _ _).bind fun _ _ _ => ?_
  refine (classArguments_inStep h).bind fun as as' has => colon_inStep.bind fun _ _ hend => ?_
  refine (block_inStep h "body" (.refl _)).bind fun b b' hb => .pure (.tagged (.cons _ hs .nil) ?_)
  refine (hds.append (.cons (.word _) (.cons (.text (hbefore.append hs)) has))).append ?_
  exact .cons (.text hend) (.one hb)

/-! ## Compound statements -/

theorem elsePart_inStep (h : n.Matches σ n') :
    InStep σ (AllMatch σ) (elsePart n) (elsePart n') := by
  refine (h.field "orelse").bind fun orelse orelse' horelse => ?_
  rw [horelse.isPresent]
  refine .ite ((InStep.betweenStatements false).bind fun _ _ hbefore => ?_) (.pure .nil)
  refine InStep.peek.bind fun next next' hnext => ?_
  refine .ite_of_iff (hnext.word _ (by decide)) ?_ ?_
  · exact horelse.first.bind fun _ _ hfirst => hfirst.write.bind fun _ _ hms =>
      .pure (.cons (.text hbefore) (.one (.bare hms)))
  · exact (keywordBlock_inStep h "orelse" (by decide)).bind fun _ _ hb =>
      .pure (.cons (.text hbefore) (.one hb))

theorem conditionRule_inStep (h : n.Matches σ n') :
    InStep σ (Markup.Matches σ) (conditionRule n) (conditionRule n') := by
  rw [conditionRule, conditionRule, h.cls]
  refine (expectKind .name).bind fun _ _ ht => InStep.gapAfter.bind fun _ _ hafter => ?_
  refine (h.writeField "test").bind fun ts ts' hts => colon_inStep.bind fun _ _ hend => ?_
  refine (block_inStep h "body" (.refl _)).bind fun b b' hb => ?_
  refine (elsePart_inStep h).bind fun os os' hos => .pure (.bare ?_)
  exact (caption_match (ht.text.append hafter)).append (.cons (.bare hts)
    (.cons (.text hend) (.cons hb hos)))

theorem forRule_inStep (h : n.Matches σ n') :
    InStep σ (Markup.Matches σ) (forRule n) (forRule n') := by
  rw [forRule, forRule, h.cls]
  refine (expectWord (by decide)).bind fun _ _ ht => InStep.gapAfter.bind fun _ _ hafter => ?_
  refine (h.writeField "target").bind fun ts ts' hts => ?_
  refine (expectWord (by decide)).bind fun _ _ _ => InStep.withGaps.bind fun _ _ hbetween => ?_
  refine (h.writeField "iter").bind fun is is' his => ?_
  refine colon_inStep.bind fun _ _ hend => (block_inStep h "body" (.refl _)).bind fun b b' hb => ?_
  refine (optionalBlock_inStep h "orelse" (by decide)).bind fun os os' hos => .pure (.bare ?_)
  exact .cons (.text (ht.text.append hafter)) (.cons (.bare hts) (.cons (.text hbetween)
    (.cons (.bare his) (.cons (.text hend) (.cons hb hos)))))

theorem namedType_inStep (h : n.Matches σ n') (hpq : p.Matches σ q) :
    AddsInStep σ (namedType n p) (namedType n' q) := by
  intro parent parent' hparent
  refine hpq.write.bind fun ts ts' hts => ?_
  refine (h.field "name").bind fun name name' hname => ?_
  refine (onlyIf_inStep hname.isPresent ((expectWord (by decide)).bind fun _ _ _ =>
    InStep.withGaps.bind fun _ _ hbetween => (expectKind .name).bind fun _ _ _ =>
      hname.caption.bind fun ms ms' hms => (InStep.inPlaceOf _ _ _ _).bind fun _ _ _ =>
        .pure (.cons (.text hbetween) (.one (.bare hms))))).bind fun ns ns' hns => ?_
  exact .pure (hparent.append (.cons (.bare hts) hns))

theorem handlerType_inStep (h : n.Matches σ n') : AddsInStep σ (handlerType n) (handlerType n') :=
  fun parent parent' hparent => (h.field "type").bind fun _ _ htype =>
    orIdle_inStep htype.isPresent (namedType_inStep h htype) parent parent' hparent

theorem exceptHandlerRule_inStep (h : n.Matches σ n') :
    AddsInStep σ (exceptHandlerRule n) (exceptHandlerRule n') := by
  intro parent parent' hparent
  refine (InStep.betweenStatements true).bind fun _ _ hbefore => ?_
  refine (expectWordShown (by decide)).bind fun _ _ _ => InStep.gapAfter.bind fun _ _ hafter => ?_
  have hlead := (Text.Matches.refl "except").append hafter
  refine (handlerType_inStep h _ _ (.cons (.text hbefore) (.one (.text hlead)))).bind
    fun ts ts' hts => colon_inStep.bind fun _ _ hend => ?_
  refine (block_inStep h "body" (.refl _)).bind fun b b' hb => ?_
  exact .pure (hparent.append (.one (.bare (hts.append (.cons (.text hend) (.one hb))))))

theorem tryRule_inStep (h : n.Matches σ n') :
    InStep σ (Markup.Matches σ) (tryRule n) (tryRule n') := by
  refine (expectWordShown (by decide)).bind fun _ _ _ => InStep.gapAfter.bind fun _ _ hafter => ?_
  refine (expectOp .colon).bind fun _ _ _ => ?_
  refine (block_inStep h "body" (.refl _)).bind fun b b' hb => ?_
  refine (h.field "handlers").bind fun handlers handlers' hhandlers => ?_
  refine (optionalList_inStep "handlers" hhandlers fun _ _ hitems =>
    addEach_inStep hitems (fun _ _ hpq => hpq.addTo) [] [] .nil).bind
      fun hs hs' hhs => (optionalBlock_inStep h "orelse" (by decide)).bind fun os os' hos => ?_
  refine (optionalBlock_inStep h "finalbody" (by decide)).bind fun fs fs' hfs => .pure (.bare ?_)
  have hlead := ((Text.Matches.refl "try").append hafter).append (.refl ":")
  exact ((AllMatch.cons (.text hlead) (.cons hb hhs)).append hos).append hfs

theorem withTarget_inStep (h : p.Matches σ q) : AddsInStep σ (withTarget p) (withTarget q) :=
  fun _ _ hparent => (expectWord (by decide)).bind fun _ _ _ =>
    InStep.withGaps.bind fun _ _ hbetween => h.addTo _ _ (hparent.append (.one (.text hbetween)))

theorem withItem_inStep (h : p.Matches σ q) :
    InStep σ (AllMatch σ) (withItem p) (withItem q) := by
  refine (h.field "context_expr").bind fun e e' he => he.write.bind fun cs cs' hcs => ?_
  refine (h.field "optional_vars").bind fun vars vars' hvars => ?_
  refine (addIf_inStep hvars.isPresent (withTarget_inStep hvars) _ _ hcs).bind fun ms ms' hms => ?_
  exact InStep.delimiter.bind fun _ _ hcomma => .pure (.cons (.bare hms) (.one (.text hcomma)))

theorem withRule_inStep (h : n.Matches σ n') :
    InStep σ (Markup.Matches σ) (withRule n) (withRule n') := by
  rw [withRule, withRule, h.cls]
  refine (expectWord (by decide)).bind fun _ _ _ => InStep.gapAfter.bind fun _ _ hafter => ?_
  refine (h.fieldItems "items").bind fun ps ps' hps => ?_
  refine (forEach_inStep hps fun _ _ => withItem_inStep).bind fun is is' his => ?_
  refine (expectOp .colon).bind fun _ _ _ => ?_
  refine (block_inStep h "body" (.refl _)).bind fun b b' hb => ?_
  refine .pure (.bare (.cons (.text ((Text.Matches.refl _).append hafter)) ?_))
  exact .cons (.bare his) (.cons (.word _) (.one hb))

/-! ## Modules -/

theorem moduleRule_inStep (h : n.Matches σ n') :
    InStep σ (AllMatch σ) (moduleRule n) (moduleRule n') :=
  (h.fieldItems "body").bind fun _ _ hitems =>
    addEach_inStep hitems (fun _ _ hpq => hpq.addTo) [] [] .nil

end SourceScribe.Conversion
