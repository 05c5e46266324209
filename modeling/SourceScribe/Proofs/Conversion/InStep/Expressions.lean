/-
  The rules for expressions go in step.

  A rule reads its fields, asks the same questions of tokens that match, and puts together
  texts that match.  Only the arguments of a call are in an order of their own, that of
  their places.
-/
import SourceScribe.Proofs.Conversion.InStep.Parts
import SourceScribe.Proofs.Conversion.Skeleton.Expressions

namespace SourceScribe.Conversion

open Scan Markup

variable {σ : Likeness} {p q : Part} {n n' : Site}

theorem Site.Matches.has (h : n.Matches σ n') (name : String) : n.has name = n'.has name := by
  have hfields := h.fields name
  rw [Site.Alike.has_eq, Site.Alike.has_eq]
  generalize n.fields.lookup name = o, n'.fields.lookup name = o' at hfields ⊢
  cases hfields <;> rfl

/-! ## Questions about tokens -/

section
variable {t t' : Token} (h : t.Matches σ t')
include h

theorem isOfKind_eq (k : TokenKind) : decide (t.kind = k) = decide (t'.kind = k) := by
  rw [h.kind]

theorem spells_eq {w : String} (hw : Token.isWord w = true) :
    decide (t.text = w) = decide (t'.text = w) :=
  decide_eq_decide.2 (h.word w hw)

end

theorem expectKind (k : TokenKind) :
    InStep σ (Token.Matches σ) (expect (·.kind = k)) (expect (·.kind = k)) :=
  .expect fun h => isOfKind_eq h k

theorem expectKindShown (k : TokenKind) :
    InStep σ (Token.Matches σ) (expectShown (·.kind = k)) (expectShown (·.kind = k)) :=
  .expectShown fun h => isOfKind_eq h k

theorem expectOp (o : Operator) :
    InStep σ (Token.Matches σ) (expect (·.isOp o)) (expect (·.isOp o)) :=
  .expect fun h => h.isOp o

theorem expectWord {w : String} (hw : Token.isWord w = true) :
    InStep σ (Token.Matches σ) (expect (·.text = w)) (expect (·.text = w)) :=
  .expect fun h => spells_eq h hw

theorem expectWordShown {w : String} (hw : Token.isWord w = true) :
    InStep σ (Token.Matches σ) (expectShown (·.text = w)) (expectShown (·.text = w)) :=
  .expectShown fun h => spells_eq h hw

/-! ## Arguments of a call -/

theorem starArgument_inStep (field : String) (h : p.Matches σ q) :
    InStep σ (AllMatch σ) (starArgument field p) (starArgument field q) := by
  refine (expectKindShown .operator).bind fun t t' ht => InStep.gapAfter.bind fun _ _ hafter => ?_
  refine (h.addTo _ _ (caption_match (ht.text.append hafter))).bind fun ms ms' hms => ?_
  exact InStep.delimiter.bind fun _ _ hcomma => .pure (.cons (.bare hms) (.one (.text hcomma)))

theorem keywordArgument_inStep (h : p.Matches σ q) :
    InStep σ (AllMatch σ) (keywordArgument p) (keywordArgument q) := by
  refine (expectKindShown .name).bind fun t t' ht => (h.field "arg").bind fun arg arg' harg => ?_
  refine harg.caption.bind fun ns ns' hns => (InStep.inPlaceOf _ _ _ _).bind fun _ _ _ => ?_
  refine (InStep.enclosed true true).bind fun _ _ hequal => ?_
  refine (h.field "value").bind fun value value' hvalue => hvalue.write.bind fun ms ms' hms => ?_
  refine InStep.delimiter.bind fun _ _ hcomma => .pure (.cons (.bare ?_) (.one (.text hcomma)))
  exact .cons (.bare hns) (.cons (.text hequal) (.one (.bare hms)))

/-- Arguments that match. -/
structure Argument.Matches (σ : Likeness) (a b : Argument) : Prop where
  place : σ.place a.place b.place
  starred : a.starred = b.starred
  part : a.part.Matches σ b.part

namespace Argument.Matches

variable {a b a' b' : Argument}

theorem before (h : a.Matches σ b) (h' : a'.Matches σ b') : a.before a' = b.before b' := by
  rw [Argument.before, Argument.before, h.starred, h'.starred,
    decide_eq_decide.2 (σ.place_lt h.place h'.place),
    decide_eq_decide.2 (σ.place_eq h.place h'.place)]

theorem clashes (h : a.Matches σ b) (h' : a'.Matches σ b') : a.clashes a' = b.clashes b' := by
  rw [Argument.clashes, Argument.clashes, h.starred, h'.starred,
    decide_eq_decide.2 (σ.place_eq h.place h'.place)]

end Argument.Matches

theorem keywordPlaces_inStep {ps qs : List Part} (h : List.Forall₂ (Part.Matches σ) ps qs) :
    InStep σ (List.Forall₂ (Argument.Matches σ)) (keywordPlaces ps) (keywordPlaces qs) := by
  induction h with
  | nil => exact .pure .nil
  | cons hpq _ ih =>
    have hplace : InStep σ (Argument.Matches σ) (keywordPlace _) (keywordPlace _) :=
      (hpq.field "value").bind fun value value' hvalue =>
        hvalue.place.bind fun place place' hplace => .pure ⟨hplace, rfl, hpq⟩
    exact hplace.bind fun a b hab => ih.bind fun as bs habs => .pure (.cons hab habs)

theorem starPlace_inStep (h : p.Matches σ q) :
    InStep σ (List.Forall₂ (Argument.Matches σ)) (starPlace p) (starPlace q) := by
  rw [starPlace, starPlace, h.isPresent]
  refine .ite ?_ (.pure .nil)
  exact h.place.bind fun place place' hplace => .pure (.cons ⟨hplace, rfl, h⟩ .nil)

theorem anyClash_match {as bs : List Argument} (h : List.Forall₂ (Argument.Matches σ) as bs) :
    anyClash as = anyClash bs := by
  induction h with
  | nil => rfl
  | @cons a b as bs hab habs ih =>
    have hany : as.any a.clashes = bs.any b.clashes := by
      clear ih
      induction habs with
      | nil => rfl
      | cons h _ ih => rw [List.any_cons, List.any_cons, ih, hab.clashes h]
    rw [anyClash, anyClash, hany, ih]

/-- Arguments are in the same order in both runs, as their places are. -/
theorem keywordsAndStar_inStep (h : n.Matches σ n') :
    InStep σ (AllMatch σ) (keywordsAndStar n) (keywordsAndStar n') := by
  refine (h.field "starargs").bind fun star star' hstar => ?_
  refine (starPlace_inStep hstar).bind fun starred starred' hstarred => ?_
  refine (h.fieldItems "keywords").bind fun keywords keywords' hkeywords => ?_
  refine (keywordPlaces_inStep hkeywords).bind fun named named' hnamed => ?_
  have hall : List.Forall₂ (Argument.Matches σ) (starred ++ named) (starred' ++ named') :=
    List.rel_append hstarred hnamed
  refine .ite_of_iff (by rw [anyClash_match hall]) .fail ?_
  refine forEach_inStep (forall₂_mergeSort hall ?_) fun a b hab => ?_
  · intro a b a' b' hab hab'
    rw [hab'.before hab]
  · rw [hab.starred]
    exact .ite (starArgument_inStep _ hab.part) (keywordArgument_inStep hab.part)

/-! ## Parameters of a function -/

theorem annotation_inStep (h : p.Matches σ q) :
    InStep σ (AllMatch σ) ( annotation p) ( annotation q) := by
  refine onlyIf_inStep h.isPresent ((expectOp .colon).bind fun _ _ _ => ?_)
  refine InStep.withGaps.bind fun _ _ hcolon => ?_
  exact (h.addTo _ _ (.one (.text hcolon))).bind fun _ _ hms => .pure (.one (.bare hms))

theorem parameterDefault_inStep {d d' : Option Part} (h : Option.Rel (Part.Matches σ) d d') :
    InStep σ (AllMatch σ) (parameterDefault d) (parameterDefault d') := by
  cases h with
  | none => exact .pure .nil
  | some h =>
    refine onlyIf_inStep h.isNode ((expectOp .equal).bind fun _ _ _ => ?_)
    refine InStep.withGaps.bind fun _ _ hequal => ?_
    exact (h.addTo _ _ (.one (.text hequal))).bind fun _ _ hms => .pure (.one (.bare hms))

theorem parameter_inStep {t t' : Token} {d d' : Option Part} {kwonly : Bool} (h : p.Matches σ q)
    (hd : Option.Rel (Part.Matches σ) d d') :
    InStep σ (Markup.Matches σ) (parameter t p d kwonly) (parameter t' q d' kwonly) := by
  refine (h.field "arg").bind fun name name' hname => hname.asText.bind fun s s' hs => ?_
  refine (InStep.inPlaceOf _ _ _ _).bind fun _ _ _ => ?_
  refine (h.field "annotation").bind fun ann ann' hann => ?_
  refine (annotation_inStep hann).bind fun as as' has => ?_
  refine (parameterDefault_inStep hd).bind fun ds ds' hds => .pure ?_
  exact .tagged (.cons "name" hs (.refl _)) ((AllMatch.cons (.text hs) has).append hds)

theorem delimitedParameter_inStep {kwonly : Bool} {e e' : Part × Option Part}
    (h : e.1.Matches σ e'.1 ∧ Option.Rel (Part.Matches σ) e.2 e'.2) :
    InStep σ (AllMatch σ) (delimitedParameter kwonly e) (delimitedParameter kwonly e') := by
  refine (expectKindShown .name).bind fun t t' _ => ?_
  refine (parameter_inStep h.1 h.2).bind fun arg arg' harg => ?_
  exact InStep.delimiter.bind fun _ _ hcomma => .pure (.cons harg (.one (.text hcomma)))

theorem starParameter_inStep (h : p.Matches σ q) (field : String) :
    InStep σ (AllMatch σ) (starParameter p field) (starParameter q field) := by
  refine (h.field field).bind fun arg arg' harg => ?_
  rw [harg.isPresent]
  refine .ite ?_ (.pure .nil)
  refine (expectKindShown .operator).bind fun t t' ht => (expectKind .name).bind fun u u' _ => ?_
  refine InStep.gapBefore.bind fun _ _ hbetween => ?_
  refine (parameter_inStep harg .none).bind fun e e' he => ?_
  refine InStep.delimiter.bind fun _ _ hcomma => .pure (.cons (.bare ?_) (.one (.text hcomma)))
  exact .cons (.text ht.text) (.cons (.text hbetween) (.one he))

theorem alignDefaults_match {ps qs : List Part} (h : List.Forall₂ (Part.Matches σ) ps qs)
    (count : Nat) : List.Forall₂ (Option.Rel (Part.Matches σ)) (alignDefaults count ps)
      (alignDefaults count qs) := by
  rw [alignDefaults, alignDefaults, h.length_eq]
  refine List.rel_append ?_ (List.rel_map (fun _ _ hpq => .some hpq) h)
  exact List.forall₂_same.2 fun o ho => by rw [List.eq_of_mem_replicate ho]; exact .none

theorem positionalParameters_inStep (h : p.Matches σ q) :
    InStep σ (AllMatch σ) (positionalParameters p) (positionalParameters q) := by
  refine (h.field "args").bind fun args args' hargs => ?_
  rw [hargs.isPresent]
  refine .ite ?_ (.pure .nil)
  refine (h.field "defaults").bind fun defaults defaults' hdefaults => ?_
  refine hargs.items.bind fun items items' hitems => ?_
  cases hdefaults with
  | list hlist =>
    rw [hitems.length_eq]
    exact forEach_inStep (forall₂_zip hitems (alignDefaults_match hlist _)) fun _ _ =>
      delimitedParameter_inStep
  | leaf | letter | node => exact .fail

theorem bareStar_inStep {kwonly kwonly' : Part} (h : p.Matches σ q)
    (hkwonly : kwonly.Matches σ kwonly') :
    InStep σ (AllMatch σ) (bareStar p kwonly) (bareStar q kwonly') := by
  refine (h.field "vararg").bind fun vararg vararg' hvararg => ?_
  rw [hkwonly.isPresent, hvararg.isPresent]
  refine .ite ((expectOp .star).bind fun _ _ _ => InStep.gapAfter.bind fun _ _ hafter => ?_)
    (.pure .nil)
  refine InStep.idle.bind fun _ _ _ => InStep.delimiter.bind fun _ _ hcomma => .pure ?_
  exact .cons (.text ((Text.Matches.refl _).append hafter)) (.one (.text hcomma))

theorem parameters_inStep (h : n.Matches σ n') :
    InStep σ (AllMatch σ) (parameters n) (parameters n') := by
  refine (h.field "args").bind fun args args' hargs => ?_
  refine (positionalParameters_inStep hargs).bind fun ps ps' hps => ?_
  refine (starParameter_inStep hargs "vararg").bind fun vs vs' hvs => ?_
  refine (hargs.field "kwonlyargs").bind fun kwonly kwonly' hkwonly => ?_
  refine (hargs.field "kw_defaults").bind fun defaults defaults' hdefaults => ?_
  refine (bareStar_inStep hargs hkwonly).bind fun ss ss' hss => ?_
  refine hkwonly.items.bind fun items items' hitems => ?_
  refine hdefaults.items.bind fun ds ds' hds => ?_
  have hnamed := forEach_inStep (f := delimitedParameter true) (g := delimitedParameter true)
    (forall₂_zip hitems (List.rel_map (fun _ _ hd => Option.Rel.some hd) hds))
      fun _ _ => delimitedParameter_inStep
  refine hnamed.bind fun ns ns' hns => ?_
  refine (starParameter_inStep hargs "kwarg").bind fun ks ks' hks => .pure ?_
  exact (((hps.append hvs).append hss).append hns).append hks

/-! ## Literals, names and displays -/

theorem numberRule_inStep : AddsInStep σ numberRule numberRule :=
  fun _ _ hfragment => (expectKindShown .number).bind fun _ _ ht =>
    .pure (hfragment.append (.one (labelled_match ht.text)))

theorem furtherStrings_match {ts ts' : List Token} (h : List.Forall₂ (Token.Matches σ) ts ts') :
    furtherStrings ts = furtherStrings ts' := by
  induction h with
  | nil => rfl
  | cons ht _ ih => rw [furtherStrings, furtherStrings, ht.kind, ht.isFiller, ih]

theorem stringTail_inStep (count : Nat) :
    InStep σ (AllMatch σ) (stringTail count) (stringTail count) := by
  induction count with
  | zero => exact .pure .nil
  | succ count ih =>
    refine (InStep.absorb (·.isFiller)).bind fun _ _ hbetween => InStep.take.bind fun _ _ ht => ?_
    refine InStep.gapBefore.bind fun _ _ hbefore => ih.bind fun ms ms' hms => .pure ?_
    exact .cons (.text (hbetween.append hbefore)) (.cons (labelled_match ht.text) hms)

theorem stringRule_inStep (h : n.Matches σ n') :
    AddsInStep σ (stringRule n) (stringRule n') := by
  intro fragment fragment' hfragment
  refine (expectKindShown .string).bind fun t t' ht => InStep.get.bind fun c c' hc => ?_
  rw [furtherStrings_match hc.rest, h.cls]
  refine (InStep.orFail_same _).bindEq fun more => ?_
  refine (stringTail_inStep more).bind fun ms ms' hms => .pure ?_
  exact hfragment.append (.one (.bare (.cons (labelled_match ht.text) hms)))

theorem nameRule_inStep (h : n.Matches σ n') :
    AddsInStep σ (nameRule n) (nameRule n') := by
  intro fragment fragment' hfragment
  refine (expectKindShown .name).bind fun _ _ _ => (h.field "id").bind fun id id' hid => ?_
  refine hid.caption.bind fun ms ms' hms => (InStep.inPlaceOf _ _ _ _).bind fun _ _ _ => ?_
  refine (h.fieldCls "ctx").bindEq fun ctx => .pure ?_
  exact hfragment.append (.one (.tagged (.cons "name" hid.attrValue (.refl _)) hms))

theorem nameConstantRule_inStep : AddsInStep σ nameConstantRule nameConstantRule :=
  fun _ _ hfragment => (expectKind .name).bind fun _ _ ht =>
    .pure (hfragment.append (.one (labelled_match ht.text)))

theorem ellipsisRule_inStep : AddsInStep σ ellipsisRule ellipsisRule :=
  fun _ _ hfragment => (expectKind .operator).bind fun _ _ ht =>
    .pure (hfragment.append (.one (labelled_match ht.text)))

/-- A text that is written if it is asked for. -/
theorem optionalText_inStep {m : Scan String} (h : InStep σ (Text.Matches σ) m m)
    {asked asked' : Bool} (hasked : asked = asked') :
    InStep σ (AllMatch σ) (onlyIf asked do return [text (← m)])
      (onlyIf asked' do return [text (← m)]) :=
  onlyIf_inStep hasked (h.bind fun _ _ hs => .pure (.one (.text hs)))

theorem tupleItem_inStep (first : Bool) (h : p.Matches σ q) :
    AddsInStep σ (tupleItem first p) (tupleItem first q) := by
  intro parent parent' hparent
  refine (optionalText_inStep InStep.gapAfter rfl).bind fun ls ls' hls => ?_
  refine (h.addTo _ _ (hparent.append hls)).bind fun ms ms' hms => ?_
  exact (InStep.enclosedOf _ true false).bind fun _ _ hcomma =>
    .pure (hms.append (.one (.text hcomma)))

theorem tupleRule_inStep (h : n.Matches σ n') :
    AddsInStep σ (tupleRule n) (tupleRule n') := by
  intro fragment fragment' hfragment
  refine (h.fieldCls "ctx").bindEq fun ctx => (h.field "elts").bind fun elts elts' helts => ?_
  rw [helts.isPresent]
  refine .ite (helts.items.bind fun items items' hitems => ?_) ?_
  · cases hitems with
    | nil => exact .pure (hfragment.append (.one (.tagged (.refl _) .nil)))
    | cons hitem hitems =>
      refine (tupleItem_inStep true hitem [] [] .nil).bind fun hs hs' hhs => ?_
      refine (addEach_inStep hitems (fun _ _ => tupleItem_inStep false) _ _ hhs).bind
        fun ms ms' hms => ?_
      exact .pure (hfragment.append (.one (.tagged (.refl _) hms)))
  · refine (expectOp .lpar).bind fun _ _ _ => (expectOp .rpar).bind fun _ _ _ => ?_
    refine InStep.gapBefore.bind fun _ _ hbetween => .pure ?_
    have hpair := ((Text.Matches.refl "(").append hbetween).append (.refl ")")
    exact hfragment.append (.one (.tagged (.refl _) (.one (.text hpair))))

theorem delimitedItem_inStep (h : p.Matches σ q) :
    AddsInStep σ (delimitedItem p) (delimitedItem q) :=
  fun parent parent' hparent => (h.addTo parent parent' hparent).bind fun _ _ hms =>
    InStep.delimiter.bind fun _ _ hcomma => .pure (hms.append (.one (.text hcomma)))

theorem contextAttr_inStep (h : n.Matches σ n') :
    InStep σ (· = ·) (contextAttr n) (contextAttr n') := by
  rw [contextAttr, contextAttr, h.has]
  exact .ite ((h.fieldCls "ctx").bindEq fun ctx => .pure rfl) (.pure rfl)

theorem listRule_inStep (h : n.Matches σ n') :
    AddsInStep σ (listRule n) (listRule n') := by
  intro fragment fragment' hfragment
  refine (contextAttr_inStep h).bindEq fun attrs => ?_
  refine (InStep.enclosed false true).bind fun _ _ hleft => ?_
  refine (h.fieldItems "elts").bind fun items items' hitems => ?_
  refine (addEach_inStep hitems (fun _ _ => delimitedItem_inStep) _ _ (.one (.text hleft))).bind
    fun ms ms' hms => (expectKind .operator).bind fun _ _ hright => .pure ?_
  rw [h.cls]
  exact hfragment.append (.one (.tagged (.refl _) (hms.append (.one (.text hright.text)))))

theorem dictItem_inStep {e e' : Part × Part} (h : e.1.Matches σ e'.1 ∧ e.2.Matches σ e'.2) :
    InStep σ (AllMatch σ) (dictItem e) (dictItem e') := by
  refine h.1.write.bind fun ks ks' hks => (InStep.enclosed true true).bind fun _ _ hcolon => ?_
  refine (h.2.addTo _ _ (hks.append (.one (.text hcolon)))).bind fun ms ms' hms => ?_
  exact InStep.delimiter.bind fun _ _ hcomma => .pure (.cons (.bare hms) (.one (.text hcomma)))

theorem dictRule_inStep (h : n.Matches σ n') :
    AddsInStep σ (dictRule n) (dictRule n') := by
  intro fragment fragment' hfragment
  refine (InStep.enclosed false true).bind fun _ _ hleft => ?_
  refine (h.field "keys").bind fun ks ks' hks => (h.field "values").bind fun vs vs' hvs => ?_
  refine hks.items.bind fun keys keys' hkeys => hvs.items.bind fun values values' hvalues => ?_
  refine (forEach_inStep (forall₂_zip hkeys hvalues) fun _ _ => dictItem_inStep).bind
    fun ms ms' hms => (expectOp .rbrace).bind fun _ _ _ => .pure ?_
  exact hfragment.append (.one (.bare ((AllMatch.cons (.text hleft) hms).append (.one (.word _)))))

/-! ## Parts of objects -/

theorem starredRule_inStep (h : n.Matches σ n') :
    AddsInStep σ (starredRule n) (starredRule n') := by
  intro fragment fragment' hfragment
  refine (expectOp .star).bind fun _ _ _ => InStep.gapAfter.bind fun _ _ hafter => ?_
  have hstar := (Text.Matches.refl "*").append hafter
  refine (h.fieldCls "ctx").bindEq fun ctx => ?_
  refine (h.addField "value" _ _ (.one (.text hstar))).bind fun ms ms' hms => .pure ?_
  exact hfragment.append (.one (.tagged (.refl _) hms))

theorem attributeRule_inStep (h : n.Matches σ n') :
    AddsInStep σ (attributeRule n) (attributeRule n') := by
  intro fragment fragment' hfragment
  refine (h.fieldCls "ctx").bindEq fun ctx => (h.writeField "value").bind fun ms ms' hms => ?_
  refine (InStep.enclosed true true).bind fun _ _ hdot => ?_
  refine (expectKindShown .name).bind fun _ _ ht => ?_
  refine .pure (hfragment.append (.one (.tagged (.refl _) ?_)))
  exact .cons (.bare hms) (.cons (.text hdot) (.one (labelled_match ht.text)))

theorem subscriptRule_inStep (h : n.Matches σ n') :
    AddsInStep σ (subscriptRule n) (subscriptRule n') := by
  intro fragment fragment' hfragment
  refine (h.fieldCls "ctx").bindEq fun ctx => (h.writeField "value").bind fun vs vs' hvs => ?_
  refine (InStep.enclosed false true).bind fun _ _ hleft => ?_
  refine (h.addField "slice" _ _ (.one (.text hleft))).bind fun ss ss' hss => ?_
  refine (InStep.enclosed true false).bind fun _ _ hright => ?_
  refine .pure (hfragment.append (.one (.tagged (.refl _) ?_)))
  exact .cons (.bare hvs) (.one (.bare (hss.append (.one (.text hright)))))

theorem indexRule_inStep (h : n.Matches σ n') :
    AddsInStep σ (indexRule n) (indexRule n') :=
  fun _ _ hparent => (h.writeField "value").bind fun _ _ hms =>
    .pure (hparent.append (.one (.bare hms)))

theorem sliceRule_inStep (h : n.Matches σ n') :
    AddsInStep σ (sliceRule n) (sliceRule n') := by
  intro fragment fragment' hfragment
  refine (h.field "lower").bind fun lower lower' hlower => ?_
  refine (onlyIf_inStep hlower.isPresent (hlower.write.bind fun ms ms' hms =>
    InStep.gapAfter.bind fun _ _ hafter => .pure (.cons (.bare hms) (.one (.text hafter))))).bind
      fun ls ls' hls => (InStep.enclosed false false).bind fun _ _ hcolon => ?_
  refine (h.field "upper").bind fun upper upper' hupper => ?_
  refine (onlyIf_inStep hupper.isPresent (InStep.gapAfter.bind fun _ _ hafter =>
    hupper.write.bind fun ms ms' hms => .pure (.cons (.text hafter) (.one (.bare hms))))).bind
      fun us us' hus => InStep.peek.bind fun next next' hnext => ?_
  refine (optionalText_inStep (InStep.enclosed true false) (hnext.isOp .colon)).bind
    fun cs cs' hcs => ?_
  refine (h.field "step").bind fun step step' hstep => ?_
  refine (onlyIf_inStep hstep.isPresent (InStep.gapBefore.bind fun _ _ hbefore =>
    hstep.write.bind fun ms ms' hms => .pure (.cons (.text hbefore) (.one (.bare hms))))).bind
      fun ss ss' hss => .pure (hfragment.append (.one (.bare ?_)))
  exact ((hls.append (.cons (.text hcolon) hus)).append hcs).append hss

theorem extSliceRule_inStep (h : n.Matches σ n') :
    AddsInStep σ (extSliceRule n) (extSliceRule n') :=
  fun parent parent' hparent => (h.fieldItems "dims").bind fun _ _ hdims =>
    addEach_inStep hdims (fun _ _ => delimitedItem_inStep) parent parent' hparent

/-! ## Operators -/

theorem binOpRule_inStep (h : n.Matches σ n') :
    AddsInStep σ (binOpRule n) (binOpRule n') := by
  intro fragment fragment' hfragment
  refine (h.writeField "left").bind fun ls ls' hls => (h.field "op").bind fun op op' hop => ?_
  refine (InStep.enclosed true true).bind fun _ _ hsign => hop.cls.bindEq fun cls => ?_
  refine (h.addField "right" _ _ (hls.append (.one (labelled_match hsign)))).bind
    fun ms ms' hms => .pure ?_
  rw [h.cls]
  exact hfragment.append (.one (.bare hms))

theorem boolOperand_inStep (h : p.Matches σ q) :
    InStep σ (AllMatch σ) (boolOperand p) (boolOperand q) :=
  (InStep.enclosed true true).bind fun _ _ hsign => h.write.bind fun _ _ hms =>
    .pure (.cons (.text hsign) (.one (.bare hms)))

theorem boolOpRule_inStep (h : n.Matches σ n') :
    AddsInStep σ (boolOpRule n) (boolOpRule n') := by
  intro fragment fragment' hfragment
  refine (h.fieldCls "op").bindEq fun op => (h.fieldItems "values").bind fun ps ps' hps => ?_
  rw [h.cls]
  cases hps with
  | nil => exact .pure (hfragment.append (.one (.tagged (.refl _) .nil)))
  | cons hp hps =>
    refine hp.write.bind fun hs hs' hhs => ?_
    refine (forEach_inStep hps fun _ _ => boolOperand_inStep).bind fun ts ts' hts => .pure ?_
    exact hfragment.append (.one (.tagged (.refl _) (.cons (.bare hhs) hts)))

theorem unaryOpRule_inStep (h : n.Matches σ n') :
    AddsInStep σ (unaryOpRule n) (unaryOpRule n') := by
  intro fragment fragment' hfragment
  refine InStep.take.bind fun _ _ ht => (InStep.betweenStatements true).bind fun _ _ hafter => ?_
  have hsign := (caption_match ht.text).append (.one (.text hafter))
  refine (h.fieldCls "op").bindEq fun op => ?_
  refine (h.addField "operand" _ _ hsign).bind fun ms ms' hms => .pure ?_
  rw [h.cls]
  exact hfragment.append (.one (.tagged (.refl _) hms))

theorem comparisonSign_inStep (count : Nat) :
    InStep σ (Text.Matches σ) (comparisonSign count) (comparisonSign count) := by
  induction count with
  | zero => exact .pure (.refl _)
  | succ count ih =>
    exact (InStep.enclosed false true).bind fun _ _ hsign => ih.bind fun _ _ hmore =>
      .pure (hsign.append hmore)

theorem comparison_inStep {e e' : Part × Part} (h : e.1.Matches σ e'.1 ∧ e.2.Matches σ e'.2) :
    InStep σ (AllMatch σ) (comparison e) (comparison e') := by
  refine InStep.gapAfter.bind fun _ _ hbefore => h.1.cls.bindEq fun cls => ?_
  refine (InStep.orFail_same _).bindEq fun length => ?_
  refine (comparisonSign_inStep length).bind fun _ _ hsign => ?_
  refine h.2.write.bind fun ms ms' hms => .pure ?_
  exact .cons (labelled_match (hbefore.append hsign)) (.one (.bare hms))

theorem compareRule_inStep (h : n.Matches σ n') :
    AddsInStep σ (compareRule n) (compareRule n') := by
  intro fragment fragment' hfragment
  refine (h.writeField "left").bind fun ls ls' hls => (h.field "ops").bind fun ops ops' hops => ?_
  refine (h.field "comparators").bind fun vs vs' hvs => ?_
  refine hops.items.bind fun signs signs' hsigns => hvs.items.bind fun values values' hvalues => ?_
  refine (forEach_inStep (forall₂_zip hsigns hvalues) fun _ _ => comparison_inStep).bind
    fun ts ts' hts => .pure ?_
  rw [h.cls]
  exact hfragment.append (.one (.bare (.cons (.bare hls) hts)))

/-! ## Calls, conditions and functions -/

/-- A list that may be missing, in an element of its own. -/
theorem optionalList_inStep {f g : List Part → Scan (List Markup)} (tag : String)
    (h : p.Matches σ q) (hf : ∀ as bs, List.Forall₂ (Part.Matches σ) as bs →
      InStep σ (AllMatch σ) (f as) (g bs)) :
    InStep σ (AllMatch σ)
      (onlyIf p.isPresent do
        let inside ← f (← p.items)
        return [element tag [] inside])
      (onlyIf q.isPresent do
        let inside ← g (← q.items)
        return [element tag [] inside]) := by
  refine onlyIf_inStep h.isPresent (h.items.bind fun items items' hitems => ?_)
  exact (hf items items' hitems).bind fun _ _ hms => .pure (.one (.bare hms))

theorem callRule_inStep (h : n.Matches σ n') :
    AddsInStep σ (callRule n) (callRule n') := by
  intro fragment fragment' hfragment
  refine (h.writeField "func").bind fun fs fs' hfs => ?_
  refine (InStep.enclosed true true).bind fun _ _ hleft => ?_
  refine (h.field "args").bind fun args args' hargs => ?_
  refine (optionalList_inStep "args" hargs fun _ _ hitems =>
    addEach_inStep hitems (fun _ _ => delimitedItem_inStep) [] [] .nil).bind
      fun as as' has => (keywordsAndStar_inStep h).bind fun ks ks' hks => ?_
  refine (h.field "kwargs").bind fun kwargs kwargs' hkwargs => ?_
  refine (onlyIf_inStep hkwargs.isPresent (starArgument_inStep "kwargs" hkwargs)).bind
    fun ss ss' hss => (InStep.expectShown (·.isOp .rpar)).bind fun _ _ _ => ?_
  refine .pure (hfragment.append (.one (.bare ?_)))
  exact (((AllMatch.cons (.bare hfs) (.cons (.text hleft) has)).append hks).append hss).append
    (.one (.word _))

theorem ifExpRule_inStep (h : n.Matches σ n') :
    AddsInStep σ (ifExpRule n) (ifExpRule n') := by
  intro fragment fragment' hfragment
  refine (h.writeField "body").bind fun bs bs' hbs => ?_
  refine (InStep.enclosed true true).bind fun _ _ hif => ?_
  refine (h.writeField "test").bind fun ts ts' hts => ?_
  refine (InStep.enclosed true true).bind fun _ _ helse => ?_
  refine (h.writeField "orelse").bind fun os os' hos => ?_
  refine .pure (hfragment.append (.one (.bare ?_)))
  exact .cons (.bare hbs) (.cons (.text hif) (.cons (.bare hts) (.cons (.text helse)
    (.one (.bare hos)))))

theorem comprehensionIf_inStep (h : p.Matches σ q) :
    InStep σ (AllMatch σ) (comprehensionIf p) (comprehensionIf q) :=
  (InStep.enclosed true true).bind fun _ _ hif =>
    (h.addTo _ _ (.one (.text hif))).bind fun _ _ hms => .pure (.one (.bare hms))

theorem comprehension_inStep (h : p.Matches σ q) :
    InStep σ (AllMatch σ) (comprehension p) (comprehension q) := by
  refine (InStep.enclosed true true).bind fun _ _ hfor => ?_
  refine (h.field "target").bind fun target target' htarget => ?_
  refine htarget.write.bind fun ts ts' hts => (InStep.enclosed true true).bind fun _ _ hin => ?_
  refine (h.field "iter").bind fun iter iter' hiter => hiter.write.bind fun is is' his => ?_
  refine (h.field "ifs").bind fun ifs ifs' hifs => ?_
  refine (optionalList_inStep "ifs" hifs fun _ _ hitems =>
    forEach_inStep hitems fun _ _ => comprehensionIf_inStep).bind
      fun cs cs' hcs => .pure (.one (.bare ?_))
  exact .cons (.text hfor) (.cons (.bare hts) (.cons (.text hin) (.cons (.bare his) hcs)))

theorem comprehensionHead_inStep (h : n.Matches σ n') :
    InStep σ (AllMatch σ) (comprehensionHead n) (comprehensionHead n') := by
  rw [comprehensionHead, comprehensionHead, h.has]
  refine .ite ((h.writeField "elt").bind fun _ _ hms => .pure (.one (.bare hms))) ?_
  refine (h.writeField "key").bind fun ks ks' hks => ?_
  refine (InStep.enclosed true true).bind fun _ _ hcolon => ?_
  refine (h.writeField "value").bind fun vs vs' hvs => .pure ?_
  exact .cons (.bare hks) (.cons (.text hcolon) (.one (.bare hvs)))

theorem comprehensionRule_inStep (h : n.Matches σ n') :
    AddsInStep σ (comprehensionRule n) (comprehensionRule n') := by
  intro fragment fragment' hfragment
  rw [comprehensionRule, comprehensionRule, h.cls]
  refine (optionalText_inStep (InStep.enclosed false true) rfl).bind fun ls ls' hls => ?_
  refine (comprehensionHead_inStep h).bind fun hs hs' hhs => ?_
  refine (h.fieldItems "generators").bind fun gens gens' hgens => ?_
  refine (forEach_inStep hgens fun _ _ => comprehension_inStep).bind fun gs gs' hgs => ?_
  refine (optionalText_inStep (InStep.enclosed true false) rfl).bind fun rs rs' hrs => .pure ?_
  exact hfragment.append (.one (.bare ((hls.append hhs).append (.cons (.bare hgs) hrs))))

theorem lambdaRule_inStep (h : n.Matches σ n') :
    AddsInStep σ (lambdaRule n) (lambdaRule n') := by
  intro fragment fragment' hfragment
  refine (expectWord (by decide)).bind fun _ _ _ => InStep.gapAfter.bind fun _ _ hafter => ?_
  refine (parameters_inStep h).bind fun ps ps' hps => ?_
  refine (InStep.enclosed false true).bind fun _ _ hcolon => ?_
  refine (h.writeField "body").bind fun bs bs' hbs => ?_
  refine .pure (hfragment.append (.one (.bare ?_)))
  exact .cons (.text ((Text.Matches.refl _).append hafter)) (.cons (.bare hps)
    (.cons (.text hcolon) (.one (.bare hbs))))

theorem yieldRule_inStep (h : n.Matches σ n') :
    AddsInStep σ (yieldRule n) (yieldRule n') := by
  intro fragment fragment' hfragment
  rw [yieldRule, yieldRule, h.cls]
  refine (expectWord (by decide)).bind fun _ _ ht => InStep.gapAfter.bind fun _ _ hafter => ?_
  refine (onlyIf_inStep rfl ((expectWord (by decide)).bind fun _ _ hu =>
    InStep.gapAfter.bind fun _ _ hafter => .pure (.one (.text (hu.text.append hafter))))).bind
      fun fs fs' hfs => ?_
  refine (h.field "value").bind fun value value' hvalue => ?_
  have hlead := AllMatch.cons (.text (ht.text.append hafter)) hfs
  refine (orIdle_inStep hvalue.isPresent hvalue.addTo _ _ hlead).bind fun ms ms' hms => .pure ?_
  exact hfragment.append (.one (.bare hms))

end SourceScribe.Conversion
