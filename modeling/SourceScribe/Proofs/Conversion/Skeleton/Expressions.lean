/-
  The rules for expressions write the same skeleton in two runs.

  A rule may read from the tokens how often to go on, whether to take a further one and
  what to write, but none of this makes an element.
-/
import SourceScribe.Proofs.Conversion.Agreement

namespace SourceScribe.Conversion

open Scan Markup

/-! ## Lists side by side -/

section
variable {α β α' β' : Type} {P : α → β → Prop} {Q : α' → β' → Prop}

theorem forall₂_zip {as : List α} {bs : List β} {as' : List α'} {bs' : List β'}
    (h : List.Forall₂ P as bs) (h' : List.Forall₂ Q as' bs') :
    List.Forall₂ (fun x y => P x.1 y.1 ∧ Q x.2 y.2) (as.zip as') (bs.zip bs') := by
  induction h generalizing as' bs' with
  | nil => exact .nil
  | cons hab _ ih =>
    cases h' with
    | nil => exact .nil
    | cons hab' h' => exact .cons ⟨hab, hab'⟩ (ih h')

theorem exists_pairs {as : List α} {bs : List β} (h : List.Forall₂ P as bs) :
    ∃ ps : List (α × β), as = ps.map Prod.fst ∧ bs = ps.map Prod.snd ∧ ∀ p ∈ ps, P p.1 p.2 := by
  induction h with
  | nil => exact ⟨[], rfl, rfl, by simp⟩
  | @cons a b _ _ hab _ ih =>
    obtain ⟨ps, rfl, rfl, hps⟩ := ih
    refine ⟨(a, b) :: ps, rfl, rfl, fun p hp => ?_⟩
    rcases List.mem_cons.1 hp with rfl | hp
    · exact hab
    · exact hps p hp

/-- Sorting keeps lists side by side if the order does not tell them apart. -/
theorem forall₂_mergeSort {as : List α} {bs : List β} {le : α → α → Bool} {le' : β → β → Bool}
    (h : List.Forall₂ P as bs)
    (hle : ∀ a b a' b', P a b → P a' b' → le a a' = le' b b') :
    List.Forall₂ P (as.mergeSort le) (bs.mergeSort le') := by
  obtain ⟨ps, rfl, rfl, hps⟩ := exists_pairs h
  rw [← List.map_mergeSort (r := fun p q => le p.1 q.1) fun _ _ _ _ => rfl,
    ← List.map_mergeSort (r := fun p q => le p.1 q.1) (f := Prod.snd) fun p hp q hq =>
      hle _ _ _ _ (hps p hp) (hps q hq),
    List.forall₂_map_left_iff, List.forall₂_map_right_iff, List.forall₂_same]
  intro p hp
  exact hps p (List.mem_mergeSort.1 hp)

end

/-! ## Arguments of a call -/

section
variable {p q : Part} {n n' : Site}

theorem starArgument_agrees (field : String) (h : p.Alike q) :
    Agrees Similar (starArgument field p) (starArgument field q) := by
  refine .skip fun t t' => .skip fun _ _ => ?_
  refine (h.addTo _ _ (by simp [Similar])).bind fun ms ms' hms => .skip fun _ _ => .pure ?_
  simp [Similar, hms]

theorem keywordArgument_agrees (h : p.Alike q) :
    Agrees Similar (keywordArgument p) (keywordArgument q) := by
  refine .skip fun t t' => (h.field "arg").bind fun arg arg' _ => ?_
  refine (Part.Alike.caption arg arg').bind fun ns ns' hns => .skip fun _ _ => .skip fun _ _ => ?_
  refine (h.field "value").bind fun value value' hvalue => hvalue.write.bind fun ms ms' hms => ?_
  refine .skip fun _ _ => .pure ?_
  simp [Similar, hns, hms]

/-- One argument of a call over two sources. -/
structure Argument.Alike (a b : Argument) : Prop where
  place : a.place = b.place
  starred : a.starred = b.starred
  part : a.part.Alike b.part

theorem keywordPlaces_agrees {ps qs : List Part} (h : List.Forall₂ Part.Alike ps qs) :
    Agrees (List.Forall₂ Argument.Alike) (keywordPlaces ps) (keywordPlaces qs) := by
  induction h with
  | nil => exact .pure .nil
  | cons hpq _ ih =>
    have hplace : Agrees Argument.Alike (keywordPlace _) (keywordPlace _) :=
      (hpq.field "value").bind fun value value' hvalue =>
        hvalue.place.bindEq fun place => .pure ⟨rfl, rfl, hpq⟩
    exact hplace.bind fun a b hab => ih.bind fun as bs habs => .pure (.cons hab habs)

theorem starPlace_agrees (h : p.Alike q) :
    Agrees (List.Forall₂ Argument.Alike) (starPlace p) (starPlace q) := by
  rw [starPlace, starPlace, h.isPresent]
  refine .ite ?_ (.pure .nil)
  exact h.place.bindEq fun place => .pure (.cons ⟨rfl, rfl, h⟩ .nil)

theorem anyClash_eq {as bs : List Argument} (h : List.Forall₂ Argument.Alike as bs) :
    anyClash as = anyClash bs := by
  induction h with
  | nil => rfl
  | @cons a b as bs hab habs ih =>
    have hany : as.any a.clashes = bs.any b.clashes := by
      clear ih
      induction habs with
      | nil => rfl
      | cons h _ ih =>
        rw [List.any_cons, List.any_cons, ih, Argument.clashes, Argument.clashes, hab.place,
          hab.starred, h.place, h.starred]
    rw [anyClash, anyClash, hany, ih]

/-- The order of the arguments is that of their recorded places. -/
theorem keywordsAndStar_agrees (h : n.Alike n') :
    Agrees Similar (keywordsAndStar n) (keywordsAndStar n') := by
  refine (h.field "starargs").bind fun star star' hstar => ?_
  refine (starPlace_agrees hstar).bind fun starred starred' hstarred => ?_
  refine (h.fieldItems "keywords").bind fun keywords keywords' hkeywords => ?_
  refine (keywordPlaces_agrees hkeywords).bind fun named named' hnamed => ?_
  have hall : List.Forall₂ Argument.Alike (starred ++ named) (starred' ++ named') :=
    List.rel_append hstarred hnamed
  show Agrees Similar (if anyClash (starred ++ named) then _ else _)
    (if anyClash (starred' ++ named') then _ else _)
  rw [anyClash_eq hall]
  refine .ite .fail_left (forEach_agrees (forall₂_mergeSort hall ?_) fun a b hab => ?_)
  · intro a b a' b' hab hab'
    rw [Argument.before, Argument.before, hab.place, hab.starred, hab'.place, hab'.starred]
  · rw [hab.starred]
    exact .ite (starArgument_agrees _ hab.part) (keywordArgument_agrees hab.part)

/-! ## Parameters of a function -/

theorem annotation_agrees (h : p.Alike q) : Agrees Similar ( annotation p) ( annotation q) := by
  refine onlyIf_agrees h.isPresent (.skip fun _ _ => .skip fun _ _ => ?_)
  refine (h.addTo _ _ (by simp [Similar])).bind fun ms ms' hms => .pure ?_
  simp [Similar, hms]

theorem parameterDefault_agrees {d d' : Option Part} (h : Option.Rel Part.Alike d d') :
    Agrees Similar (parameterDefault d) (parameterDefault d') := by
  cases h with
  | none => exact .pure rfl
  | some h =>
    refine onlyIf_agrees h.isNode (.skip fun _ _ => .skip fun _ _ => ?_)
    refine (h.addTo _ _ (by simp [Similar])).bind fun ms ms' hms => .pure ?_
    simp [Similar, hms]

theorem parameter_agrees {t t' : Token} {d d' : Option Part} {kwonly : Bool} (h : p.Alike q)
    (hd : Option.Rel Part.Alike d d') :
    Agrees SimilarOne (parameter t p d kwonly) (parameter t' q d' kwonly) := by
  refine (h.field "arg").bind fun name name' hname => hname.asText.bindEq fun nameText => ?_
  refine .skip fun _ _ => (h.field "annotation").bind fun ann ann' hann => ?_
  refine (annotation_agrees hann).bind fun as as' has => ?_
  refine (parameterDefault_agrees hd).bind fun ds ds' hds => .pure ?_
  simp [SimilarOne, has, hds]

theorem delimitedParameter_agrees {kwonly : Bool} {e e' : Part × Option Part}
    (h : e.1.Alike e'.1 ∧ Option.Rel Part.Alike e.2 e'.2) :
    Agrees Similar (delimitedParameter kwonly e) (delimitedParameter kwonly e') := by
  refine .skip fun t t' => (parameter_agrees h.1 h.2).bind fun arg arg' harg => ?_
  refine .skip fun _ _ => .pure ?_
  simp [Similar, harg]

theorem starParameter_agrees (h : p.Alike q) (field : String) :
    Agrees Similar (starParameter p field) (starParameter q field) := by
  refine (h.field field).bind fun arg arg' harg => ?_
  rw [harg.isPresent]
  refine .ite (.skip fun _ _ => .skip fun _ _ => .skip fun _ _ => ?_) (.pure rfl)
  refine (parameter_agrees harg .none).bind fun e e' he => .skip fun _ _ => .pure ?_
  simp [Similar, he]

theorem alignDefaults_alike {ps qs : List Part} (h : List.Forall₂ Part.Alike ps qs) (count : Nat) :
    List.Forall₂ (Option.Rel Part.Alike) (alignDefaults count ps) (alignDefaults count qs) := by
  rw [alignDefaults, alignDefaults, h.length_eq]
  refine List.rel_append ?_ ?_
  · exact List.forall₂_same.2 fun o ho => by rw [List.eq_of_mem_replicate ho]; exact .none
  · exact List.rel_map (fun _ _ hpq => .some hpq) h

theorem positionalParameters_agrees (h : p.Alike q) :
    Agrees Similar (positionalParameters p) (positionalParameters q) := by
  refine (h.field "args").bind fun args args' hargs => ?_
  rw [hargs.isPresent]
  refine .ite ?_ (.pure rfl)
  refine (h.field "defaults").bind fun defaults defaults' hdefaults => ?_
  refine hargs.items.bind fun items items' hitems => ?_
  cases hdefaults with
  | list hlist =>
    rw [hitems.length_eq]
    exact forEach_agrees (forall₂_zip hitems (alignDefaults_alike hlist _)) fun _ _ =>
      delimitedParameter_agrees
  | leaf | letter | node => exact .fail_left

theorem silent_bareStar (p kwonly : Part) : Silent (bareStar p kwonly) := by
  intro c ms c' h
  obtain ⟨vararg, c₁, -, h⟩ := bind_ok.1 h
  split at h
  · simp only [bind_ok, pure_ok] at h
    obtain ⟨_, _, -, _, _, -, _, _, -, _, _, -, rfl, -⟩ := h
    simp
  · obtain ⟨rfl, -⟩ := pure_ok.1 h
    exact skeletons_nil

theorem parameters_agrees (h : n.Alike n') : Agrees Similar (parameters n) (parameters n') := by
  refine (h.field "args").bind fun args args' hargs => ?_
  refine (positionalParameters_agrees hargs).bind fun ps ps' hps => ?_
  refine (starParameter_agrees hargs "vararg").bind fun vs vs' hvs => ?_
  refine (hargs.field "kwonlyargs").bind fun kwonly kwonly' hkwonly => ?_
  refine (hargs.field "kw_defaults").bind fun defaults defaults' hdefaults => ?_
  refine ((silent_bareStar _ _).agrees (silent_bareStar _ _)).bind fun ss ss' hss => ?_
  refine hkwonly.items.bind fun items items' hitems => ?_
  refine hdefaults.items.bind fun ds ds' hds => ?_
  have hnamed : Agrees Similar
      (forEach (delimitedParameter true) (items.zip (ds.map some)))
      (forEach (delimitedParameter true) (items'.zip (ds'.map some))) :=
    forEach_agrees (forall₂_zip hitems (List.rel_map (fun _ _ hd => Option.Rel.some hd) hds))
      fun _ _ => delimitedParameter_agrees
  refine hnamed.bind fun ns ns' hns => (starParameter_agrees hargs "kwarg").bind fun ks ks' hks => ?_
  refine .pure ?_
  simp [Similar, hps, hvs, hss, hns, hks]

/-! ## Literals, names and displays -/

theorem numberRule_agrees : AddsSimilar numberRule numberRule := by
  intro fragment fragment' hfragment
  exact .skip fun _ _ => .pure (by simp [Similar, hfragment])

theorem silent_stringTail (count : Nat) : Silent (stringTail count) := by
  induction count with
  | zero =>
    intro c ms c' h
    obtain ⟨rfl, -⟩ := pure_ok.1 h
    exact skeletons_nil
  | succ count ih =>
    intro c ms c' h
    simp only [stringTail, bind_ok, pure_ok] at h
    obtain ⟨_, _, -, _, _, -, _, _, -, more, _, hmore, rfl, -⟩ := h
    simp [ih _ _ _ hmore]

/-- However many literals a string has, it is one element. -/
theorem stringRule_agrees (h : n.Alike n') :
    AddsSimilar (stringRule n) (stringRule n') := by
  intro fragment fragment' hfragment
  refine .skip fun _ _ => .skip fun _ _ => .skip fun more more' => ?_
  refine ((silent_stringTail more).agrees (silent_stringTail more')).bind fun ts ts' hts => ?_
  refine .pure ?_
  simp [Similar, hfragment, h.ref, hts]

theorem nameRule_agrees (h : n.Alike n') : AddsSimilar (nameRule n) (nameRule n') := by
  intro fragment fragment' hfragment
  refine .skip fun _ _ => (h.field "id").bind fun id id' hid => ?_
  refine (Part.Alike.caption id id').bind fun ms ms' hms => .skip fun _ _ => ?_
  refine (h.fieldCls "ctx").bindEq fun ctx => .pure ?_
  simp [Similar, hfragment, hid.attrValue, hms]

theorem nameConstantRule_agrees : AddsSimilar nameConstantRule nameConstantRule := by
  intro fragment fragment' hfragment
  exact .skip fun _ _ => .pure (by simp [Similar, hfragment])

theorem ellipsisRule_agrees : AddsSimilar ellipsisRule ellipsisRule := by
  intro fragment fragment' hfragment
  exact .skip fun _ _ => .pure (by simp [Similar, hfragment])

theorem tupleItem_agrees (first : Bool) (h : p.Alike q) :
    AddsSimilar (tupleItem first p) (tupleItem first q) := by
  intro parent parent' hparent
  have hleft := (silent_text gapAfter).onlyIf (!first)
  refine (hleft.agrees hleft).bind fun ls ls' hls => ?_
  refine (h.addTo _ _ (by simp [Similar, hparent, hls])).bind fun ms ms' hms => ?_
  refine .skip fun _ _ => .pure ?_
  simp [Similar, hms]

theorem tupleRule_agrees (h : n.Alike n') : AddsSimilar (tupleRule n) (tupleRule n') := by
  intro fragment fragment' hfragment
  refine (h.fieldCls "ctx").bindEq fun ctx => (h.field "elts").bind fun elts elts' helts => ?_
  rw [helts.isPresent]
  refine .ite (helts.items.bind fun items items' hitems => ?_) ?_
  · cases hitems with
    | nil => exact .pure (by simp [Similar, hfragment])
    | cons hitem hitems =>
      refine (tupleItem_agrees true hitem).alone.bind fun hs hs' hhs => ?_
      refine (addEach_agrees hitems (fun _ _ => tupleItem_agrees false) _ _ hhs).bind
        fun ms ms' hms => .pure ?_
      simp [Similar, hfragment, hms]
  · exact .skip fun _ _ => .skip fun _ _ => .skip fun _ _ => .pure (by simp [Similar, hfragment])

theorem delimitedItem_agrees (h : p.Alike q) :
    AddsSimilar (delimitedItem p) (delimitedItem q) :=
  fun parent parent' hparent => (h.addTo parent parent' hparent).bind fun ms ms' hms =>
    .skip fun _ _ => .pure (by simp [Similar, hms])

theorem contextAttr_agrees (h : n.Alike n') :
    Agrees (· = ·) (contextAttr n) (contextAttr n') := by
  rw [contextAttr, contextAttr, h.has]
  exact .ite ((h.fieldCls "ctx").bindEq fun ctx => .pure rfl) (.pure rfl)

theorem listRule_agrees (h : n.Alike n') : AddsSimilar (listRule n) (listRule n') := by
  intro fragment fragment' hfragment
  refine (contextAttr_agrees h).bindEq fun attrs => .skip fun _ _ => ?_
  refine (h.fieldItems "elts").bind fun items items' hitems => ?_
  refine (addEach_agrees hitems (fun _ _ => delimitedItem_agrees) _ _ (by simp [Similar])).bind
    fun ms ms' hms => .skip fun _ _ => .pure ?_
  simp [Similar, hfragment, h.ref, hms]

theorem dictItem_agrees {e e' : Part × Part} (h : e.1.Alike e'.1 ∧ e.2.Alike e'.2) :
    Agrees Similar (dictItem e) (dictItem e') := by
  refine h.1.write.bind fun ks ks' hks => .skip fun _ _ => ?_
  refine (h.2.addTo _ _ (by simp [Similar, hks])).bind fun ms ms' hms => .skip fun _ _ => .pure ?_
  simp [Similar, hms]

theorem dictRule_agrees (h : n.Alike n') : AddsSimilar (dictRule n) (dictRule n') := by
  intro fragment fragment' hfragment
  refine .skip fun _ _ => (h.field "keys").bind fun ks ks' hks => ?_
  refine (h.field "values").bind fun vs vs' hvs => ?_
  refine hks.items.bind fun keys keys' hkeys => hvs.items.bind fun values values' hvalues => ?_
  refine (forEach_agrees (forall₂_zip hkeys hvalues) fun _ _ => dictItem_agrees).bind
    fun ms ms' hms => .skip fun _ _ => .pure ?_
  simp [Similar, hfragment, hms]

/-! ## Parts of objects -/

theorem starredRule_agrees (h : n.Alike n') :
    AddsSimilar (starredRule n) (starredRule n') := by
  intro fragment fragment' hfragment
  refine .skip fun _ _ => .skip fun _ _ => (h.fieldCls "ctx").bindEq fun ctx => ?_
  refine (h.addField "value" _ _ (by simp [Similar])).bind fun ms ms' hms => .pure ?_
  simp [Similar, hfragment, hms]

theorem attributeRule_agrees (h : n.Alike n') :
    AddsSimilar (attributeRule n) (attributeRule n') := by
  intro fragment fragment' hfragment
  refine (h.fieldCls "ctx").bindEq fun ctx => (h.writeField "value").bind fun ms ms' hms => ?_
  refine .skip fun _ _ => .skip fun _ _ => .pure ?_
  simp [Similar, hfragment, hms]

theorem subscriptRule_agrees (h : n.Alike n') :
    AddsSimilar (subscriptRule n) (subscriptRule n') := by
  intro fragment fragment' hfragment
  refine (h.fieldCls "ctx").bindEq fun ctx => (h.writeField "value").bind fun vs vs' hvs => ?_
  refine .skip fun _ _ => (h.addField "slice" _ _ (by simp [Similar])).bind fun ss ss' hss => ?_
  refine .skip fun _ _ => .pure ?_
  simp [Similar, hfragment, hvs, hss]

theorem indexRule_agrees (h : n.Alike n') : AddsSimilar (indexRule n) (indexRule n') := by
  intro fragment fragment' hfragment
  exact (h.writeField "value").bind fun ms ms' hms => .pure (by simp [Similar, hfragment, hms])

/-- Whether there is a second colon is up to the tokens, but it makes no element. -/
theorem sliceRule_agrees (h : n.Alike n') : AddsSimilar (sliceRule n) (sliceRule n') := by
  intro fragment fragment' hfragment
  refine (h.field "lower").bind fun lower lower' hlower => ?_
  refine (onlyIf_agrees hlower.isPresent (hlower.write.bind fun ms ms' hms =>
    .skip fun _ _ => .pure ?_)).bind fun ls ls' hls => .skip fun _ _ => ?_
  · simp [Similar, hms]
  refine (h.field "upper").bind fun upper upper' hupper => ?_
  refine (onlyIf_agrees hupper.isPresent (.skip fun _ _ => hupper.write.bind fun ms ms' hms =>
    .pure ?_)).bind fun us us' hus => .skip fun next next' => ?_
  · simp [Similar, hms]
  have hcolon := silent_text (enclosed true false)
  refine ((hcolon.onlyIf _).agrees (hcolon.onlyIf _)).bind fun cs cs' hcs => ?_
  refine (h.field "step").bind fun step step' hstep => ?_
  refine (onlyIf_agrees hstep.isPresent (.skip fun _ _ => hstep.write.bind fun ms ms' hms =>
    .pure ?_)).bind fun ss ss' hss => .pure ?_
  · simp [Similar, hms]
  · simp [Similar, hfragment, hls, hus, hcs, hss]

theorem extSliceRule_agrees (h : n.Alike n') : AddsSimilar (extSliceRule n) (extSliceRule n') := by
  intro fragment fragment' hfragment
  exact (h.fieldItems "dims").bind fun _ _ hdims =>
    addEach_agrees hdims (fun _ _ => delimitedItem_agrees) _ _ hfragment

/-! ## Operators -/

theorem binOpRule_agrees (h : n.Alike n') : AddsSimilar (binOpRule n) (binOpRule n') := by
  intro fragment fragment' hfragment
  refine (h.writeField "left").bind fun ls ls' hls => (h.field "op").bind fun op op' hop => ?_
  refine .skip fun _ _ => hop.cls.bindEq fun cls => ?_
  refine (h.addField "right" _ _ (by simp [Similar, hls])).bind fun ms ms' hms => .pure ?_
  simp [Similar, hfragment, h.ref, hms]

theorem boolOperand_agrees (h : p.Alike q) : Agrees Similar (boolOperand p) (boolOperand q) :=
  .skip fun _ _ => h.write.bind fun ms ms' hms => .pure (by simp [Similar, hms])

theorem boolOpRule_agrees (h : n.Alike n') : AddsSimilar (boolOpRule n) (boolOpRule n') := by
  intro fragment fragment' hfragment
  refine (h.fieldCls "op").bindEq fun op => (h.fieldItems "values").bind fun ps ps' hps => ?_
  cases hps with
  | nil => exact .pure (by simp [Similar, hfragment, h.ref])
  | cons hp hps =>
    refine hp.write.bind fun hs hs' hhs => ?_
    refine (forEach_agrees hps fun _ _ => boolOperand_agrees).bind fun ts ts' hts => .pure ?_
    simp [Similar, hfragment, h.ref, hhs, hts]

theorem unaryOpRule_agrees (h : n.Alike n') :
    AddsSimilar (unaryOpRule n) (unaryOpRule n') := by
  intro fragment fragment' hfragment
  refine .skip fun _ _ => .skip fun _ _ => (h.fieldCls "op").bindEq fun op => ?_
  refine (h.addField "operand" _ _ (by simp [Similar])).bind fun ms ms' hms => .pure ?_
  simp [Similar, hfragment, h.ref, hms]

theorem comparison_agrees {e e' : Part × Part} (h : e.1.Alike e'.1 ∧ e.2.Alike e'.2) :
    Agrees Similar (comparison e) (comparison e') := by
  refine .skip fun _ _ => .skip fun _ _ => .skip fun _ _ => .skip fun _ _ => ?_
  refine h.2.write.bind fun ms ms' hms => .pure ?_
  simp [Similar, hms]

theorem compareRule_agrees (h : n.Alike n') :
    AddsSimilar (compareRule n) (compareRule n') := by
  intro fragment fragment' hfragment
  refine (h.writeField "left").bind fun ls ls' hls => (h.field "ops").bind fun ops ops' hops => ?_
  refine (h.field "comparators").bind fun vs vs' hvs => ?_
  refine hops.items.bind fun signs signs' hsigns => hvs.items.bind fun values values' hvalues => ?_
  refine (forEach_agrees (forall₂_zip hsigns hvalues) fun _ _ => comparison_agrees).bind
    fun ts ts' hts => .pure ?_
  simp [Similar, hfragment, h.ref, hls, hts]

/-! ## Calls, conditions and functions -/

/-- A list that may be missing, in an element of its own. -/
theorem optionalList_agrees {f g : List Part → Scan (List Markup)} (tag : String) (h : p.Alike q)
    (hf : ∀ as bs, List.Forall₂ Part.Alike as bs → Agrees Similar (f as) (g bs)) :
    Agrees Similar
      (onlyIf p.isPresent do
        let inside ← f (← p.items)
        return [element tag [] inside])
      (onlyIf q.isPresent do
        let inside ← g (← q.items)
        return [element tag [] inside]) := by
  refine onlyIf_agrees h.isPresent (h.items.bind fun items items' hitems => ?_)
  refine (hf items items' hitems).bind fun ms ms' hms => .pure ?_
  simp [Similar, hms]

theorem callRule_agrees (h : n.Alike n') : AddsSimilar (callRule n) (callRule n') := by
  intro fragment fragment' hfragment
  refine (h.writeField "func").bind fun fs fs' hfs => .skip fun _ _ => ?_
  refine (h.field "args").bind fun args args' hargs => ?_
  refine (optionalList_agrees "args" hargs fun _ _ hitems =>
    (addEach_agrees hitems fun _ _ => delimitedItem_agrees).alone).bind fun as as' has => ?_
  refine (keywordsAndStar_agrees h).bind fun ks ks' hks => ?_
  refine (h.field "kwargs").bind fun kwargs kwargs' hkwargs => ?_
  refine (onlyIf_agrees hkwargs.isPresent (starArgument_agrees "kwargs" hkwargs)).bind
    fun ss ss' hss => .skip fun _ _ => .pure ?_
  simp [Similar, hfragment, hfs, has, hks, hss]

theorem ifExpRule_agrees (h : n.Alike n') : AddsSimilar (ifExpRule n) (ifExpRule n') := by
  intro fragment fragment' hfragment
  refine (h.writeField "body").bind fun bs bs' hbs => .skip fun _ _ => ?_
  refine (h.writeField "test").bind fun ts ts' hts => .skip fun _ _ => ?_
  refine (h.writeField "orelse").bind fun os os' hos => .pure ?_
  simp [Similar, hfragment, hbs, hts, hos]

theorem comprehensionIf_agrees (h : p.Alike q) :
    Agrees Similar (comprehensionIf p) (comprehensionIf q) :=
  .skip fun _ _ => (h.addTo _ _ (by simp [Similar])).bind fun ms ms' hms =>
    .pure (by simp [Similar, hms])

theorem comprehension_agrees (h : p.Alike q) :
    Agrees Similar (comprehension p) (comprehension q) := by
  refine .skip fun _ _ => (h.field "target").bind fun target target' htarget => ?_
  refine htarget.write.bind fun ts ts' hts => .skip fun _ _ => ?_
  refine (h.field "iter").bind fun iter iter' hiter => hiter.write.bind fun is is' his => ?_
  refine (h.field "ifs").bind fun ifs ifs' hifs => ?_
  refine (optionalList_agrees "ifs" hifs fun _ _ hitems =>
    forEach_agrees hitems fun _ _ => comprehensionIf_agrees).bind fun cs cs' hcs => .pure ?_
  simp [Similar, hts, his, hcs]

theorem comprehensionHead_agrees (h : n.Alike n') :
    Agrees Similar (comprehensionHead n) (comprehensionHead n') := by
  rw [comprehensionHead, comprehensionHead, h.has]
  refine .ite ?_ ?_
  · exact (h.writeField "elt").bind fun ms ms' hms => .pure (by simp [Similar, hms])
  · refine (h.writeField "key").bind fun ks ks' hks => .skip fun _ _ => ?_
    exact (h.writeField "value").bind fun vs vs' hvs => .pure (by simp [Similar, hks, hvs])

theorem comprehensionRule_agrees (h : n.Alike n') :
    AddsSimilar (comprehensionRule n) (comprehensionRule n') := by
  intro fragment fragment' hfragment
  have hbracket (before after : Bool) := silent_text (enclosed before after)
  refine (((hbracket _ _).onlyIf _).agrees ((hbracket _ _).onlyIf _)).bind fun ls ls' hls => ?_
  refine (comprehensionHead_agrees h).bind fun hs hs' hhs => ?_
  refine (h.fieldItems "generators").bind fun gens gens' hgens => ?_
  refine (forEach_agrees hgens fun _ _ => comprehension_agrees).bind fun gs gs' hgs => ?_
  refine (((hbracket _ _).onlyIf _).agrees ((hbracket _ _).onlyIf _)).bind fun rs rs' hrs => ?_
  refine .pure ?_
  simp [Similar, hfragment, h.ref, hls, hhs, hgs, hrs]

theorem lambdaRule_agrees (h : n.Alike n') : AddsSimilar (lambdaRule n) (lambdaRule n') := by
  intro fragment fragment' hfragment
  refine .skip fun _ _ => .skip fun _ _ => (parameters_agrees h).bind fun ps ps' hps => ?_
  refine .skip fun _ _ => (h.writeField "body").bind fun bs bs' hbs => .pure ?_
  simp [Similar, hfragment, hps, hbs]

theorem yieldRule_agrees (h : n.Alike n') : AddsSimilar (yieldRule n) (yieldRule n') := by
  intro fragment fragment' hfragment
  have hfrom : Silent (do
      let u ← expect (·.text = "from")
      let after ← gapAfter
      return [text (u.text ++ after)]) := by
    intro c ms c' hms
    simp only [bind_ok, pure_ok] at hms
    obtain ⟨_, _, -, _, _, -, rfl, -⟩ := hms
    simp
  refine .skip fun _ _ => .skip fun _ _ => ?_
  refine ((hfrom.onlyIf _).agrees (hfrom.onlyIf _)).bind fun fs fs' hfs => ?_
  refine (h.field "value").bind fun value value' hvalue => ?_
  refine (orIdle_agrees hvalue.isPresent hvalue.addTo _ _ (by simp [Similar, hfs])).bind
    fun ms ms' hms => .pure ?_
  simp [Similar, hfragment, h.ref, hms]

end

end SourceScribe.Conversion
