/-
  The arguments of calls and the parameters of functions account for their tokens.
-/
import SourceScribe.Proofs.Conversion.Writing

namespace SourceScribe.Conversion

open Scan Markup

variable {R : Cursor → Bool → String → Cursor → Bool → Prop} (L : Ledger R)
variable {c c' c₁ : Cursor} {ms : List Markup} {e : Markup} {n : Site}
include L

/-! ## Arguments of a call -/

theorem starArgument_written {field : String} {arg : Part} (hf : isWord field = true)
    (ha : IsExpression R arg) (h : starArgument field arg c = .ok ms c') :
    Written R c true ms c' true := by
  simp only [starArgument, bind_ok, pure_ok] at h
  obtain ⟨t, c₁, ht, after, c₂, hg, inside, c₃, hi, comma, c₄, hc, rfl, rfl⟩ := h
  obtain ⟨added, rfl, hadded⟩ := ha _ _ _ _ hi
  refine Written.cons_element L hf ?_ (Written.text (L.delimiter hc))
  exact Written.append L (Written.caption (L.trans (L.expectShown ht) (L.gapAfter hg))) hadded

theorem keywordArgument_written {keyword : Part} (hk : IsKeyword R keyword)
    (h : keywordArgument keyword c = .ok ms c') : Written R c true ms c' true := by
  simp only [keywordArgument, bind_ok, pure_ok, Part.field_ok, inPlaceOf_ok] at h
  obtain ⟨t, c₁, ht, name, _, ⟨-, rfl⟩, arg, c₂, harg, _, _, rfl, equal, c₃, heq, p, _, ⟨hp, rfl⟩,
    value, c₄, hv, comma, c₅, hc, rfl, rfl⟩ := h
  obtain ⟨-, hpa, rfl⟩ := Part.caption_ok harg
  have hname : Written R c true arg _ false := ⟨L.replaced (L.expectShown ht), hpa⟩
  refine Written.cons_element L (by decide) ?_ (Written.text (L.delimiter hc))
  refine Written.cons_element L (by decide) hname (Written.cons_text L (L.enclosed heq) ?_)
  exact Written.element (by decide) ((hk p hp).alone hv)

omit L in
theorem keywordPlace_part {keyword : Part} {a : Argument}
    (h : keywordPlace keyword c = .ok a c') : a.part = keyword ∧ a.starred = false ∧ c = c' := by
  simp only [keywordPlace, bind_ok, pure_ok, Part.field_ok] at h
  obtain ⟨value, _, ⟨-, rfl⟩, place, c₁, hp, rfl, rfl⟩ := h
  refine ⟨rfl, rfl, ?_⟩
  cases value with
  | node ref fields start add => exact (orFail_ok.1 hp).2
  | leaf | letter | list => exact (fail_ok.1 hp).elim

omit L in
theorem keywordPlaces_part {keywords : List Part} {as : List Argument}
    (h : keywordPlaces keywords c = .ok as c') :
    (∀ a ∈ as, a.part ∈ keywords ∧ a.starred = false) ∧ c = c' := by
  induction keywords generalizing c as with
  | nil =>
    obtain ⟨rfl, rfl⟩ := pure_ok.1 h
    exact ⟨by simp, rfl⟩
  | cons k ks ih =>
    simp only [keywordPlaces, bind_ok, pure_ok] at h
    obtain ⟨a, c₁, ha, as', c₂, has, rfl, rfl⟩ := h
    obtain ⟨rfl, hs, rfl⟩ := keywordPlace_part ha
    obtain ⟨hks, rfl⟩ := ih has
    refine ⟨fun a' ha' => ?_, rfl⟩
    rcases List.mem_cons.1 ha' with rfl | ha'
    · exact ⟨by simp, hs⟩
    · exact ⟨by simp [(hks a' ha').1], (hks a' ha').2⟩

omit L in
theorem starPlace_part {star : Part} {as : List Argument} (h : starPlace star c = .ok as c') :
    (∀ a ∈ as, a.part = star ∧ a.starred = true) ∧ c = c' := by
  rw [starPlace] at h
  split at h
  · simp only [bind_ok, pure_ok] at h
    obtain ⟨place, c₁, hp, rfl, rfl⟩ := h
    refine ⟨by simp, ?_⟩
    cases star with
    | node ref fields start add => exact (orFail_ok.1 hp).2
    | leaf | letter | list => exact (fail_ok.1 hp).elim
  · obtain ⟨rfl, rfl⟩ := pure_ok.1 h
    exact ⟨by simp, rfl⟩

/-- The order of the arguments does not matter for the account: each is written where
    the cursor is. -/
theorem keywordsAndStar_written (hs : Holds n.fields "starargs" (IsExpression R))
    (hk : Holds n.fields "keywords" (Each (IsKeyword R)))
    (h : keywordsAndStar n c = .ok ms c') : Written R c true ms c' true := by
  simp only [keywordsAndStar, bind_ok, Site.field_ok, Site.fieldItems_ok] at h
  obtain ⟨star, _, ⟨hstar, rfl⟩, starred, c₁, hp, keywords, _, ⟨⟨p, hkp, hki⟩, rfl⟩, named, c₂, hn,
    h⟩ := h
  obtain ⟨hst, rfl⟩ := starPlace_part hp
  obtain ⟨hnm, rfl⟩ := keywordPlaces_part hn
  split at h
  · exact (fail_ok.1 h).elim
  · refine forEach_written L (fun a ha c ms c' h => ?_) h
    rw [List.mem_mergeSort, List.mem_append] at ha
    rcases ha with ha | ha
    · obtain ⟨rfl, hb⟩ := hst a ha
      rw [if_pos hb] at h
      exact starArgument_written L (by decide) (hs _ hstar) h
    · obtain ⟨hmem, hb⟩ := hnm a ha
      rw [if_neg (by simp [hb])] at h
      exact keywordArgument_written L (hk p hkp _ _ _ hki _ hmem) h

/-! ## Parameters of a function -/

theorem annotation_written {ann : Part} (ha : IsExpression R ann)
    (h : annotation ann c = .ok ms c') : Written R c false ms c' false := by
  refine onlyIf_written L (fun _ ms c' h => ?_) h
  simp only [bind_ok, pure_ok] at h
  obtain ⟨t, c₁, ht, colon, c₂, hc, inside, c₃, hi, rfl, rfl⟩ := h
  obtain ⟨added, rfl, hadded⟩ := ha _ _ _ _ hi
  exact Written.element (by decide) (Written.cons_text L (L.expectWithGaps ht hc) hadded)

theorem parameterDefault_written {default? : Option Part}
    (hd : ∀ d ∈ default?, IsExpression R d) (h : parameterDefault default? c = .ok ms c') :
    Written R c false ms c' false := by
  cases default? with
  | none =>
    obtain ⟨rfl, rfl⟩ := pure_ok.1 h
    exact Written.nil L c false
  | some d =>
    refine onlyIf_written L (fun _ ms c' h => ?_) h
    simp only [bind_ok, pure_ok] at h
    obtain ⟨t, c₁, ht, equal, c₂, hc, inside, c₃, hi, rfl, rfl⟩ := h
    obtain ⟨added, rfl, hadded⟩ := hd d rfl _ _ _ _ hi
    exact Written.element (by decide) (Written.cons_text L (L.expectWithGaps ht hc) hadded)

/-- The name of the parameter is the token `t`, taken just before. -/
theorem parameter_written {t : Token} {arg : Part} {default? : Option Part} {kwonly b : Bool}
    {c₀ : Cursor} (ht : R c₀ b t.text c false) (ha : IsParameter R arg)
    (hd : ∀ d ∈ default?, IsExpression R d) (h : parameter t arg default? kwonly c = .ok e c') :
    Written R c₀ b [e] c' false := by
  simp only [parameter, bind_ok, pure_ok, Part.field_ok, Part.asText_ok, inPlaceOf_ok] at h
  obtain ⟨name, _, ⟨-, rfl⟩, nameText, _, ⟨-, rfl⟩, _, _, rfl, ann, _, ⟨hann, rfl⟩, annPart, c₁, h₁,
    defaultPart, c₂, h₂, rfl, rfl⟩ := h
  have hspelt : R c₀ b nameText (c.remark (.replaced t.text nameText)) false := L.replaced ht
  have hw := Written.cons_text L hspelt
    (Written.append L (annotation_written L (ha ann hann) h₁) (parameterDefault_written L hd h₂))
  refine Written.elementWith (by decide) ?_ (fun a haa => ?_) hw
  · cases kwonly <;> simp [attrsNamed, isWord]
  · have hname : Drawn nameText (contents (.text nameText :: (annPart ++ defaultPart))) := by
      rw [contents_cons, content_text]
      exact (drawn_self nameText).append_right _
    rcases List.mem_cons.1 haa with rfl | haa
    · exact hname
    · cases kwonly with
      | false => simp at haa
      | true =>
        obtain rfl := List.mem_singleton.1 haa
        exact drawn_empty _

theorem delimitedParameter_written {kwonly : Bool} {entry : Part × Option Part}
    (ha : IsParameter R entry.1) (hd : ∀ d ∈ entry.2, IsExpression R d)
    (h : delimitedParameter kwonly entry c = .ok ms c') : Written R c true ms c' true := by
  simp only [delimitedParameter, bind_ok, pure_ok] at h
  obtain ⟨t, c₁, ht, arg, c₂, harg, comma, c₃, hc, rfl, rfl⟩ := h
  exact Written.append L (parameter_written L (L.expectShown ht) ha hd harg)
    (Written.text (L.delimiter hc))

theorem starParameter_written {arguments : Part} {field : String} (hf : isWord field = true)
    (ha : Holds arguments.parts field (IsParameter R))
    (h : starParameter arguments field c = .ok ms c') : Written R c true ms c' true := by
  simp only [starParameter, bind_ok, Part.field_ok] at h
  obtain ⟨arg, _, ⟨harg, rfl⟩, h⟩ := h
  split at h
  · simp only [bind_ok, pure_ok] at h
    obtain ⟨t, c₁, ht, name, c₂, hn, between, c₃, hb, inside, c₄, hi, comma, c₅, hc, rfl, rfl⟩ := h
    have hg := L.gapBefore (expect_ok.1 hn).1 hb
    obtain ⟨-, rfl⟩ := gapBefore_ok.1 hb
    refine Written.cons_element L hf ?_ (Written.text (L.delimiter hc))
    exact Written.cons_text L (L.expectShown ht) (Written.cons_text L hg
      (parameter_written L (L.expect hn) (ha arg harg) (by simp) hi))
  · obtain ⟨rfl, rfl⟩ := pure_ok.1 h
    exact Written.nil L c true

omit L in
theorem mem_alignDefaults {count : Nat} {defaults : List Part} {d : Part}
    (h : some d ∈ alignDefaults count defaults) : d ∈ defaults := by
  rw [alignDefaults, List.mem_append] at h
  rcases h with h | h
  · simp at h
  · simpa using h

theorem positionalParameters_written {arguments : Part} (ha : IsParameters R arguments)
    (h : positionalParameters arguments c = .ok ms c') : Written R c true ms c' true := by
  simp only [positionalParameters, bind_ok, Part.field_ok] at h
  obtain ⟨args, _, ⟨hargs, rfl⟩, h⟩ := h
  split at h
  · simp only [bind_ok, Part.field_ok] at h
    obtain ⟨defaultField, _, ⟨hdef, rfl⟩, items, c₁, hi, h⟩ := h
    have hitems := ha.args args hargs _ _ _ hi
    obtain rfl := Part.items_ok hi
    split at h
    · rename_i defaults
      have hdefaults := ha.defaults _ hdef c defaults c rfl
      refine forEach_written L (fun entry he c ms c' h => ?_) h
      refine delimitedParameter_written L (hitems _ (List.of_mem_zip he).1) (fun d hd => ?_) h
      rw [Option.mem_def] at hd
      exact hdefaults d (mem_alignDefaults (hd ▸ (List.of_mem_zip he).2))
    · exact (fail_ok.1 h).elim
  · obtain ⟨rfl, rfl⟩ := pure_ok.1 h
    exact Written.nil L c true

/-- A star stands alone only if the account allows for it: where keyword-only parameters
    come after a starred one there is none. -/
theorem bareStar_written {arguments kwonly : Part} (ha : IsParameters R arguments)
    (hk : arguments.parts.lookup "kwonlyargs" = some kwonly)
    (h : bareStar arguments kwonly c = .ok ms c') : Written R c true ms c' true := by
  simp only [bareStar, bind_ok, Part.field_ok] at h
  obtain ⟨vararg, _, ⟨hv, rfl⟩, h⟩ := h
  split at h
  · rename_i hp
    rw [Bool.and_eq_true, Bool.not_eq_true'] at hp
    rcases ha.starred with I | hstarred
    · simp only [bind_ok, pure_ok, idle_ok] at h
      obtain ⟨t, c₁, ht, after, c₂, hafter, _, _, hi, comma, c₃, hcomma, rfl, rfl⟩ := h
      obtain ⟨htake, hstar⟩ := expect_ok.1 ht
      have htext : t.text = "*" := Token.text_of_isOp hstar (by decide)
      have hspelt := I.take (by rw [htext]; decide) htake hafter hi
      rw [htext] at hspelt
      exact Written.cons_text L hspelt (Written.text (L.delimiter hcomma))
    · have hpresent : vararg.isPresent = true := hstarred kwonly hk hp.1 vararg hv
      rw [hp.2] at hpresent
      exact absurd hpresent (by decide)
  · obtain ⟨rfl, rfl⟩ := pure_ok.1 h
    exact Written.nil L c true

theorem parameters_written (ha : Holds n.fields "args" (IsParameters R))
    (h : parameters n c = .ok ms c') : Written R c true ms c' true := by
  simp only [parameters, bind_ok, pure_ok, Site.field_ok, Part.field_ok] at h
  obtain ⟨arguments, _, ⟨harg, rfl⟩, positional, c₁, h₁, vararg, c₂, h₂, kwonly, _, ⟨hk, rfl⟩,
    defaults, _, ⟨hd, rfl⟩, star, c₃, h₃, kwItems, c₄, hki, defaultItems, c₅, hdi, named, c₆, h₄,
    kwarg, c₇, h₅, rfl, rfl⟩ := h
  have hp := ha arguments harg
  have hstar := bareStar_written L hp hk h₃
  have hkw := hp.kwonlyargs kwonly hk _ _ _ hki
  obtain rfl := Part.items_ok hki
  have hdf := hp.kwDefaults defaults hd _ _ _ hdi
  obtain rfl := Part.items_ok hdi
  have hnamed : Written R c₃ true named c₆ true := by
    refine forEach_written L (fun entry he c ms c' h => ?_) h₄
    refine delimitedParameter_written L (hkw _ (List.of_mem_zip he).1) (fun d hd => ?_) h
    obtain ⟨d', hd', he'⟩ := List.mem_map.1 (List.of_mem_zip he).2
    rw [Option.mem_def, ← he', Option.some.injEq] at hd
    exact hd ▸ hdf d' hd'
  have hpos := Written.append L (positionalParameters_written L hp h₁)
    (starParameter_written L (by decide) hp.vararg h₂)
  exact Written.append L (Written.append L (Written.append L hpos hstar) hnamed)
    (starParameter_written L (by decide) hp.kwarg h₅)

end SourceScribe.Conversion
