/-
  The rules for statements write the same skeleton in two runs.

  There are two exceptions.  The arguments of a class are left out if no parenthesis
  follows its name.  And of several statements after `else`, only the first one is written
  if the source has `elif` there; for a single one it makes no difference
  (`elsePart_agrees`).
-/
import SourceScribe.Proofs.Conversion.Skeleton.Expressions

namespace SourceScribe.Conversion

open Scan Markup

variable {p q : Part} {n n' : Site}

/-! ## Blocks -/

theorem afterGap_agrees {rule rule' : Scan Markup} (h : Agrees SimilarOne rule rule') :
    AddsSimilar (afterGap rule) (afterGap rule') :=
  fun parent parent' hparent => .skip fun _ _ => h.bind fun e e' he =>
    .pure (by simp [Similar, hparent, he])

theorem block_agrees (h : n.Alike n') (field lead lead' : String) :
    Agrees SimilarOne (block n field lead) (block n' field lead') := by
  refine (h.fieldItems field).bind fun items items' hitems => ?_
  refine (addEach_agrees hitems (fun _ _ hpq => hpq.addTo) _ _ (by simp [Similar])).bind
    fun ms ms' hms => .pure ?_
  simp [SimilarOne, hms]

theorem keywordBlock_agrees (h : n.Alike n') (field keyword : String) :
    Agrees SimilarOne (keywordBlock n field keyword) (keywordBlock n' field keyword) :=
  .skip fun _ _ => .skip fun _ _ => .skip fun _ _ => block_agrees h field _ _

theorem optionalBlock_agrees (h : n.Alike n') (field keyword : String) :
    Agrees Similar (optionalBlock n field keyword) (optionalBlock n' field keyword) := by
  refine (h.field field).bind fun part part' hpart => ?_
  rw [hpart.isPresent]
  refine .ite (.skip fun _ _ => ?_) (.pure rfl)
  exact (keywordBlock_agrees h field keyword).bind fun b b' hb => .pure (by simp [Similar, hb])

/-! ## Simple statements -/

theorem exprRule_agrees (h : n.Alike n') : Agrees SimilarOne (exprRule n) (exprRule n') :=
  (h.writeField "value").bind fun ms ms' hms => .pure (by simp [SimilarOne, hms])

theorem wordRule_agrees (h : n.Alike n') : Agrees SimilarOne (wordRule n) (wordRule n') :=
  .skip fun _ _ => .pure (by simp [SimilarOne, h.ref])

/-- A part that may be missing, in an element of its own after a token. -/
theorem optionalMarked_agrees (wanted : Token → Bool) (tag : String) (h : p.Alike q) :
    Agrees Similar
      (onlyIf p.isPresent do
        let _ ← expect wanted
        let between ← withGaps
        let inside ← p.write
        return [text between, element tag [] inside])
      (onlyIf q.isPresent do
        let _ ← expect wanted
        let between ← withGaps
        let inside ← q.write
        return [text between, element tag [] inside]) := by
  refine onlyIf_agrees h.isPresent (.skip fun _ _ => .skip fun _ _ => ?_)
  refine h.write.bind fun ms ms' hms => .pure ?_
  simp [Similar, hms]

theorem assertRule_agrees (h : n.Alike n') : Agrees SimilarOne (assertRule n) (assertRule n') := by
  refine .skip fun _ _ => .skip fun _ _ => (h.writeField "test").bind fun ts ts' hts => ?_
  refine (h.field "msg").bind fun msg msg' hmsg => ?_
  refine (optionalMarked_agrees _ "msg" hmsg).bind fun ms ms' hms => .pure ?_
  simp [SimilarOne, hts, hms]

theorem assignTarget_agrees (h : p.Alike q) : AddsSimilar (assignTarget p) (assignTarget q) :=
  fun parent parent' hparent => (h.addTo parent parent' hparent).bind fun ms ms' hms =>
    .skip fun _ _ => .skip fun _ _ => .pure (by simp [Similar, hms])

theorem assignRule_agrees (h : n.Alike n') : Agrees SimilarOne (assignRule n) (assignRule n') := by
  refine (h.fieldItems "targets").bind fun items items' hitems => ?_
  refine (addEach_agrees hitems fun _ _ => assignTarget_agrees).alone.bind fun ts ts' hts => ?_
  refine (h.addField "value" _ _ (by simp [Similar, hts])).bind fun ms ms' hms => .pure ?_
  simp [SimilarOne, hms]

theorem augAssignRule_agrees (h : n.Alike n') :
    Agrees SimilarOne (augAssignRule n) (augAssignRule n') := by
  refine (h.writeField "target").bind fun ts ts' hts => .skip fun _ _ => ?_
  refine (h.field "op").bind fun op op' hop => hop.cls.bindEq fun cls => .skip fun _ _ => ?_
  refine (h.writeField "value").bind fun vs vs' hvs => .pure ?_
  simp [SimilarOne, hts, hvs]

theorem deleteRule_agrees (h : n.Alike n') : Agrees SimilarOne (deleteRule n) (deleteRule n') := by
  refine .skip fun _ _ => .skip fun _ _ => (h.fieldItems "targets").bind fun ps ps' hps => ?_
  refine (addEach_agrees hps fun _ _ => delimitedItem_agrees).alone.bind fun ms ms' hms => .pure ?_
  simp [SimilarOne, hms]

theorem declaredName_agrees (h : p.Alike q) : Agrees Similar (declaredName p) (declaredName q) := by
  refine .skip fun _ _ => h.itemValue.bind fun name name' _ => ?_
  refine (Part.Alike.caption name name').bind fun ms ms' hms => ?_
  refine .skip fun _ _ => .skip fun _ _ => .pure ?_
  simp [Similar, hms]

theorem declareRule_agrees (h : n.Alike n') :
    Agrees SimilarOne (declareRule n) (declareRule n') := by
  refine .skip fun _ _ => .skip fun _ _ => (h.fieldItems "names").bind fun ps ps' hps => ?_
  refine (forEach_agrees hps fun _ _ => declaredName_agrees).bind fun ms ms' hms => .pure ?_
  simp [SimilarOne, h.ref, hms]

theorem returnValue_agrees (h : p.Alike q) : AddsSimilar (returnValue p) (returnValue q) :=
  fun parent parent' hparent => .skip fun _ _ => h.addTo _ _ (by simp [Similar, hparent])

theorem returnRule_agrees (h : n.Alike n') : Agrees SimilarOne (returnRule n) (returnRule n') := by
  refine .skip fun _ _ => (h.field "value").bind fun value value' hvalue => ?_
  refine (addIf_agrees hvalue.isPresent (returnValue_agrees hvalue) _ _ rfl).bind
    fun ms ms' hms => .pure ?_
  simp [SimilarOne, hms]

theorem raiseRule_agrees (h : n.Alike n') : Agrees SimilarOne (raiseRule n) (raiseRule n') := by
  refine .skip fun _ _ => (h.field "exc").bind fun exc exc' hexc => ?_
  refine (onlyIf_agrees hexc.isPresent (.skip fun _ _ => hexc.write.bind fun ms ms' hms =>
    .pure ?_)).bind fun es es' hes => ?_
  · simp [Similar, hms]
  refine (h.field "cause").bind fun cause cause' hcause => ?_
  refine (optionalMarked_agrees _ "cause" hcause).bind fun cs cs' hcs => .pure ?_
  simp [SimilarOne, hes, hcs]

/-! ## Imports -/

theorem importedName_agrees (h : p.Alike q) : Agrees Similar (importedName p) (importedName q) := by
  refine .skip fun _ _ => (h.field "name").bind fun name name' _ => ?_
  refine (Part.Alike.caption name name').bind fun ns ns' hns => .skip fun _ _ => ?_
  cases h with
  | node hfields =>
    refine (Agrees.orFail (hfields "asname")).bind fun asname asname' hasname => ?_
    refine (onlyIf_agrees hasname.isPresent (.skip fun _ _ => .skip fun _ _ => .skip fun _ _ =>
      (Part.Alike.caption asname asname').bind fun ms ms' hms => .skip fun _ _ => .pure ?_)).bind
        fun as as' has => .skip fun _ _ => .pure ?_
    · simp [Similar, hms]
    · simp [Similar, hns, has]
  | leaf | letter | list => exact Agrees.fail_left.bind fun _ _ (hfalse : False) => hfalse.elim

theorem importRule_agrees (h : n.Alike n') : Agrees SimilarOne (importRule n) (importRule n') := by
  refine .skip fun _ _ => .skip fun _ _ => (h.fieldItems "names").bind fun ps ps' hps => ?_
  refine (forEach_agrees hps fun _ _ => importedName_agrees).bind fun ms ms' hms => .pure ?_
  simp [SimilarOne, hms]

/-- Neither the dots nor the name of the module nor parentheses around the names make an
    element that is not there anyway. -/
theorem importFromRule_agrees (h : n.Alike n') :
    Agrees SimilarOne (importFromRule n) (importFromRule n') := by
  refine (h.field "level").bind fun level level' hlevel => ?_
  refine .skip fun _ _ => .skip fun _ _ => .skip fun _ _ => .skip fun _ _ => ?_
  refine .skip fun _ _ => .skip fun _ _ => .skip fun next next' => ?_
  have hparen := silent_text (enclosed false true)
  refine ((hparen.onlyIf _).agrees (hparen.onlyIf _)).bind fun ls ls' hls => ?_
  refine (h.fieldItems "names").bind fun ps ps' hps => ?_
  refine (forEach_agrees hps fun _ _ => importedName_agrees).bind fun ms ms' hms => ?_
  refine ((hparen.onlyIf _).agrees (hparen.onlyIf _)).bind fun rs rs' hrs => .pure ?_
  simp [SimilarOne, hlevel.plain, hls, hms, hrs]

/-! ## Definitions -/

theorem decorator_agrees (h : p.Alike q) : Agrees Similar (decorator p) (decorator q) :=
  .skip fun _ _ => .skip fun _ _ => (h.addTo _ _ (by simp [Similar])).bind fun ms ms' hms =>
    .skip fun _ _ => .pure (by simp [Similar, hms])

theorem returnsPart_agrees (h : n.Alike n') : Agrees Similar (returnsPart n) (returnsPart n') := by
  refine (h.field "returns").bind fun returns returns' hreturns => ?_
  rw [hreturns.isPresent]
  refine .ite (.skip fun _ _ => .skip fun _ _ => .skip fun _ _ => ?_) (.pure rfl)
  refine (hreturns.addTo _ _ (by simp [Similar])).bind fun ms ms' hms => .skip fun _ _ => .pure ?_
  simp [Similar, hms]

theorem functionDefRule_agrees (h : n.Alike n') :
    Agrees SimilarOne (functionDefRule n) (functionDefRule n') := by
  refine (h.fieldItems "decorator_list").bind fun decos decos' hdecos => ?_
  refine (forEach_agrees hdecos fun _ _ => decorator_agrees).bind fun ds ds' hds => ?_
  refine .skip fun _ _ => .skip fun _ _ => .skip fun _ _ => ?_
  refine (h.field "name").bind fun part part' hpart => hpart.asText.bindEq fun name => ?_
  refine .skip fun _ _ => .skip fun _ _ => (parameters_agrees h).bind fun ps ps' hps => ?_
  refine .skip fun _ _ => .skip fun _ _ => (returnsPart_agrees h).bind fun rs rs' hrs => ?_
  refine .skip fun _ _ => (block_agrees h "body" _ _).bind fun b b' hb => .pure ?_
  simp [SimilarOne, hds, hps, hrs, hb]

/-! ## Compound statements -/

/-- A part with an item that can be written is a list. -/
theorem Part.eq_list_of_addTo {ps : List Part} {c c' c₁ c₂ : Cursor}
    {before ms : List Markup} (hp : p.items c = .ok ps c') (hq : q ∈ ps)
    (hadd : q.addTo before c₁ = .ok ms c₂) : p = .list ps := by
  cases p with
  | list items =>
    obtain ⟨rfl, -⟩ := pure_ok.1 hp
    rfl
  | leaf v =>
    cases v with
    | str | bytes =>
      obtain ⟨rfl, -⟩ := pure_ok.1 hp
      obtain ⟨_, -, rfl⟩ := List.mem_map.1 hq
      exact (fail_ok.1 hadd).elim
    | none | bool | int | real | complex | ellipsis => exact (fail_ok.1 hp).elim
  | letter | node => exact (fail_ok.1 hp).elim

/-- After `elif` and after `else`, the only statement is written in one element. -/
theorem elsePart_ok {c c' : Cursor} {ms : List Markup}
    (hsole : ∀ items, n.fields.lookup "orelse" = some (.list items) → items.length ≤ 1)
    (h : elsePart n c = .ok ms c') : ∃ p, n.fields.lookup "orelse" = some p ∧
      if p.isPresent then ∃ q lead c₁ inside c₂, p = .list [q] ∧ skeletons lead = [] ∧
        q.addTo lead c₁ = .ok inside c₂ ∧ skeletons ms = [element "orelse" [] (skeletons inside)]
      else ms = [] := by
  simp only [elsePart, bind_ok, Site.field_ok] at h
  obtain ⟨p, _, ⟨hp, rfl⟩, h⟩ := h
  refine ⟨p, hp, ?_⟩
  split at h
  · rename_i hpresent
    rw [if_pos hpresent]
    simp only [bind_ok, peek_ok] at h
    obtain ⟨before, c₁, -, next, _, ⟨-, rfl⟩, h⟩ := h
    split at h
    · -- the first statement, which is an `if` of its own
      simp only [Part.first, bind_ok, pure_ok, orFail_ok] at h
      obtain ⟨q, _, ⟨ps, _, hps, hhead, rfl⟩, inside, c₂, hq, rfl, rfl⟩ := h
      obtain ⟨qs, rfl⟩ := List.head?_eq_some_iff.1 hhead
      obtain rfl := Part.eq_list_of_addTo hps List.mem_cons_self hq
      obtain rfl : qs = [] := List.length_eq_zero_iff.1 (by simpa using hsole _ hp)
      exact ⟨q, [], _, inside, c₂, rfl, rfl, hq, by simp⟩
    · -- all statements
      simp only [bind_ok, pure_ok] at h
      obtain ⟨b, _, hb, rfl, rfl⟩ := h
      simp only [keywordBlock, block, bind_ok, pure_ok, Site.fieldItems_ok] at hb
      obtain ⟨_, _, -, lead, _, -, _, _, -, ps, _, ⟨⟨_, hp', hps⟩, rfl⟩, inside, _, hinside, rfl,
        rfl⟩ := hb
      obtain rfl := Option.some.inj (hp.symm.trans hp')
      obtain ⟨q, qs, rfl⟩ := List.exists_cons_of_ne_nil (Part.items_ne_nil hpresent hps)
      simp only [addEach, bind_ok] at hinside
      obtain ⟨ms, c₂, hq, hqs⟩ := hinside
      obtain rfl := Part.eq_list_of_addTo hps List.mem_cons_self hq
      obtain rfl : qs = [] := List.length_eq_zero_iff.1 (by simpa using hsole _ hp)
      obtain ⟨rfl, -⟩ := pure_ok.1 hqs
      exact ⟨q, _, _, ms, c₂, rfl, by simp, hq, by simp⟩
  · rename_i hpresent
    rw [if_neg hpresent]
    exact (pure_ok.1 h).1.symm

/-- With at most one statement after `else`, it does not matter whether the source has
    `elif` there. -/
theorem elsePart_agrees (h : n.Alike n')
    (hsole : ∀ items, n.fields.lookup "orelse" = some (.list items) → items.length ≤ 1) :
    Agrees Similar (elsePart n) (elsePart n') := by
  intro c ms c₁ c' ms' c₁' hms hms'
  have hrel := h.fields "orelse"
  have hsole' : ∀ items, n'.fields.lookup "orelse" = some (.list items) → items.length ≤ 1 := by
    intro items hitems
    rw [hitems] at hrel
    generalize hp : n.fields.lookup "orelse" = o at hrel
    cases hrel with
    | some hpq =>
      cases hpq with
      | list hlist => rw [← hlist.length_eq]; exact hsole _ hp
  obtain ⟨p, hp, hthere⟩ := elsePart_ok hsole hms
  obtain ⟨q, hq, hthere'⟩ := elsePart_ok hsole' hms'
  rw [hp, hq] at hrel
  cases hrel with
  | some hpq =>
    rw [hpq.isPresent] at hthere
    split at hthere
    · rename_i hpresent
      rw [if_pos hpresent] at hthere'
      obtain ⟨p, lead, _, inside, _, rfl, hlead, hinside, hskeleton⟩ := hthere
      obtain ⟨q, lead', _, inside', _, rfl, hlead', hinside', hskeleton'⟩ := hthere'
      cases hpq with
      | list hlist =>
        cases hlist with
        | cons hpq _ =>
          have hsame : Similar inside inside' :=
            hpq.addTo lead lead' (hlead.trans hlead'.symm) _ _ _ _ _ _ hinside hinside'
          rw [Similar, hskeleton, hskeleton', hsame]
    · rename_i hpresent
      rw [if_neg hpresent] at hthere'
      rw [hthere, hthere']

theorem conditionRule_agrees (h : n.Alike n')
    (hsole : ∀ items, n.fields.lookup "orelse" = some (.list items) → items.length ≤ 1) :
    Agrees SimilarOne (conditionRule n) (conditionRule n') := by
  refine .skip fun _ _ => .skip fun _ _ => (h.writeField "test").bind fun ts ts' hts => ?_
  refine .skip fun _ _ => (block_agrees h "body" _ _).bind fun b b' hb => ?_
  refine (elsePart_agrees h hsole).bind fun os os' hos => .pure ?_
  simp [SimilarOne, h.ref, hts, hb, hos]

theorem forRule_agrees (h : n.Alike n') : Agrees SimilarOne (forRule n) (forRule n') := by
  refine .skip fun _ _ => .skip fun _ _ => (h.writeField "target").bind fun ts ts' hts => ?_
  refine .skip fun _ _ => .skip fun _ _ => (h.writeField "iter").bind fun is is' his => ?_
  refine .skip fun _ _ => (block_agrees h "body" _ _).bind fun b b' hb => ?_
  refine (optionalBlock_agrees h "orelse" "else").bind fun os os' hos => .pure ?_
  simp [SimilarOne, h.ref, hts, his, hb, hos]

theorem namedType_agrees (h : n.Alike n') (hpq : p.Alike q) :
    AddsSimilar (namedType n p) (namedType n' q) := by
  intro parent parent' hparent
  refine hpq.write.bind fun ts ts' hts => ?_
  refine (h.field "name").bind fun name name' hname => ?_
  refine (onlyIf_agrees hname.isPresent (.skip fun _ _ => .skip fun _ _ => .skip fun _ _ =>
    (Part.Alike.caption name name').bind fun ms ms' hms => .skip fun _ _ => .pure ?_)).bind
      fun ns ns' hns => .pure ?_
  · simp [Similar, hms]
  · simp [Similar, hparent, hts, hns]

theorem handlerType_agrees (h : n.Alike n') : AddsSimilar (handlerType n) (handlerType n') :=
  fun parent parent' hparent => (h.field "type").bind fun _ _ htype =>
    orIdle_agrees htype.isPresent (namedType_agrees h htype) parent parent' hparent

theorem exceptHandlerRule_agrees (h : n.Alike n') :
    AddsSimilar (exceptHandlerRule n) (exceptHandlerRule n') := by
  intro parent parent' hparent
  refine .skip fun _ _ => .skip fun _ _ => .skip fun _ _ => ?_
  refine (handlerType_agrees h _ _ (by simp [Similar])).bind fun ts ts' hts => .skip fun _ _ => ?_
  refine (block_agrees h "body" _ _).bind fun b b' hb => .pure ?_
  simp [Similar, hparent, hts, hb]

theorem tryRule_agrees (h : n.Alike n') : Agrees SimilarOne (tryRule n) (tryRule n') := by
  refine .skip fun _ _ => .skip fun _ _ => .skip fun _ _ => ?_
  refine (block_agrees h "body" _ _).bind fun b b' hb => ?_
  refine (h.field "handlers").bind fun handlers handlers' hhandlers => ?_
  refine (optionalList_agrees "handlers" hhandlers fun _ _ hitems =>
    (addEach_agrees hitems fun _ _ hpq => hpq.addTo).alone).bind fun hs hs' hhs => ?_
  refine (optionalBlock_agrees h "orelse" "else").bind fun os os' hos => ?_
  refine (optionalBlock_agrees h "finalbody" "finally").bind fun fs fs' hfs => .pure ?_
  simp [SimilarOne, hb, hhs, hos, hfs]

theorem withTarget_agrees (h : p.Alike q) : AddsSimilar (withTarget p) (withTarget q) :=
  fun parent parent' hparent => .skip fun _ _ => .skip fun _ _ =>
    h.addTo _ _ (by simp [Similar, hparent])

theorem withItem_agrees (h : p.Alike q) : Agrees Similar (withItem p) (withItem q) := by
  refine (h.field "context_expr").bind fun context context' hcontext => ?_
  refine hcontext.write.bind fun cs cs' hcs => ?_
  refine (h.field "optional_vars").bind fun vars vars' hvars => ?_
  refine (addIf_agrees hvars.isPresent (withTarget_agrees hvars) _ _ hcs).bind
    fun ms ms' hms => .skip fun _ _ => .pure ?_
  simp [Similar, hms]

theorem withRule_agrees (h : n.Alike n') : Agrees SimilarOne (withRule n) (withRule n') := by
  refine .skip fun _ _ => .skip fun _ _ => (h.fieldItems "items").bind fun ps ps' hps => ?_
  refine (forEach_agrees hps fun _ _ => withItem_agrees).bind fun is is' his => .skip fun _ _ => ?_
  refine (block_agrees h "body" _ _).bind fun b b' hb => .pure ?_
  simp [SimilarOne, h.ref, his, hb]

theorem moduleRule_agrees (h : n.Alike n') : Agrees Similar (moduleRule n) (moduleRule n') :=
  (h.fieldItems "body").bind fun _ _ hbody =>
    (addEach_agrees hbody fun _ _ hpq => hpq.addTo).alone

end SourceScribe.Conversion
