/-
  Markup and parts of two conversions in step.

  Markup matches if it has the same elements and texts that match.  Parts match if they hold
  the same, at places that match, and markup that matches is written for both in step.

  `enclose_outcome`: an expression with its parentheses, if the opening one is before both
  places or before neither.
-/
import SourceScribe.Proofs.Conversion.Fragment
import SourceScribe.Proofs.Conversion.InStep.Basic

namespace SourceScribe

variable (σ : Likeness)

/-! ## Markup -/

/-- Attributes of the same names with values that match. -/
def Markup.AttrsMatch (attrs attrs' : List (String × String)) : Prop :=
  List.Forall₂ (fun a a' => a.1 = a'.1 ∧ Text.Matches σ a.2 a'.2) attrs attrs'

/-- Markup that matches: the same elements, with texts that match. -/
inductive Markup.Matches : Markup → Markup → Prop where
  | text {s s' : String} (h : Text.Matches σ s s') : Matches (.text s) (.text s')
  | element {tag : String} {attrs attrs' : List (String × String)}
      {children children' : List Markup} (hattrs : AttrsMatch σ attrs attrs')
      (h : List.Forall₂ Matches children children') :
      Matches (.element tag attrs children) (.element tag attrs' children')

/-- Pieces of markup that match one by one. -/
def Markup.AllMatch (ms ms' : List Markup) : Prop := List.Forall₂ (Markup.Matches σ) ms ms'

namespace Markup

variable {σ}

namespace AttrsMatch

theorem nil : AttrsMatch σ [] [] := List.Forall₂.nil

theorem cons {attrs attrs' : List (String × String)} {value value' : String} (name : String)
    (h : Text.Matches σ value value') (hattrs : AttrsMatch σ attrs attrs') :
    AttrsMatch σ ((name, value) :: attrs) ((name, value') :: attrs') :=
  List.Forall₂.cons ⟨rfl, h⟩ hattrs

theorem refl (attrs : List (String × String)) : AttrsMatch σ attrs attrs :=
  List.forall₂_same.2 fun _ _ => ⟨rfl, .refl _⟩

end AttrsMatch

namespace AllMatch

variable {m m' : Markup} {ms ms' ns ns' : List Markup}

theorem nil : AllMatch σ [] [] := List.Forall₂.nil

theorem cons (h : m.Matches σ m') (hms : AllMatch σ ms ms') : AllMatch σ (m :: ms) (m' :: ms') :=
  List.Forall₂.cons h hms

theorem one (h : m.Matches σ m') : AllMatch σ [m] [m'] := cons h nil

theorem append (h : AllMatch σ ms ms') (h' : AllMatch σ ns ns') :
    AllMatch σ (ms ++ ns) (ms' ++ ns') :=
  List.rel_append h h'

end AllMatch

theorem Matches.tagged {tag : String} {attrs attrs' : List (String × String)}
    {ms ms' : List Markup} (hattrs : AttrsMatch σ attrs attrs') (h : AllMatch σ ms ms') :
    (Markup.element tag attrs ms).Matches σ (Markup.element tag attrs' ms') :=
  .element hattrs h

theorem Matches.bare {tag : String} {ms ms' : List Markup} (h : AllMatch σ ms ms') :
    (Markup.element tag [] ms).Matches σ (Markup.element tag [] ms') :=
  .element .nil h

theorem Matches.word (s : String) : (Markup.text s).Matches σ (Markup.text s) := .text (.refl s)

theorem caption_match {s s' : String} (h : Text.Matches σ s s') :
    AllMatch σ (caption s) (caption s') := by
  rw [caption, caption]
  by_cases hs : s = ""
  · rw [if_pos hs, if_pos (h.eq_empty_iff.1 hs)]
    exact .nil
  · rw [if_neg hs, if_neg (mt h.eq_empty_iff.2 hs)]
    exact .one (.text h)

theorem labelled_match {tag s s' : String} (h : Text.Matches σ s s') :
    (labelled tag s).Matches σ (labelled tag s') :=
  .bare (caption_match h)

/-! ## Written form -/

/-- Characters that match are written as characters that match: they are the same, or
    neither is written as a reference. -/
def KeepsMarks (σ : Likeness) : Prop :=
  ∀ c c', σ.letter c c' → c = c' ∨ escapeValueChar c = [c] ∧ escapeValueChar c' = [c'] ∧
    escapeTextChar c = [c] ∧ escapeTextChar c' = [c']

section
variable (hmarks : KeepsMarks σ)
include hmarks

theorem escapeText_match {s s' : String} (h : Text.Matches σ s s') :
    Text.Matches σ (escapeText s) (escapeText s') := by
  rw [Text.Matches, escapeText, escapeText, String.toList_ofList, String.toList_ofList]
  refine List.rel_flatMap h fun c c' hc => ?_
  obtain rfl | ⟨-, -, htext, htext'⟩ := hmarks c c' hc
  · exact List.forall₂_same.2 fun d _ => σ.refl d
  · rw [htext, htext']
    exact .cons hc .nil

theorem escapeValue_match {s s' : String} (h : Text.Matches σ s s') :
    Text.Matches σ (escapeValue s) (escapeValue s') := by
  rw [Text.Matches, escapeValue, escapeValue, String.toList_ofList, String.toList_ofList]
  refine List.rel_flatMap h fun c c' hc => ?_
  obtain rfl | ⟨hvalue, hvalue', -, -⟩ := hmarks c c' hc
  · exact List.forall₂_same.2 fun d _ => σ.refl d
  · rw [hvalue, hvalue']
    exact .cons hc .nil

theorem renderAttrs_match {attrs attrs' : List (String × String)} (h : AttrsMatch σ attrs attrs') :
    Text.Matches σ (renderAttrs attrs) (renderAttrs attrs') := by
  induction h with
  | nil => exact .refl _
  | @cons a a' _ _ ha _ ih =>
    obtain ⟨name, value⟩ := a
    obtain ⟨_, value'⟩ := a'
    obtain ⟨rfl, hvalue⟩ := ha
    have hvalue := (Text.Matches.refl (" " ++ name ++ "=\"")).append (escapeValue_match hmarks hvalue)
    exact (hvalue.append (.refl _)).append ih

end

mutual

/-- Markup that matches has written forms that match. -/
theorem render_match (hmarks : KeepsMarks σ) :
    ∀ {m m' : Markup}, m.Matches σ m' → Text.Matches σ m.render m'.render
  | .text _, _, .text h => by
    rw [render, render]
    exact escapeText_match hmarks h
  | .element tag _ [], _, .element hattrs .nil => by
    rw [render, render]
    exact ((Text.Matches.refl _).append (renderAttrs_match hmarks hattrs)).append (.refl _)
  | .element tag _ (_ :: _), _, .element hattrs (.cons h hms) => by
    rw [render, render]
    have hopen := ((Text.Matches.refl ("<" ++ tag)).append (renderAttrs_match hmarks hattrs)).append
      (.refl ">")
    exact ((((hopen.append (render_match hmarks h)).append (renderAll_match hmarks hms)).append
      (.refl "</")).append (.refl tag)).append (.refl ">")

theorem renderAll_match (hmarks : KeepsMarks σ) :
    ∀ {ms ms' : List Markup}, List.Forall₂ (Markup.Matches σ) ms ms' →
      Text.Matches σ (renderAll ms) (renderAll ms')
  | [], _, .nil => .refl _
  | _ :: _, _, .cons h hms => by
    rw [renderAll, renderAll]
    exact (render_match hmarks h).append (renderAll_match hmarks hms)

end

end Markup

/-- Scalars that are the same, or are texts that match. -/
inductive Scalar.Matches : Scalar → Scalar → Prop where
  | refl (v : Scalar) : Matches v v
  | str {s s' : String} (h : Text.Matches σ s s') : Matches (.str s) (.str s')

namespace Scalar.Matches

variable {σ} {v v' : Scalar}

theorem isEmpty (h : v.Matches σ v') : v.isEmpty = v'.isEmpty := by
  cases h with
  | refl => rfl
  | str h => simp only [Scalar.isEmpty, h.eq_empty_iff]

theorem plain (h : v.Matches σ v') : Text.Matches σ v.plain v'.plain := by
  cases h with
  | refl => exact .refl _
  | str h => exact h

end Scalar.Matches

namespace Conversion

open Scan Markup

/-! ## Parts -/

/-- From children that match, both steps go in step to children that match. -/
def AddsInStep (m m' : Into) : Prop :=
  ∀ ms ms', AllMatch σ ms ms' → InStep σ (AllMatch σ) (m ms) (m' ms')

/-- Parts that match. -/
inductive Part.Matches : Part → Part → Prop where
  | leaf {v v' : Scalar} (h : v.Matches σ v') : Matches (.leaf v) (.leaf v')
  | letter : Matches .letter .letter
  | list {items items' : List Part} (h : List.Forall₂ Matches items items') :
      Matches (.list items) (.list items')
  | node {ref ref' : NodeRef} {fields fields' : List (String × Part)}
      {start start' : Except Cause Position} {add add' : Into}
      (hcls : ref.cls = ref'.cls) (hplace : Option.Rel σ.place ref.start? ref'.start?)
      (hfields : ∀ name, Option.Rel Matches (fields.lookup name) (fields'.lookup name))
      (hadd : AddsInStep σ add add') (hpath : ref.path = ref'.path) :
      Matches (.node ref fields start add) (.node ref' fields' start' add')

variable {σ}

namespace Part.Matches

variable {p q : Part} (h : p.Matches σ q)
include h

theorem addTo : AddsInStep σ p.addTo q.addTo := by
  intro ms ms' hms
  cases h with
  | node _ _ _ hadd => exact hadd ms ms' hms
  | leaf | letter | list => exact .fail

theorem write : InStep σ (AllMatch σ) p.write q.write :=
  h.addTo [] [] .nil

theorem cls : InStep σ (· = ·) p.cls q.cls := by
  cases h with
  | node hcls => exact .pure hcls
  | leaf | letter | list => exact .fail

theorem field (name : String) : InStep σ (Part.Matches σ) (p.field name) (q.field name) := by
  cases h with
  | node _ _ hfields => exact .orFail (hfields name)
  | leaf | letter | list => exact .fail

theorem place : InStep σ σ.place p.place q.place := by
  cases h with
  | node _ hplace => exact .orFail hplace
  | leaf | letter | list => exact .fail

theorem isPresent : p.isPresent = q.isPresent := by
  cases h with
  | leaf h => rw [Part.isPresent, Part.isPresent, h.isEmpty]
  | list h => cases h <;> rfl
  | letter | node => rfl

theorem isNode : p.isNode = q.isNode := by
  cases h <;> rfl

theorem items : InStep σ (List.Forall₂ (Part.Matches σ)) p.items q.items := by
  have hletters {γ γ' : Type} {xs : List γ} {ys : List γ'} (hlength : xs.length = ys.length) :
      List.Forall₂ (Part.Matches σ) (xs.map fun _ => Part.letter)
        (ys.map fun _ => Part.letter) := by
    rw [List.map_const', List.map_const', hlength]
    exact List.forall₂_same.2 fun p hp => by rw [List.eq_of_mem_replicate hp]; exact .letter
  cases h with
  | list h => exact .pure h
  | @leaf v _ h =>
    cases h with
    | str h => exact .pure (hletters h.length_eq)
    | refl =>
      cases v with
      | str | bytes => exact .pure (hletters rfl)
      | none | bool | int | real | complex | ellipsis => exact .fail
  | letter | node => exact .fail

theorem first : InStep σ (Part.Matches σ) p.first q.first :=
  h.items.bind fun _ _ hitems => .orFail (InStep.head?_rel hitems)

theorem asText : InStep σ (Text.Matches σ) p.asText q.asText := by
  cases h with
  | @leaf v _ h =>
    cases h with
    | str h => exact .pure h
    | refl =>
      cases v with
      | str => exact .pure (.refl _)
      | none | bool | int | real | complex | bytes | ellipsis => exact .fail
  | letter | list | node => exact .fail

theorem caption : InStep σ (AllMatch σ) p.caption q.caption := by
  rw [Part.caption, Part.caption, h.isPresent]
  exact .ite (h.asText.bind fun _ _ htext => .pure (.one (.text htext))) (.pure .nil)

theorem attrValue : Text.Matches σ p.attrValue q.attrValue := by
  cases h with
  | leaf h =>
    cases h with
    | str h => exact h
    | refl => exact .refl _
  | letter | list | node => exact .refl _

theorem itemValue : InStep σ (Part.Matches σ) p.itemValue q.itemValue := by
  cases h with
  | leaf h => exact .pure (.leaf h)
  | list h => exact .pure (.list h)
  | letter | node => exact .fail

end Part.Matches

/-! ## Nodes -/

/-- Nodes that match. -/
structure Site.Matches (σ : Likeness) (n n' : Site) : Prop where
  path : n.ref.path = n'.ref.path
  cls : n.ref.cls = n'.ref.cls
  place : Option.Rel σ.place n.ref.start? n'.ref.start?
  fields : ∀ name, Option.Rel (Part.Matches σ) (n.fields.lookup name) (n'.fields.lookup name)

namespace Site.Matches

variable {n n' : Site} (h : n.Matches σ n') (name : String)
include h

theorem field : InStep σ (Part.Matches σ) (n.field name) (n'.field name) :=
  .orFail (h.fields name)

theorem addField : AddsInStep σ (n.addField name) (n'.addField name) :=
  fun ms ms' hms => (h.field name).bind fun _ _ hp => hp.addTo ms ms' hms

theorem writeField : InStep σ (AllMatch σ) (n.writeField name) (n'.writeField name) :=
  (h.field name).bind fun _ _ hp => hp.write

theorem fieldCls : InStep σ (· = ·) (n.fieldCls name) (n'.fieldCls name) :=
  (h.field name).bind fun _ _ hp => hp.cls

theorem fieldItems :
    InStep σ (List.Forall₂ (Part.Matches σ)) (n.fieldItems name) (n'.fieldItems name) :=
  (h.field name).bind fun _ _ hp => hp.items

end Site.Matches

theorem onlyIf_inStep {asked asked' : Bool} {m m' : Scan (List Markup)} (hasked : asked = asked')
    (h : InStep σ (AllMatch σ) m m') :
    InStep σ (AllMatch σ) (onlyIf asked m) (onlyIf asked' m') := by
  subst hasked
  exact .ite h (.pure .nil)

theorem addIf_inStep {asked asked' : Bool} {m m' : Into} (hasked : asked = asked')
    (h : AddsInStep σ m m') : AddsInStep σ (addIf asked m) (addIf asked' m') := by
  subst hasked
  exact fun ms ms' hms => .ite (h ms ms' hms) (.pure hms)

theorem orIdle_inStep {there there' : Bool} {m m' : Into} (hthere : there = there')
    (h : AddsInStep σ m m') : AddsInStep σ (orIdle there m) (orIdle there' m') := by
  subst hthere
  exact fun ms ms' hms => .ite (h ms ms' hms) (InStep.idle.bind fun _ _ _ => .pure hms)

theorem forEach_inStep {α β : Type} {P : α → β → Prop} {f : α → Scan (List Markup)}
    {g : β → Scan (List Markup)} {as : List α} {bs : List β} (h : List.Forall₂ P as bs)
    (hf : ∀ a b, P a b → InStep σ (AllMatch σ) (f a) (g b)) :
    InStep σ (AllMatch σ) (forEach f as) (forEach g bs) := by
  induction h with
  | nil => exact .pure .nil
  | cons hab _ ih =>
    exact (hf _ _ hab).bind fun _ _ hx => ih.bind fun _ _ hxs => .pure (hx.append hxs)

theorem addEach_inStep {α β : Type} {P : α → β → Prop} {f : α → Into} {g : β → Into}
    {as : List α} {bs : List β} (h : List.Forall₂ P as bs)
    (hf : ∀ a b, P a b → AddsInStep σ (f a) (g b)) :
    AddsInStep σ (addEach f as) (addEach g bs) := by
  induction h with
  | nil => exact fun _ _ hms => .pure hms
  | cons hab _ ih => exact fun ms ms' hms => (hf _ _ hab ms ms' hms).bind ih

/-! ## Parentheses -/

variable {r r' : NodeRef}

/-- Whether an opening parenthesis that comes next is before one of two places just if it is
    before the other. -/
def SameSide (c : Cursor) (place place' : Option Position) : Prop :=
  ∀ t ∈ c.rest.head?, t.isOp .lpar = true → ∀ p ∈ place, ∀ p' ∈ place',
    (t.start < p ↔ t.start < p')

theorem SameSide.refl (c : Cursor) (place : Option Position) : SameSide c place place := by
  intro t _ _ p hp p' hp'
  rw [Option.mem_unique hp hp']

theorem openParenthesis_outcome {c c' : Cursor} (hc : c.Matches σ c')
    (hplace : Option.Rel σ.place r.start? r'.start?) (hpath : r.path = r'.path)
    (hside : SameSide c r.start? r'.start?) :
    Outcome σ (fun _ _ => True) (openParenthesis r c) (openParenthesis r' c') := by
  have hpeek : Outcome σ (fun t t' => t.Matches σ t' ∧ t ∈ c.rest.head?) (peek c) (peek c') := by
    obtain ⟨rest, current, previous, deferred, remarks⟩ := c
    obtain ⟨rest', current', previous', deferred', remarks'⟩ := c'
    cases hc.rest with
    | nil => exact .fail
    | cons ht hrest => exact .ok ⟨ht, rfl⟩ ⟨.cons ht hrest, hc.current, hc.previous, hc.deferred⟩
  have hplaces : InStep σ (fun p p' => p ∈ r.start? ∧ p' ∈ r'.start?)
      (orFail .noPosition r.start?) (orFail .noPosition r'.start?) := by
    generalize r.start? = place, r'.start? = place' at hplace
    cases hplace with
    | none => exact .fail
    | some => exact .pure ⟨rfl, rfl⟩
  refine hpeek.bind fun t t' ⟨ht, hmem⟩ => ?_
  rw [← ht.isOp]
  by_cases hop : t.isOp .lpar = true
  · rw [if_pos hop, if_pos hop]
    refine hplaces.bind fun p p' ⟨hp, hp'⟩ => ?_
    rw [← ht.start]
    refine .ite_of_iff (hside t hmem hop p hp p' hp') ?_ (.pure trivial)
    refine (InStep.enclosed false true).bind fun text text' htext => ?_
    refine InStep.peek.bind fun next next' hnext c c' hc => .ok trivial ?_
    exact ⟨hc.rest, hc.current, hc.previous, .cons ⟨htext, hnext.start, hpath⟩ hc.deferred⟩
  · rw [if_neg hop, if_neg hop]
    exact .pure trivial

theorem closesHere_inStep (hpath : r.path = r'.path) (start : Except Cause Position) :
    InStep σ (Option.Rel (Deferred.Matches σ)) (closesHere r start) (closesHere r' start) := by
  refine InStep.peekPastFiller.bind fun t t' ht => InStep.get.bind fun c c' hc => ?_
  obtain ⟨rest, current, previous, deferred, remarks⟩ := c
  obtain ⟨rest', current', previous', deferred', remarks'⟩ := c'
  rw [ht.isOp]
  cases t'.isOp .rpar with
  | false => exact .pure .none
  | true =>
    cases hc.deferred with
    | nil => exact .pure .none
    | cons hd hds =>
      cases start with
      | error cause => exact .fail
      | ok p =>
        simp only [hd.start, hd.owner, hpath]
        refine .ite (fun _ _ _ => .ok (.some hd) ?_) (.pure .none)
        exact ⟨hc.rest, hc.current, hc.previous, hds⟩

/-- An expression by rules that go together. -/
theorem enclose_outcome {rule rule' : Into} (hone : rule.AddsOne) (hone' : rule'.AddsOne)
    {c c' : Cursor} (hc : c.Matches σ c') (hplace : Option.Rel σ.place r.start? r'.start?)
    (hpath : r.path = r'.path) (hside : SameSide c r.start? r'.start?)
    (start : Except Cause Position) (hrule : AddsInStep σ rule rule') {parent parent' : List Markup}
    (hparent : AllMatch σ parent parent') :
    Outcome σ (AllMatch σ) (enclose r start rule parent c) (enclose r' start rule' parent' c') := by
  rw [enclose_eq hone, enclose_eq hone']
  refine (openParenthesis_outcome hc hplace hpath hside).bind fun _ _ _ => ?_
  refine (hrule [] [] .nil).bind fun ms ms' hms => ?_
  refine (closesHere_inStep hpath start).bind fun d d' hd => ?_
  cases hd with
  | none => exact .pure (hparent.append hms)
  | some hd =>
    refine (InStep.enclosed true false).bind fun right right' hright => .pure ?_
    exact hparent.append (.cons (.text hd.text) (hms.append (.one (.text hright))))

end Conversion

end SourceScribe
