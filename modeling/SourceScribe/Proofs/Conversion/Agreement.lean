/-
  Two runs side by side.

  `Agrees Q m m'`: whenever two steps both give a result, wherever their cursors are, the
  results are related by `Q`.  Nothing is said of the cursors, so what a step reads from
  the tokens is not known to be the same in both runs, and all that is known of a result
  comes from the tree.

  `Part.Alike` relates the parts that one tree has over two sources: they hold the same at
  the same places, and markup of the same skeleton is written for both.
-/
import Mathlib.Data.List.Forall2
import SourceScribe.Proofs.Conversion.Steps
import SourceScribe.Proofs.Markup.Skeleton

namespace SourceScribe.Conversion

open Scan Markup

/-! ## Steps -/

/-- The results of two steps are related, whatever the cursors are. -/
def Agrees {α β : Type} (Q : α → β → Prop) (m : Scan α) (m' : Scan β) : Prop :=
  ∀ c a c₁ c' a' c₁', m c = .ok a c₁ → m' c' = .ok a' c₁' → Q a a'

namespace Agrees

variable {α α' β β' : Type} {Q : α → α' → Prop} {P : β → β' → Prop}

theorem pure {a : α} {a' : α'} (h : Q a a') : Agrees Q (pure a) (pure a') := by
  intro c b c₁ c' b' c₁' hb hb'
  obtain ⟨rfl, -⟩ := pure_ok.1 hb
  obtain ⟨rfl, -⟩ := pure_ok.1 hb'
  exact h

theorem bind {m : Scan α} {m' : Scan α'} {k : α → Scan β} {k' : α' → Scan β'}
    (hm : Agrees Q m m') (hk : ∀ a a', Q a a' → Agrees P (k a) (k' a')) :
    Agrees P (m >>= k) (m' >>= k') := by
  intro c b c₁ c' b' c₁' hb hb'
  obtain ⟨a, c₂, ha, hb⟩ := bind_ok.1 hb
  obtain ⟨a', c₂', ha', hb'⟩ := bind_ok.1 hb'
  exact hk a a' (hm _ _ _ _ _ _ ha ha') _ _ _ _ _ _ hb hb'

/-- Steps whose results are the same in both runs. -/
theorem bindEq {m m' : Scan α} {k : α → Scan β} {k' : α → Scan β'} (hm : Agrees (· = ·) m m')
    (hk : ∀ a, Agrees P (k a) (k' a)) : Agrees P (m >>= k) (m' >>= k') := by
  refine hm.bind ?_
  rintro a _ rfl
  exact hk a

/-- Steps whose results can be anything. -/
theorem skip {m : Scan α} {m' : Scan α'} {k : α → Scan β} {k' : α' → Scan β'}
    (hk : ∀ a a', Agrees P (k a) (k' a')) : Agrees P (m >>= k) (m' >>= k') :=
  bind (fun _ _ _ _ _ _ _ _ => True.intro) fun a a' _ => hk a a'

theorem fail_left {e : Cause} {m' : Scan α'} : Agrees Q (fail e) m' :=
  fun _ _ _ _ _ _ h _ => (fail_ok.1 h).elim

theorem orFail {e e' : Cause} {o : Option α} {o' : Option α'} (h : Option.Rel Q o o') :
    Agrees Q (orFail e o) (orFail e' o') := by
  cases h with
  | some h => exact .pure h
  | none => exact fail_left

theorem within {r r' : NodeRef} {m : Scan α} {m' : Scan α'} (h : Agrees Q m m') :
    Agrees Q (within r m) (within r' m') :=
  fun _ _ _ _ _ _ hm hm' => h _ _ _ _ _ _ (within_ok.1 hm) (within_ok.1 hm')

theorem ite {p : Prop} [Decidable p] {m₁ m₂ : Scan α} {m₁' m₂' : Scan α'} (h₁ : Agrees Q m₁ m₁')
    (h₂ : Agrees Q m₂ m₂') : Agrees Q (if p then m₁ else m₂) (if p then m₁' else m₂') := by
  split
  · exact h₁
  · exact h₂

end Agrees

/-! ## Markup -/

/-- Markup of the same skeleton. -/
abbrev Similar (ms ms' : List Markup) : Prop := skeletons ms = skeletons ms'

/-- One piece of markup of the same skeleton as another one. -/
abbrev SimilarOne (e e' : Markup) : Prop := e.skeleton = e'.skeleton

/-- All that the step writes is text. -/
def Silent (m : Scan (List Markup)) : Prop :=
  ∀ c ms c', m c = .ok ms c' → skeletons ms = []

theorem Silent.agrees {m m' : Scan (List Markup)} (h : Silent m) (h' : Silent m') :
    Agrees Similar m m' :=
  fun _ _ _ _ _ _ hm hm' => (h _ _ _ hm).trans (h' _ _ _ hm').symm

theorem Silent.onlyIf {m : Scan (List Markup)} (h : Silent m) (asked : Bool) :
    Silent (onlyIf asked m) := by
  cases asked with
  | false =>
    intro c ms c' hm
    obtain ⟨rfl, -⟩ := pure_ok.1 hm
    exact skeletons_nil
  | true => exact h

theorem silent_text (m : Scan String) : Silent (do return [text (← m)]) := by
  intro c ms c' h
  obtain ⟨s, c₁, -, h⟩ := bind_ok.1 h
  obtain ⟨rfl, -⟩ := pure_ok.1 h
  simp

theorem onlyIf_agrees {asked asked' : Bool} {m m' : Scan (List Markup)} (hasked : asked = asked')
    (h : Agrees Similar m m') : Agrees Similar (onlyIf asked m) (onlyIf asked' m') := by
  subst hasked
  cases asked with
  | false => exact .pure rfl
  | true => exact h

theorem forEach_agrees {α β : Type} {P : α → β → Prop} {f : α → Scan (List Markup)}
    {g : β → Scan (List Markup)} {as : List α} {bs : List β} (h : List.Forall₂ P as bs)
    (hf : ∀ a b, P a b → Agrees Similar (f a) (g b)) :
    Agrees Similar (forEach f as) (forEach g bs) := by
  induction h with
  | nil => exact .pure rfl
  | cons hab _ ih =>
    refine (hf _ _ hab).bind fun x x' hx => ih.bind fun xs xs' hxs => .pure ?_
    rw [Similar, skeletons_append, skeletons_append, hx, hxs]

/-! ## Adding to the children of an element -/

/-- If the children that two elements have are similar, so are those that they have after the
    steps. -/
def AddsSimilar (m m' : Into) : Prop :=
  ∀ ms ms', Similar ms ms' → Agrees Similar (m ms) (m' ms')

theorem AddsSimilar.alone {m m' : Into} (h : AddsSimilar m m') : Agrees Similar (m []) (m' []) :=
  h [] [] rfl

theorem addIf_agrees {asked asked' : Bool} {m m' : Into} (hasked : asked = asked')
    (h : AddsSimilar m m') : AddsSimilar (addIf asked m) (addIf asked' m') := by
  subst hasked
  exact fun ms ms' hms => .ite (h ms ms' hms) (.pure hms)

theorem orIdle_agrees {there there' : Bool} {m m' : Into} (hthere : there = there')
    (h : AddsSimilar m m') : AddsSimilar (orIdle there m) (orIdle there' m') := by
  subst hthere
  exact fun ms ms' hms => .ite (h ms ms' hms) (.skip fun _ _ => .pure hms)

theorem addEach_agrees {α β : Type} {P : α → β → Prop} {f : α → Into} {g : β → Into}
    {as : List α} {bs : List β} (h : List.Forall₂ P as bs)
    (hf : ∀ a b, P a b → AddsSimilar (f a) (g b)) :
    AddsSimilar (addEach f as) (addEach g bs) := by
  induction h with
  | nil => exact fun _ _ hms => .pure hms
  | cons hab _ ih => exact fun ms ms' hms => (hf _ _ hab ms ms' hms).bind ih

/-! ## Parts -/

/-- What one piece of a tree is over two sources. -/
inductive Part.Alike : Part → Part → Prop where
  | leaf (v : Scalar) : Alike (.leaf v) (.leaf v)
  | letter : Alike .letter .letter
  | list {items items' : List Part} (h : List.Forall₂ Alike items items') :
      Alike (.list items) (.list items')
  | node {ref : NodeRef} {fields fields' : List (String × Part)}
      {start start' : Except Cause Position} {add add' : Into}
      (hfields : ∀ name, Option.Rel Alike (fields.lookup name) (fields'.lookup name))
      (hadd : AddsSimilar add add') :
      Alike (.node ref fields start add) (.node ref fields' start' add')

namespace Part.Alike

variable {p q : Part} (h : p.Alike q)
include h

theorem addTo : AddsSimilar p.addTo q.addTo := by
  intro ms ms' hms
  cases h with
  | node _ hadd => exact hadd ms ms' hms
  | leaf | letter | list => exact .fail_left

theorem write : Agrees Similar p.write q.write :=
  h.addTo.alone

theorem cls : Agrees (· = ·) p.cls q.cls := by
  cases h with
  | node => exact .pure rfl
  | leaf | letter | list => exact .fail_left

theorem field (name : String) : Agrees Alike (p.field name) (q.field name) := by
  cases h with
  | node hfields => exact .orFail (hfields name)
  | leaf | letter | list => exact .fail_left

theorem place : Agrees (· = ·) p.place q.place := by
  cases h with
  | @node ref =>
    refine .orFail ?_
    cases ref.start? with
    | none => exact .none
    | some => exact .some rfl
  | leaf | letter | list => exact .fail_left

theorem isPresent : p.isPresent = q.isPresent := by
  cases h with
  | list h => cases h <;> rfl
  | leaf | letter | node => rfl

theorem isNode : p.isNode = q.isNode := by
  cases h <;> rfl

theorem items : Agrees (List.Forall₂ Alike) p.items q.items := by
  have hletters {γ : Type} (xs : List γ) :
      List.Forall₂ Alike (xs.map fun _ => Part.letter) (xs.map fun _ => Part.letter) := by
    induction xs with
    | nil => exact .nil
    | cons x xs ih => exact .cons .letter ih
  cases h with
  | list h => exact .pure h
  | leaf v =>
    cases v with
    | str | bytes => exact .pure (hletters _)
    | none | bool | int | real | complex | ellipsis => exact .fail_left
  | letter | node => exact .fail_left

theorem asText : Agrees (· = ·) p.asText q.asText := by
  cases h with
  | leaf v => cases v <;> first | exact .pure rfl | exact .fail_left
  | letter | list | node => exact .fail_left

theorem attrValue : p.attrValue = q.attrValue := by
  cases h <;> rfl

theorem itemValue : Agrees Alike p.itemValue q.itemValue := by
  cases h with
  | leaf v => exact .pure (.leaf v)
  | list h => exact .pure (.list h)
  | letter | node => exact .fail_left

theorem plain : p.plain = q.plain := by
  cases h with
  | list h =>
    rw [Part.plain, Part.plain]
    congr 3
    induction h with
    | nil => rfl
    | cons hpq _ ih =>
      rw [List.map_cons, List.map_cons, ih]
      cases hpq <;> rfl
  | leaf | letter | node => rfl

omit h

theorem silent_caption (p : Part) : Silent p.caption := by
  intro c ms c' h
  rw [Part.caption] at h
  split at h
  · obtain ⟨s, c₁, -, h⟩ := bind_ok.1 h
    obtain ⟨rfl, -⟩ := pure_ok.1 h
    simp
  · obtain ⟨rfl, -⟩ := pure_ok.1 h
    exact skeletons_nil

theorem caption (p q : Part) : Agrees Similar p.caption q.caption :=
  (silent_caption p).agrees (silent_caption q)

end Part.Alike

/-! ## Nodes -/

/-- A node over two sources. -/
structure Site.Alike (n n' : Site) : Prop where
  ref : n.ref = n'.ref
  fields : ∀ name, Option.Rel Part.Alike (n.fields.lookup name) (n'.fields.lookup name)

namespace Site.Alike

theorem of_fields {ref : NodeRef} {fields fields' : List (String × Part)}
    (h : ∀ name, Option.Rel Part.Alike (fields.lookup name) (fields'.lookup name)) :
    Site.Alike ⟨ref, fields⟩ ⟨ref, fields'⟩ :=
  ⟨rfl, h⟩

variable {n n' : Site} (h : n.Alike n') (name : String)
include h

theorem field : Agrees Part.Alike (n.field name) (n'.field name) :=
  .orFail (h.fields name)

theorem addField : AddsSimilar (n.addField name) (n'.addField name) :=
  fun ms ms' hms => (h.field name).bind fun _ _ hp => hp.addTo ms ms' hms

theorem writeField : Agrees Similar (n.writeField name) (n'.writeField name) :=
  (h.field name).bind fun _ _ hp => hp.write

theorem fieldCls : Agrees (· = ·) (n.fieldCls name) (n'.fieldCls name) :=
  (h.field name).bind fun _ _ hp => hp.cls

theorem fieldItems : Agrees (List.Forall₂ Part.Alike) (n.fieldItems name) (n'.fieldItems name) :=
  (h.field name).bind fun _ _ hp => hp.items

omit h in
theorem has_eq (n : Site) (name : String) : n.has name = (n.fields.lookup name).isSome := by
  obtain ⟨ref, fields⟩ := n
  simp only [Site.has]
  induction fields with
  | nil => rfl
  | cons field fields ih =>
    rw [List.any_cons, List.lookup_cons, ih]
    by_cases hname : name = field.1
    · simp [hname]
    · simp [Ne.symm hname, beq_eq_false_iff_ne.2 hname]

theorem has : n.has name = n'.has name := by
  have hfields := h.fields name
  rw [has_eq, has_eq]
  generalize n.fields.lookup name = o, n'.fields.lookup name = o' at hfields ⊢
  cases hfields <;> rfl

end Site.Alike

end SourceScribe.Conversion
