/-
  Two conversions in step.

  `InStep σ Q m m'`: from cursors that match, both steps give results related by `Q` and
  leave cursors that match, or both fail.  The first step may also halt, with a failure that
  no rule has; then nothing is said of the second one.

  What it is for two texts or two places to match is left to a `Likeness`.  Tokens match if
  they have the same kind and place and texts that match, and no text made of letters only
  tells them apart, so that every question a rule asks of a token has one answer for both.
-/
import Mathlib.Data.List.Forall2
import SourceScribe.Conversion.Parentheses

namespace SourceScribe

/-! ## Texts and tokens -/

/-- When two characters match, and when two places do.  Places that match are in the same
    order. -/
structure Likeness where
  letter : Char → Char → Prop
  place : Position → Position → Prop
  refl : ∀ c, letter c c
  place_lt : ∀ {p p' q q' : Position}, place p p' → place q q' → (p < q ↔ p' < q')

theorem Position.eq_iff_not_lt (p q : Position) : p = q ↔ ¬ p < q ∧ ¬ q < p := by
  obtain ⟨row, column⟩ := p
  obtain ⟨row', column'⟩ := q
  simp only [Position.lt_iff, Position.mk.injEq]
  omega

theorem Likeness.place_eq (σ : Likeness) {p p' q q' : Position} (hp : σ.place p p')
    (hq : σ.place q q') : p = q ↔ p' = q' := by
  rw [Position.eq_iff_not_lt, Position.eq_iff_not_lt, σ.place_lt hp hq, σ.place_lt hq hp]

variable (σ : Likeness)

/-- Texts that match character by character. -/
def Text.Matches (s s' : String) : Prop := List.Forall₂ σ.letter s.toList s'.toList

namespace Text.Matches

variable {σ} {s s' u u' : String}

theorem refl (s : String) : Matches σ s s := List.forall₂_same.2 fun c _ => σ.refl c

theorem append (h : Matches σ s s') (h' : Matches σ u u') : Matches σ (s ++ u) (s' ++ u') := by
  rw [Matches, String.toList_append, String.toList_append]
  exact List.rel_append h h'

theorem eq_empty_iff (h : Matches σ s s') : s = "" ↔ s' = "" := by
  rw [← String.toList_eq_nil_iff, ← String.toList_eq_nil_iff]
  have := h.length_eq
  rw [← List.length_eq_zero_iff, ← List.length_eq_zero_iff, this]

theorem dropSigned (h : Matches σ s s') (i : Int) :
    Matches σ (Text.dropSigned s i) (Text.dropSigned s' i) := by
  rw [Matches, Text.dropSigned, Text.dropSigned, String.toList_ofList, String.toList_ofList,
    h.length_eq]
  exact List.forall₂_drop _ h

end Text.Matches

/-- Whether no literal and no comment can have this text. -/
def Token.isWord (w : String) : Bool := w.toList.all fun c => c ∉ ['#', '\'', '"']

/-- Tokens that match. -/
structure Token.Matches (t t' : Token) : Prop where
  kind : t.kind = t'.kind
  exact : t.exact = t'.exact
  start : t.start = t'.start
  stop : t.stop = t'.stop
  text : Text.Matches σ t.text t'.text
  line : Text.Matches σ t.line t'.line
  word : ∀ w, Token.isWord w = true → (t.text = w ↔ t'.text = w)

namespace Token.Matches

variable {σ} {t t' u u' : Token}

theorem refl (t : Token) : t.Matches σ t :=
  ⟨rfl, rfl, rfl, rfl, .refl _, .refl _, fun _ _ => Iff.rfl⟩

theorem isOp (h : t.Matches σ t') (o : Operator) : t.isOp o = t'.isOp o := by
  rw [Token.isOp, Token.isOp, h.exact]

theorem isFiller (h : t.Matches σ t') : t.isFiller = t'.isFiller := by
  rw [Token.isFiller, Token.isFiller, h.kind]

theorem isDelimiter (h : t.Matches σ t') : t.isDelimiter = t'.isDelimiter := by
  rw [Token.isDelimiter, Token.isDelimiter, h.isOp, h.isFiller]

theorem isBetweenStatements (h : t.Matches σ t') :
    t.isBetweenStatements = t'.isBetweenStatements := by
  rw [Token.isBetweenStatements, Token.isBetweenStatements, h.isOp, h.isFiller, h.kind]

theorem gap (h : t.Matches σ t') (h' : u.Matches σ u') :
    Text.Matches σ (t.gap u) (t'.gap u') := by
  rw [Token.gap, Token.gap, h.stop, h'.start, h'.kind]
  split
  · exact .refl _
  split
  · exact .refl _
  · exact (h.line.dropSigned _).append (.refl _)

end Token.Matches

namespace Conversion

open Scan

/-! ## Cursors -/

/-- Parentheses kept aside that match. -/
structure Deferred.Matches (d d' : Deferred) : Prop where
  text : Text.Matches σ d.text d'.text
  start : d.start = d'.start
  owner : d.owner = d'.owner

/-- Cursors that match.  What was remarked is not looked at. -/
structure Cursor.Matches (c c' : Cursor) : Prop where
  rest : List.Forall₂ (Token.Matches σ) c.rest c'.rest
  current : Option.Rel (Token.Matches σ) c.current c'.current
  previous : Option.Rel (Token.Matches σ) c.previous c'.previous
  deferred : List.Forall₂ (Deferred.Matches σ) c.deferred c'.deferred

theorem rel_refl {α : Type} {R : α → α → Prop} (h : ∀ a, R a a) (o : Option α) :
    Option.Rel R o o := by
  cases o with
  | none => exact .none
  | some a => exact .some (h a)

theorem Cursor.Matches.refl {σ : Likeness} (c : Cursor) : c.Matches σ c where
  rest := List.forall₂_same.2 fun t _ => .refl t
  current := rel_refl .refl _
  previous := rel_refl .refl _
  deferred := List.forall₂_same.2 fun _ _ => ⟨.refl _, rfl, rfl⟩

/-- How two steps can end. -/
inductive Outcome {α β : Type} (Q : α → β → Prop) :
    EStateM.Result Failure Cursor α → EStateM.Result Failure Cursor β → Prop
  | ok {a : α} {b : β} {c c' : Cursor} : Q a b → c.Matches σ c' → Outcome Q (.ok a c) (.ok b c')
  | fail {f f' : Failure} {c c' : Cursor} : Outcome Q (.error f c) (.error f' c')
  | halt {f : Failure} {c : Cursor} {r : EStateM.Result Failure Cursor β} :
      f.cause = .rowWithoutColumn → Outcome Q (.error f c) r

/-- Steps that go together from cursors that match. -/
def InStep {α β : Type} (Q : α → β → Prop) (m : Scan α) (m' : Scan β) : Prop :=
  ∀ c c', c.Matches σ c' → Outcome σ Q (m c) (m' c')

variable {σ} {α α' β β' : Type} {Q : α → α' → Prop} {P : β → β' → Prop}

theorem Outcome.bind {m : Scan α} {m' : Scan α'} {k : α → Scan β} {k' : α' → Scan β'}
    {c c' : Cursor} (hm : Outcome σ Q (m c) (m' c'))
    (hk : ∀ a a', Q a a' → InStep σ P (k a) (k' a')) :
    Outcome σ P ((m >>= k) c) ((m' >>= k') c') := by
  show Outcome σ P (EStateM.bind m k c) (EStateM.bind m' k' c')
  rw [EStateM.bind, EStateM.bind]
  generalize m c = r, m' c' = r' at hm
  cases hm with
  | ok ha hc => exact hk _ _ ha _ _ hc
  | fail => exact .fail
  | halt hf => exact .halt hf

theorem Outcome.within {r r' : NodeRef} {m : Scan α} {m' : Scan α'} {c c' : Cursor}
    (hm : Outcome σ Q (m c) (m' c')) : Outcome σ Q (within r m c) (within r' m' c') := by
  rw [Scan.within, Scan.within]
  generalize m c = res, m' c' = res' at hm
  cases hm with
  | ok ha hc => exact .ok ha hc
  | fail => exact .fail
  | halt hf => exact .halt hf

namespace InStep

theorem pure {a : α} {a' : α'} (h : Q a a') : InStep σ Q (pure a) (pure a') :=
  fun _ _ hc => .ok h hc

theorem bind {m : Scan α} {m' : Scan α'} {k : α → Scan β} {k' : α' → Scan β'}
    (hm : InStep σ Q m m') (hk : ∀ a a', Q a a' → InStep σ P (k a) (k' a')) :
    InStep σ P (m >>= k) (m' >>= k') :=
  fun c c' hc => (hm c c' hc).bind hk

/-- Steps with the same result in both runs. -/
theorem bindEq {m m' : Scan α} {k : α → Scan β} {k' : α → Scan β'} (hm : InStep σ (· = ·) m m')
    (hk : ∀ a, InStep σ P (k a) (k' a)) : InStep σ P (m >>= k) (m' >>= k') := by
  refine hm.bind ?_
  rintro a _ rfl
  exact hk a

theorem fail {e e' : Cause} : InStep σ Q (fail e) (fail e') := fun _ _ _ => .fail

theorem orFail {e e' : Cause} {o : Option α} {o' : Option α'} (h : Option.Rel Q o o') :
    InStep σ Q (orFail e o) (orFail e' o') := by
  cases h with
  | some h => exact .pure h
  | none => exact .fail

theorem orFail_same {e e' : Cause} (o : Option α) :
    InStep σ (· = ·) (Scan.orFail e o) (Scan.orFail e' o) := by
  cases o with
  | some a => exact .pure rfl
  | none => exact .fail

theorem within {r r' : NodeRef} {m : Scan α} {m' : Scan α'} (h : InStep σ Q m m') :
    InStep σ Q (within r m) (within r' m') :=
  fun c c' hc => (h c c' hc).within

theorem ite_of_iff {p p' : Prop} [Decidable p] [Decidable p'] {m₁ m₂ : Scan α} {m₁' m₂' : Scan α'}
    (hp : p ↔ p') (h₁ : InStep σ Q m₁ m₁') (h₂ : InStep σ Q m₂ m₂') :
    InStep σ Q (if p then m₁ else m₂) (if p' then m₁' else m₂') := by
  by_cases h : p
  · rw [if_pos h, if_pos (hp.1 h)]
    exact h₁
  · rw [if_neg h, if_neg (mt hp.2 h)]
    exact h₂

theorem ite {p : Prop} [Decidable p] {m₁ m₂ : Scan α} {m₁' m₂' : Scan α'} (h₁ : InStep σ Q m₁ m₁')
    (h₂ : InStep σ Q m₂ m₂') : InStep σ Q (if p then m₁ else m₂) (if p then m₁' else m₂') :=
  ite_of_iff Iff.rfl h₁ h₂

theorem get : InStep σ (Cursor.Matches σ) get get := fun _ _ hc => .ok hc hc

/-! ## Single tokens -/

theorem head?_rel {R : α → α' → Prop} {l : List α} {l' : List α'} (h : List.Forall₂ R l l') :
    Option.Rel R l.head? l'.head? := by
  cases h with
  | nil => exact .none
  | cons h _ => exact .some h

theorem take : InStep σ (Token.Matches σ) take take := by
  rintro ⟨rest, current, previous, deferred, remarks⟩ ⟨rest', current', previous', deferred', _⟩ hc
  cases hc.rest with
  | nil => exact .fail
  | cons ht hrest => exact .ok ht ⟨hrest, .some ht, hc.current, hc.deferred⟩

theorem peek : InStep σ (Token.Matches σ) peek peek :=
  get.bind fun _ _ hc => .orFail (head?_rel hc.rest)

theorem dropWhile_rel {p : Token → Bool} (hp : ∀ {t t' : Token}, t.Matches σ t' → p t = p t')
    {ts ts' : List Token} (h : List.Forall₂ (Token.Matches σ) ts ts') :
    List.Forall₂ (Token.Matches σ) (ts.dropWhile p) (ts'.dropWhile p) := by
  induction h with
  | nil => exact .nil
  | cons ht hts ih =>
    rw [List.dropWhile_cons, List.dropWhile_cons, hp ht]
    split
    · exact ih
    · exact .cons ht hts

theorem peekPastFiller : InStep σ (Token.Matches σ) peekPastFiller peekPastFiller :=
  get.bind fun _ _ hc => .orFail (head?_rel (dropWhile_rel (·.isFiller) hc.rest))

theorem current : InStep σ (Token.Matches σ) current current :=
  get.bind fun _ _ hc => .orFail hc.current

section
variable {p : Token → Bool} (hp : ∀ {t t' : Token}, t.Matches σ t' → p t = p t')
include hp

theorem expect : InStep σ (Token.Matches σ) (expect p) (expect p) := by
  refine take.bind fun t t' ht => ?_
  rw [hp ht]
  exact .ite (.pure ht) .fail

theorem expectShown : InStep σ (Token.Matches σ) (expectShown p) (expectShown p) := by
  refine take.bind fun t t' ht => ?_
  rw [hp ht]
  exact .ite (.pure ht) .fail

end

theorem inPlaceOf (found written found' written' : String) :
    InStep σ (fun _ _ => True) (inPlaceOf found written) (inPlaceOf found' written') :=
  fun _ _ hc => .ok trivial ⟨hc.rest, hc.current, hc.previous, hc.deferred⟩

theorem idle : InStep σ (fun _ _ => True) idle idle :=
  fun _ _ hc => .ok trivial ⟨hc.rest, hc.current, hc.previous, hc.deferred⟩

/-! ## Gaps -/

theorem gapBefore : InStep σ (Text.Matches σ) gapBefore gapBefore :=
  get.bind fun _ _ hc => (orFail hc.previous).bind fun _ _ ha =>
    current.bind fun _ _ hb => .pure (ha.gap hb)

theorem gapBeforeIf (wanted : Bool) :
    InStep σ (Text.Matches σ) (gapBeforeIf wanted) (gapBeforeIf wanted) :=
  .ite gapBefore (.pure (.refl _))

theorem gapAfter : InStep σ (Text.Matches σ) gapAfter gapAfter :=
  peek.bind fun _ _ hb => current.bind fun _ _ ha => .pure (ha.gap hb)

theorem withGaps : InStep σ (Text.Matches σ) withGaps withGaps :=
  gapBefore.bind fun _ _ hbefore => current.bind fun _ _ ht => gapAfter.bind fun _ _ hafter =>
    .pure ((hbefore.append ht.text).append hafter)

/-! ## Runs of tokens -/

theorem absorbFrom {p : Token → Bool} (hp : ∀ {t t' : Token}, t.Matches σ t' → p t = p t')
    {ts ts' : List Token} (h : List.Forall₂ (Token.Matches σ) ts ts') :
    InStep σ (Text.Matches σ) (absorbFrom p ts) (absorbFrom p ts') := by
  induction h with
  | nil => exact .fail
  | cons ht _ ih =>
    rw [Scan.absorbFrom, Scan.absorbFrom, hp ht]
    refine .ite ?_ (.pure (.refl _))
    exact take.bind fun _ _ _ => gapBefore.bind fun _ _ hbefore => ih.bind fun _ _ hmore =>
      .pure ((hbefore.append ht.text).append hmore)

theorem absorb {p : Token → Bool} (hp : ∀ {t t' : Token}, t.Matches σ t' → p t = p t') :
    InStep σ (Text.Matches σ) (absorb p) (absorb p) :=
  get.bind fun _ _ hc => absorbFrom hp hc.rest

theorem betweenStatements (after : Bool) :
    InStep σ (Text.Matches σ) (betweenStatements after) (betweenStatements after) := by
  refine (absorb (·.isBetweenStatements)).bind fun _ _ htext => ?_
  exact .ite (gapAfter.bind fun _ _ hafter => .pure (htext.append hafter)) (.pure htext)

theorem delimiter : InStep σ (Text.Matches σ) delimiter delimiter :=
  (absorb (·.isDelimiter)).bind fun _ _ htext => gapAfter.bind fun _ _ hafter =>
    .pure (htext.append hafter)

/-- Texts that match, and whether a token was taken. -/
abbrev Taken (σ : Likeness) (x x' : String × Bool) : Prop := Text.Matches σ x.1 x'.1 ∧ x.2 = x'.2

theorem enclosedFrom {want : Option ExactKind} {ts ts' : List Token}
    (h : List.Forall₂ (Token.Matches σ) ts ts') (found before : Bool) :
    InStep σ (Taken σ) (enclosedFrom want found before ts)
      (enclosedFrom want found before ts') := by
  induction h generalizing found before with
  | nil => exact .fail
  | @cons t t' ts ts' ht _ ih =>
    have hstep (found : Bool) : InStep σ (Taken σ)
        (do
          let _ ← Scan.take
          let left ← Scan.gapBeforeIf before
          let r ← Scan.enclosedFrom want found true ts
          return (left ++ t.text ++ r.1, r.2))
        (do
          let _ ← Scan.take
          let left ← Scan.gapBeforeIf before
          let r ← Scan.enclosedFrom want found true ts'
          return (left ++ t'.text ++ r.1, r.2)) :=
      take.bind fun _ _ _ => (gapBeforeIf before).bind fun _ _ hleft =>
        (ih found true).bind fun _ _ hmore =>
          .pure ⟨(hleft.append ht.text).append hmore.1, hmore.2⟩
    rw [Scan.enclosedFrom, Scan.enclosedFrom, ht.isFiller, ht.exact]
    refine .ite (hstep found) (.ite (.pure ⟨.refl _, rfl⟩) ?_)
    exact .ite (.pure ⟨.refl _, rfl⟩) (hstep true)

theorem enclosedOf (want : Option ExactKind) (before after : Bool) :
    InStep σ (Text.Matches σ) (enclosedOf want before after) (enclosedOf want before after) := by
  refine get.bind fun _ _ hc => ?_
  refine (enclosedFrom hc.rest false before).bind fun (text, taken) (text', taken') h => ?_
  obtain ⟨htext, rfl⟩ := h
  exact .ite (gapAfter.bind fun _ _ hafter => .pure (htext.append hafter)) (.pure htext)

theorem enclosed (before after : Bool) :
    InStep σ (Text.Matches σ) (enclosed before after) (enclosed before after) :=
  enclosedOf none before after

theorem dottedFrom {ts ts' : List Token} (h : List.Forall₂ (Token.Matches σ) ts ts') :
    InStep σ (Text.Matches σ) (dottedFrom ts) (dottedFrom ts') := by
  -- tokens are taken in pairs, so the induction is on the tokens with and without one before
  suffices hpair : InStep σ (Text.Matches σ) (Scan.dottedFrom ts) (Scan.dottedFrom ts') ∧
      ∀ t t', t.Matches σ t' →
        InStep σ (Text.Matches σ) (Scan.dottedFrom (t :: ts)) (Scan.dottedFrom (t' :: ts')) from
    hpair.1
  induction h with
  | nil =>
    refine ⟨.fail, fun t t' ht => ?_⟩
    rw [Scan.dottedFrom, Scan.dottedFrom, ht.isOp]
    exact .ite (take.bind fun _ _ _ => take.bind fun _ _ _ => .pure (.refl _)) (.pure (.refl _))
  | cons hu _ ih =>
    refine ⟨ih.2 _ _ hu, fun t t' ht => ?_⟩
    rw [Scan.dottedFrom, Scan.dottedFrom, ht.isOp]
    refine .ite ?_ (.pure (.refl _))
    exact take.bind fun _ _ _ => take.bind fun _ _ _ => ih.1.bind fun _ _ hmore =>
      .pure (((Text.Matches.refl _).append hu.text).append hmore)

theorem dottedName : InStep σ (Text.Matches σ) dottedName dottedName :=
  take.bind fun _ _ ht => get.bind fun _ _ hc => (dottedFrom hc.rest).bind fun _ _ hmore =>
    .pure (ht.text.append hmore)

theorem dotsFrom {ts ts' : List Token} (h : List.Forall₂ (Token.Matches σ) ts ts') :
    InStep σ (Text.Matches σ) (dotsFrom ts) (dotsFrom ts') := by
  induction h with
  | nil => exact .fail
  | cons ht _ ih =>
    rw [Scan.dotsFrom, Scan.dotsFrom, ht.isOp]
    refine .ite ?_ (.pure (.refl _))
    exact take.bind fun _ _ _ => ih.bind fun _ _ hmore => .pure ((Text.Matches.refl _).append hmore)

theorem dots : InStep σ (Text.Matches σ) dots dots :=
  get.bind fun _ _ hc => dotsFrom hc.rest

end InStep

end Conversion

end SourceScribe
