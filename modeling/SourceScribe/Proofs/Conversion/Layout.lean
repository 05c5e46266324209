/-
  Runs that lay out their tokens.

  `Lays c l s c' l' m`: from the cursor `c` to the cursor `c'` the tokens `m` are taken and
  the text `s` is written, which is that of the tokens with their leads.  `l` is the part
  of the lead of the first token that is written at the start already, `l'` the part of
  the lead of the next one that is written at the end.

  `Laid Q S c l s c' l'` says that the tokens of the run are in the layout `S`, if the run
  is as `Q` asks.  It is an account (`Laid.account`), and put together along a rule by
  `Laid.trans`.
-/
import SourceScribe.Proofs.Conversion.Conservation
import SourceScribe.Proofs.Token.Leads

namespace SourceScribe.Conversion

open Scan Markup Layout

/-- The last two tokens taken. -/
def Cursor.recent (c : Cursor) : Recent :=
  ⟨c.previous, c.current⟩

/-- What is written of the lead of the next token. -/
def Cursor.pending (c : Cursor) (l : Lead) : String :=
  l.text c.recent c.rest.head?

@[simp] theorem Cursor.pending_omitted (c : Cursor) : c.pending .omitted = "" := rfl

/-- The text `s` is that of the marked tokens `m`, which are taken from `c` to `c'`. -/
structure Lays (c : Cursor) (l : Lead) (s : String) (c' : Cursor) (l' : Lead) (m : List Marked) :
    Prop where
  rest : c.rest = tokensOf m ++ c'.rest
  recent : c'.recent = c.recent.pastAll (tokensOf m)
  text : c.pending l ++ s = spelledAs c.recent m ++ c'.pending l'

theorem Lays.trans {c c₁ c₂ : Cursor} {l l₁ l₂ : Lead} {s s₁ : String} {m m₁ : List Marked}
    (h : Lays c l s c₁ l₁ m) (h₁ : Lays c₁ l₁ s₁ c₂ l₂ m₁) :
    Lays c l (s ++ s₁) c₂ l₂ (m ++ m₁) where
  rest := by rw [h.rest, h₁.rest, tokensOf_append, List.append_assoc]
  recent := by rw [h₁.recent, h.recent, tokensOf_append, Recent.pastAll_append]
  text := by
    calc c.pending l ++ (s ++ s₁)
        = spelledAs c.recent m ++ (c₁.pending l₁ ++ s₁) := by
          rw [← String.append_assoc, h.text, String.append_assoc]
      _ = spelledAs c.recent (m ++ m₁) ++ c₂.pending l₂ := by
          rw [h₁.text, h.recent, spelledAs_append, String.append_assoc]

/-- A token is taken and its text is written. -/
theorem Lays.token {c : Cursor} {t : Token} {ts : List Token} (hr : c.rest = t :: ts) (l : Lead) :
    Lays c l t.text (c.after t ts) .omitted [(l, t)] where
  rest := hr
  recent := rfl
  text := by simp [Cursor.pending, hr, spelledAs]

/-! ## Runs -/

/-- A run only adds remarks and takes tokens. -/
structure Goes (c c' : Cursor) : Prop where
  remarks : c.remarks <:+ c'.remarks
  rest : c'.rest <:+ c.rest

theorem Goes.refl (c : Cursor) : Goes c c :=
  ⟨List.suffix_rfl, List.suffix_rfl⟩

theorem Goes.trans {c c₁ c₂ : Cursor} (h : Goes c c₁) (h₁ : Goes c₁ c₂) : Goes c c₂ :=
  ⟨h.remarks.trans h₁.remarks, h₁.rest.trans h.rest⟩

theorem Goes.remark (c : Cursor) (r : Remark) : Goes c (c.remark r) :=
  ⟨List.suffix_cons r c.remarks, List.suffix_rfl⟩

theorem tally_goes : Tally fun c _ _ c' _ => Goes c c' where
  refl c _ := Goes.refl c
  trans h h' := h.trans h'
  token hr := ⟨List.suffix_rfl, hr ▸ List.suffix_cons _ _⟩
  gap _ _ := Goes.refl _

/-- What is asked of a run is asked of its parts, and that a text written in place of
    another is the same. -/
structure Regular (Q : Cursor → Cursor → Prop) : Prop where
  first {c c₁ c₂ : Cursor} : Goes c c₁ → Goes c₁ c₂ → Q c c₂ → Q c c₁
  last {c c₁ c₂ : Cursor} : Goes c c₁ → Goes c₁ c₂ → c₁.deferred = c.deferred → Q c c₂ → Q c₁ c₂
  agrees {c c' : Cursor} {found written : String} :
    Goes c c' → Q c (c'.remark (.replaced found written)) → found = written

/-- All remarks of the run are as `p` says. -/
def Remarking (p : Remark → Bool) (c c' : Cursor) : Prop :=
  ∀ added, c'.remarks = added ++ c.remarks → added.all p = true

theorem Remarking.cons {p : Remark → Bool} {r : Remark} {c c' : Cursor} (h : Goes c c')
    (hq : Remarking p c (c'.remark r)) : p r = true := by
  obtain ⟨added, hadded⟩ := h.remarks
  have hall := hq (r :: added) (by rw [List.cons_append, hadded]; rfl)
  exact (Bool.and_eq_true _ _ ▸ List.all_cons ▸ hall).1

theorem Remarking.parts {p : Remark → Bool} {c c₁ c₂ : Cursor} (h : Goes c c₁) (h₁ : Goes c₁ c₂)
    (hq : Remarking p c c₂) : Remarking p c c₁ ∧ Remarking p c₁ c₂ := by
  obtain ⟨first, hfirst⟩ := h.remarks
  obtain ⟨second, hsecond⟩ := h₁.remarks
  have hall := hq (second ++ first) (by rw [List.append_assoc, hfirst, hsecond])
  rw [List.all_append, Bool.and_eq_true] at hall
  constructor
  · intro added hadded
    rw [List.append_cancel_right (hadded.symm.trans hfirst.symm)]
    exact hall.2
  · intro added hadded
    rw [List.append_cancel_right (hadded.symm.trans hsecond.symm)]
    exact hall.1

/-- A run from a cursor without remarks. -/
theorem Remarking.of_nil {p : Remark → Bool} {c c' : Cursor} (hc : c.remarks = [])
    (h : c'.remarks.all p = true) : Remarking p c c' := by
  intro added hadded
  rw [hc, List.append_nil] at hadded
  rwa [← hadded]

/-- If the run from `c` to `c'` is as asked, it leaves what is kept aside as it is, and its
    tokens are laid out like `S`. -/
structure Laid (Q : Cursor → Cursor → Prop) (S : Layout) (c : Cursor) (l : Lead) (s : String)
    (c' : Cursor) (l' : Lead) : Prop where
  goes : Goes c c'
  lays : Q c c' → c'.deferred = c.deferred ∧ ∃ m ∈ S, Lays c l s c' l' m

variable {Q : Cursor → Cursor → Prop} {S S' : Layout}
variable {c c' c₁ c₂ : Cursor} {l l' l₁ : Lead} {s s' : String} {t : Token}

/-- An operator is no line break and no comment. -/
theorem isFiller_of_isOp {o : Operator} (h : t.isOp o = true) : t.isFiller = false := by
  have hkind : t.kind = .operator := by
    by_contra hkind
    simp [Token.isOp, Token.exact, hkind] at h
  simp [Token.isFiller, hkind]

namespace Laid

theorem congr (h : Laid Q S c l s c' l') (e : s = s') : Laid Q S c l s' c' l' := e ▸ h

theorem mono (h : Laid Q S c l s c' l') (hS : S ≤ S') : Laid Q S' c l s c' l' where
  goes := h.goes
  lays hq := by
    obtain ⟨hd, m, hm, hlays⟩ := h.lays hq
    exact ⟨hd, m, hS hm, hlays⟩

theorem trans (K : Regular Q) (h : Laid Q S c l s c₁ l₁) (h' : Laid Q S' c₁ l₁ s' c' l') :
    Laid Q (S * S') c l (s ++ s') c' l' where
  goes := h.goes.trans h'.goes
  lays hq := by
    obtain ⟨hd, m, hm, hlays⟩ := h.lays (K.first h.goes h'.goes hq)
    obtain ⟨hd', m', hm', hlays'⟩ := h'.lays (K.last h.goes h'.goes hd hq)
    exact ⟨hd'.trans hd, m ++ m', Language.append_mem_mul hm hm', hlays.trans hlays'⟩

/-- A run that takes no token. -/
theorem still (h : c.pending l ++ s = c.pending l') : Laid Q 1 c l s c l' where
  goes := Goes.refl c
  lays _ := ⟨rfl, [], Language.nil_mem_one, rfl, rfl, by rw [h]; simp [spelledAs]⟩

theorem refl (c : Cursor) (l : Lead) : Laid Q 1 c l "" c l :=
  still (by simp)

/-- A text that is written in place of another one. -/
theorem replaced (K : Regular Q) {found written : String} (h : Laid Q S c l found c' l') :
    Laid Q S c l written (c'.remark (.replaced found written)) l' where
  goes := h.goes.trans (Goes.remark _ _)
  lays hq := by
    obtain rfl := K.agrees h.goes hq
    obtain ⟨hd, m, hm, hlays⟩ := h.lays (K.first h.goes (Goes.remark _ _) hq)
    exact ⟨hd, m, hm, hlays.rest, hlays.recent, hlays.text⟩

/-- The gap before the token taken last, in place of the one before the next. -/
theorem former (h : Scan.gapBefore c = .ok s c') : Laid Q 1 c .omitted s c' .former := by
  obtain ⟨⟨a, u, ha, hu, rfl⟩, rfl⟩ := gapBefore_ok.1 h
  refine still ?_
  simp [Cursor.pending, Cursor.recent, Lead.text, repeated, ha, hu, gapBetween]

/-- Runs that are laid out keep an account of any token, whatever is written of its lead. -/
theorem account (K : Regular Q) : Account (fun _ => True) (Laid Q) where
  ready_once := trivial
  refl := refl
  trans := trans K
  mono := mono
  token {c t ts p l} hr hp _ := by
    refine ⟨⟨List.suffix_rfl, hr ▸ List.suffix_cons t ts⟩, fun _ => ?_⟩
    exact ⟨rfl, [(l, t)], mem_word hp, Lays.token hr l⟩
  gap {c a t ts n} ha hr _ := by
    refine still ?_
    simp [Cursor.pending, Cursor.recent, Lead.text, repeated, ha, hr, gapBetween]

section
variable (K : Regular Q) {p : Token → Bool}
include K

/-- A token that was asked to have a text, under that text, with the gap after it. -/
theorem textAndGap {text : String} (ht : Scan.expect (·.text = text) c = .ok t c₁)
    (h : Scan.gapAfter c₁ = .ok s c') (l : Lead) :
    Laid Q (word (·.text = text) l) c l (text ++ s) c' .once := by
  have htext : Laid Q (word (·.text = text) l) c l text c₁ .omitted :=
    ((account K).expect ht trivial).congr (by simpa using (expect_ok.1 ht).2)
  exact (account K).followed htext ((account K).gapAfter h trivial)

/-- An operator that comes next, with the line breaks and comments after it. -/
theorem enclosedOp {before after : Bool} {o : Operator} (hnext : c.rest.head? = some t)
    (ht : t.isOp o = true) (h : Scan.enclosed before after c = .ok s c') (n : Nat) :
    Laid Q (group (·.isOp o) (.own (n + before.toNat))) c (.own n) s c' (.own after.toNat) := by
  refine (account K).enclosed (fun u hu => ?_) h trivial
  obtain ⟨ts, hts⟩ := List.head?_eq_some_iff.1 hnext
  rw [hts, List.dropWhile_cons_of_neg (by simp [isFiller_of_isOp ht]), List.head?_cons,
    Option.some.injEq] at hu
  exact hu ▸ ht

end

end Laid

/-! ## Parts -/

/-- The items of a field that holds a list. -/
def itemsOf (fields : List (String × Tree)) (name : String) : List Tree :=
  match fields.lookup name with
  | some (.list items) => items
  | _ => []

section
variable {lines : List String} {path : Path} {m : Scan (List Markup)} {ms : List Markup}

/-- A step that is left out if it is not asked for. -/
theorem onlyIf_laid {asked : Bool}
    (hm : asked = true → ∀ ms c', m c = .ok ms c' → Laid Q S c l (contents ms) c' l)
    (h : onlyIf asked m c = .ok ms c') :
    Laid Q (if asked then S else 1) c l (contents ms) c' l := by
  cases asked with
  | false =>
    obtain ⟨rfl, rfl⟩ := pure_ok.1 h
    exact (Laid.refl c l).congr (by simp)
  | true => exact hm rfl ms c' h

/-- The step adds markup whose tokens are laid out like `S`. -/
abbrev AddsLaid (Q : Cursor → Cursor → Prop) (S : Layout) (l l' : Lead) (f : Into) : Prop :=
  f.Adds fun c ms c' => Laid Q S c l (contents ms) c' l'

/-- The items of a list are laid out one after the other. -/
theorem addEach_laid (K : Regular Q) {f : Part → Into} {F : Tree → Layout} {items : List Tree}
    {i : Nat} (hf : ∀ t ∈ items, ∀ path, AddsLaid Q (F t) l l (f (toPart lines path t))) :
    AddsLaid Q (items.map F).prod l l (addEach f (toItems lines path i items)) := by
  induction items generalizing i with
  | nil =>
    intro before c ms c' h
    obtain ⟨rfl, rfl⟩ := pure_ok.1 h
    exact ⟨[], by simp, (Laid.refl c l).congr (by simp)⟩
  | cons t items ih =>
    intro before c ms c' h
    simp only [toItems, addEach, bind_ok] at h
    obtain ⟨inside, c₁, hx, hxs⟩ := h
    obtain ⟨first, rfl, hfirst⟩ := hf t List.mem_cons_self _ _ _ _ _ hx
    obtain ⟨others, rfl, hothers⟩ :=
      ih (fun t' ht' => hf t' (List.mem_cons_of_mem t ht')) _ _ _ _ hxs
    rw [List.map_cons, List.prod_cons]
    exact ⟨first ++ others, by simp, (Laid.trans K hfirst hothers).congr (by simp)⟩

/-- The items of a field are laid out one after the other; the letters of a text are no
    items. -/
theorem fieldItems_laid (K : Regular Q) {f : Part → Into} {F : Tree → Layout} {ref : NodeRef}
    {fields : List (String × Tree)} {name : String} {ps : List Part} {c₀ : Cursor}
    (hletter : ∀ before c r c', f .letter before c ≠ .ok r c')
    (hf : ∀ t ∈ itemsOf fields name, ∀ path, AddsLaid Q (F t) l l (f (toPart lines path t)))
    (hitems : (⟨ref, toFields lines path fields⟩ : Site).fieldItems name c₀ = .ok ps c₀) :
    AddsLaid Q ((itemsOf fields name).map F).prod l l (addEach f ps) := by
  intro before c ms c' h
  obtain ⟨⟨p, hp, hps⟩, -⟩ := Site.fieldItems_ok.1 hitems
  rw [lookup_toFields, Option.map_eq_some_iff] at hp
  obtain ⟨tree, htree, rfl⟩ := hp
  have hletters : ∀ n, ps = List.replicate n Part.letter → ps = [] := by
    rintro n rfl
    cases n with
    | zero => rfl
    | succ n =>
      simp only [List.replicate_succ, addEach, bind_ok] at h
      obtain ⟨_, _, hx, -⟩ := h
      exact (hletter _ _ _ _ hx).elim
  cases tree with
  | list items =>
    rw [toPart] at hps
    obtain ⟨rfl, -⟩ := pure_ok.1 hps
    simp only [itemsOf, htree] at hf ⊢
    exact addEach_laid K hf _ _ _ _ h
  | node cls places fields =>
    rw [toPart] at hps
    exact (fail_ok.1 hps).elim
  | leaf v =>
    rw [toPart] at hps
    have hnil : ps = [] := by
      cases v with
      | str s =>
        obtain ⟨rfl, -⟩ := pure_ok.1 hps
        exact hletters s.toList.length (by rw [List.map_const'])
      | bytes bs =>
        obtain ⟨rfl, -⟩ := pure_ok.1 hps
        exact hletters bs.length (by rw [List.map_const'])
      | none | bool | int | real | complex | ellipsis => exact (fail_ok.1 hps).elim
    subst hnil
    obtain ⟨rfl, rfl⟩ := pure_ok.1 h
    simp only [itemsOf, htree]
    exact ⟨[], by simp, (Laid.refl c l).congr (by simp)⟩

end

/-! ## Parentheses -/

/-- Either there is no parenthesis to take, or it is taken and kept aside. -/
theorem openParenthesis_ok {r : NodeRef} (h : openParenthesis r c = .ok () c') :
    c = c' ∨ ∃ t text c₁ next, c.rest.head? = some t ∧ t.isOp .lpar = true ∧
      enclosed false true c = .ok text c₁ ∧ c₁.rest.head? = some next ∧
      { c₁.remark .deferred with deferred := ⟨text, next.start, r.path⟩ :: c₁.deferred } = c' := by
  simp only [openParenthesis, bind_ok, peek_ok] at h
  obtain ⟨t, _, ⟨ht, rfl⟩, h⟩ := h
  split at h
  · rename_i hpar
    simp only [bind_ok, orFail_ok] at h
    obtain ⟨place, _, ⟨-, rfl⟩, h⟩ := h
    split at h
    · simp only [bind_ok, defer, modify_ok, peek_ok] at h
      obtain ⟨text, c₁, htext, next, _, ⟨hnext, rfl⟩, hc⟩ := h
      exact Or.inr ⟨t, text, c₁, next, ht, hpar, htext, hnext, hc⟩
    · exact Or.inl (pure_ok.1 h).2
  · exact Or.inl (pure_ok.1 h).2

theorem openParenthesis_goes {r : NodeRef} (h : openParenthesis r c = .ok () c') : Goes c c' := by
  rcases openParenthesis_ok h with rfl | ⟨t, text, c₁, next, -, -, htext, -, rfl⟩
  · exact Goes.refl c
  · exact (tally_goes.enclosed htext).trans ⟨List.suffix_cons _ _, List.suffix_rfl⟩

theorem enclose_goes {r : NodeRef} {start : Except Cause Position} {rule : Into}
    {before ms : List Markup} (hone : rule.AddsOne)
    (hrule : ∀ c ms c', rule [] c = .ok ms c' → Goes c c')
    (h : enclose r start rule before c = .ok ms c') : Goes c c' := by
  obtain ⟨c₁, e, c₂, ho, he, hend⟩ := enclose_ok hone h
  have hgoes := (openParenthesis_goes ho).trans (hrule _ _ _ he)
  rcases hend with ⟨-, rfl, -⟩ | ⟨d, ds, right, -, -, hr, -⟩
  · exact hgoes
  · have hright := tally_goes.enclosed hr
    exact hgoes.trans ⟨hright.remarks, hright.rest⟩

/-- The run keeps no parenthesis aside and writes no other text in place of a token's. -/
structure PlainRun (c c' : Cursor) : Prop where
  nothing : c.deferred = []
  plain : Remarking Remark.isPlain c c'

theorem regular_plainRun : Regular PlainRun where
  first h h₁ hq := ⟨hq.nothing, (Remarking.parts h h₁ hq.plain).1⟩
  last h h₁ hd hq := ⟨hd.trans hq.nothing, (Remarking.parts h h₁ hq.plain).2⟩
  agrees h hq := by simpa [Remark.isPlain] using Remarking.cons h hq.plain

/-- An expression is laid out like its rule, if no parenthesis is kept aside. -/
theorem enclose_laid {r : NodeRef} {start : Except Cause Position} {rule : Into}
    (hone : rule.AddsOne)
    (hrule : ∀ c ms c', rule [] c = .ok ms c' → Laid PlainRun S c l (contents ms) c' .omitted) :
    AddsLaid PlainRun S l .omitted (enclose r start rule) := by
  intro before c ms c' h
  have K := regular_plainRun
  obtain ⟨added, rfl, hadded⟩ := enclose_adds hone before c ms c' h
  refine ⟨added, rfl, enclose_goes hone (fun c ms c' he => (hrule c ms c' he).goes) hadded,
    fun hq => ?_⟩
  obtain ⟨c₁, e, c₂, ho, he, hr, hplain⟩ := enclose_plain hone hadded
  have hq₂ : PlainRun c c₂ := ⟨hq.nothing, fun added hadded => hq.plain added (hr.trans hadded)⟩
  rcases openParenthesis_ok ho with rfl | ⟨t, text, c₀, next, -, -, htext, -, rfl⟩
  · obtain ⟨hd, m, hm, hlays⟩ := (hrule _ _ _ he).lays hq₂
    obtain ⟨rfl, rfl⟩ := hplain (hd.trans hq.nothing)
    exact ⟨hd, m, hm, hlays⟩
  · -- a parenthesis that is kept aside is remarked upon
    have hq₁ := K.first (openParenthesis_goes ho) (hrule _ _ _ he).goes hq₂
    have hdeferred : Remarking Remark.isPlain c (c₀.remark .deferred) := hq₁.plain
    cases Remarking.cons (tally_goes.enclosed htext) hdeferred

/-! ## Names and items -/

/-- A name. -/
abbrev nameWord : Lead → Layout :=
  word (·.kind = .name)

theorem nameRule_laid (K : Regular Q) {n : Site} {ms : List Markup}
    (h : nameRule n [] c = .ok ms c') (l : Lead) :
    Laid Q (nameWord l) c l (contents ms) c' .omitted := by
  simp only [nameRule, bind_ok, pure_ok, Site.field_ok, inPlaceOf_ok, Site.fieldCls_ok] at h
  obtain ⟨t, c₁, ht, id, _, ⟨-, rfl⟩, inside, c₂, hin, _, _, rfl, ctx, _, ⟨-, rfl⟩, rfl, rfl⟩ := h
  obtain ⟨-, -, rfl⟩ := Part.caption_ok hin
  exact ((Laid.account K).expectShown ht trivial).replaced K |>.congr (by simp)

/-- An item with the comma after it. -/
theorem delimitedItem_laid (K : Regular Q) {p : Part} (hp : AddsLaid Q S .once .omitted p.addTo) :
    AddsLaid Q (S * commas) .once .once (delimitedItem p) := by
  intro before c ms c' h
  simp only [delimitedItem, bind_ok, pure_ok] at h
  obtain ⟨inside, c₁, hin, comma, c₂, hcomma, rfl, rfl⟩ := h
  obtain ⟨added, rfl, hadded⟩ := hp _ _ _ _ hin
  refine ⟨added ++ [.text comma], by simp, ?_⟩
  exact (Laid.trans K hadded ((Laid.account K).delimiter hcomma)).congr (by simp)

theorem not_letter_delimitedItem (before : List Markup) (c : Cursor) (r : List Markup)
    (c' : Cursor) : delimitedItem .letter before c ≠ .ok r c' := by
  intro h
  simp only [delimitedItem, bind_ok] at h
  obtain ⟨_, _, hwrite, -⟩ := h
  exact fail_ok.1 hwrite

/-! ## Runs that can be evaluated -/

/-- What a step that can be evaluated gives. -/
theorem exists_ok {α : Type} (m : Scan α) (c : Cursor) (p : α → Cursor → Bool)
    (h : (match m c with
      | .ok a c' => p a c'
      | .error _ _ => false) = true) :
    ∃ a c', m c = .ok a c' ∧ p a c' = true := by
  split at h
  · exact ⟨_, _, ‹_›, h⟩
  · cases h

end SourceScribe.Conversion
