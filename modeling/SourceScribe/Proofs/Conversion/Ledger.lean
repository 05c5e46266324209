/-
  Keeping account of the text that a run writes.

  `W S c l s c' l'` says that a run from the cursor `c` to the cursor `c'` accounts for its
  tokens, which are in the layout `S`, by writing `s`.  `l` and `l'` tell what is written of
  the lead of the next token, at the start and at the end.  An `Account` is such a relation
  that single tokens and single gaps keep; what it says of runs of tokens follows from that
  (`absorb`, `enclosed`, `delimiter`, `betweenStatements`).

  A `Tally` leaves the layout out of account, and every lead is the gap before the token:
  `R c b s c' b'`, where `b` and `b'` tell whether the gap before the next token is written
  already.  A `Ledger` also keeps account of texts written for others, and of parentheses
  kept aside; one that `Idles` also of gaps written for parts that are not there.

  Expressions start with the gap written and end with the next one unwritten,
  statements start and end with it unwritten.
-/
import SourceScribe.Proofs.Conversion.Fragment
import SourceScribe.Proofs.Token.Leads

namespace SourceScribe.Conversion

open Scan Markup Layout

/-! ## Accounts -/

/-- A way of accounting for the text of tokens and gaps.  It takes tokens whose leads are
    written as far as `Ready` asks. -/
structure Account (Ready : Lead → Prop)
    (W : Layout → Cursor → Lead → String → Cursor → Lead → Prop) : Prop where
  ready_once : Ready .once
  refl (c : Cursor) (l : Lead) : W 1 c l "" c l
  trans {S S₁ : Layout} {c c₁ c₂ : Cursor} {l l₁ l₂ : Lead} {s s₁ : String} :
    W S c l s c₁ l₁ → W S₁ c₁ l₁ s₁ c₂ l₂ → W (S * S₁) c l (s ++ s₁) c₂ l₂
  mono {S S₁ : Layout} {c c' : Cursor} {l l' : Lead} {s : String} :
    W S c l s c' l' → S ≤ S₁ → W S₁ c l s c' l'
  /-- A token is taken and its text is written. -/
  token {c : Cursor} {t : Token} {ts : List Token} {p : Token → Bool} {l : Lead} :
    c.rest = t :: ts → p t = true → Ready l → W (word p l) c l t.text (c.after t ts) .omitted
  /-- The gap before the next token is written. -/
  gap {c : Cursor} {a t : Token} {ts : List Token} {n : Nat} :
    c.current = some a → c.rest = t :: ts → Ready (.own (n + 1)) →
      W 1 c (.own n) (a.gap t) c (.own (n + 1))

namespace Account

variable {Ready : Lead → Prop} {W : Layout → Cursor → Lead → String → Cursor → Lead → Prop}
variable {S S' : Layout} {c c' c₁ c₂ : Cursor} {l l' l₁ : Lead} {s s' : String} {t : Token}
variable {p : Token → Bool} {n : Nat}

theorem congr (h : W S c l s c' l') (e : s = s') : W S c l s' c' l' := e ▸ h

section
variable (A : Account Ready W)
include A

/-- A run that takes tokens, after one that takes none. -/
theorem before (h : W 1 c l s c₁ l₁) (h' : W S c₁ l₁ s' c' l') : W S c l (s ++ s') c' l' := by
  simpa only [one_mul] using A.trans h h'

/-- A run that takes tokens, before one that takes none. -/
theorem followed (h : W S c l s c₁ l₁) (h' : W 1 c₁ l₁ s' c' l') : W S c l (s ++ s') c' l' := by
  simpa only [mul_one] using A.trans h h'

/-! ### Single tokens -/

theorem take (h : Scan.take c = .ok t c') (hp : p t = true) (hl : Ready l) :
    W (word p l) c l t.text c' .omitted := by
  obtain ⟨ts, hr, rfl⟩ := take_ok.1 h
  exact A.token hr hp hl

theorem expect (h : Scan.expect p c = .ok t c') (hl : Ready l) :
    W (word p l) c l t.text c' .omitted :=
  A.take (expect_ok.1 h).1 (expect_ok.1 h).2 hl

theorem expectShown (h : Scan.expectShown p c = .ok t c') (hl : Ready l) :
    W (word p l) c l t.text c' .omitted :=
  A.take (expectShown_ok.1 h).1 (expectShown_ok.1 h).2 hl

/-- The gap before the next token, once more. -/
theorem gapAfter (h : Scan.gapAfter c = .ok s c') (hn : Ready (.own (n + 1))) :
    W 1 c (.own n) s c' (.own (n + 1)) := by
  obtain ⟨⟨a, u, ha, hu, rfl⟩, rfl⟩ := gapAfter_ok.1 h
  obtain ⟨us, hus⟩ := List.head?_eq_some_iff.1 hu
  exact A.gap ha hus hn

/-- The gap before a token that was just taken, written before it. -/
theorem gapBefore (ht : Scan.take c = .ok t c₁) (h : Scan.gapBefore c₁ = .ok s c₂)
    (hn : Ready (.own (n + 1))) : W 1 c (.own n) s c (.own (n + 1)) := by
  obtain ⟨ts, hr, rfl⟩ := take_ok.1 ht
  obtain ⟨⟨a, u, ha, hu, rfl⟩, -⟩ := gapBefore_ok.1 h
  rw [Cursor.after_previous] at ha
  rw [Cursor.after_current, Option.some.injEq] at hu
  exact hu ▸ A.gap ha hr hn

/-- A token that was just taken, with the gap before it. -/
theorem takeAfterGap (ht : Scan.take c = .ok t c₁) (hp : p t = true)
    (h : Scan.gapBefore c₁ = .ok s c₂) (hn : Ready (.own (n + 1))) :
    W (word p (.own (n + 1))) c (.own n) (s ++ t.text) c₁ .omitted :=
  A.before (A.gapBefore ht h hn) (A.take ht hp hn)

/-- A token that was just taken, with the gaps on both sides. -/
theorem takeWithGaps (ht : Scan.take c = .ok t c₁) (hp : p t = true)
    (h : Scan.withGaps c₁ = .ok s c₂) (hn : Ready (.own (n + 1))) :
    W (word p (.own (n + 1))) c (.own n) s c₂ .once := by
  obtain ⟨⟨before, u, after, hb, hu, ha, rfl⟩, rfl⟩ := withGaps_ok.1 h
  have hut : u = t := by
    obtain ⟨ts, -, rfl⟩ := take_ok.1 ht
    rwa [Cursor.after_current, Option.some.injEq, eq_comm] at hu
  subst hut
  exact A.followed (A.takeAfterGap ht hp hb hn) (A.gapAfter ha A.ready_once)

theorem expectWithGaps (ht : Scan.expect p c = .ok t c₁) (h : Scan.withGaps c₁ = .ok s c₂)
    (hn : Ready (.own (n + 1))) : W (word p (.own (n + 1))) c (.own n) s c₂ .once :=
  A.takeWithGaps (expect_ok.1 ht).1 (expect_ok.1 ht).2 h hn

/-! ### Runs of tokens -/

theorem absorbFrom {ts : List Token} (hr : c.rest = ts)
    (h : Scan.absorbFrom p ts c = .ok s c') : W (many p) c .omitted s c' .omitted := by
  induction ts generalizing c s with
  | nil => exact (fail_ok.1 h).elim
  | cons t ts ih =>
    rw [Scan.absorbFrom] at h
    split at h
    · rename_i hp
      simp only [bind_ok, pure_ok] at h
      obtain ⟨u, c₁, ht, before, c₂, hb, more, c₃, hm, rfl, rfl⟩ := h
      obtain ⟨rfl, hts⟩ := take_cons hr ht
      have h₁ := A.takeAfterGap ht hp hb A.ready_once
      obtain ⟨-, rfl⟩ := gapBefore_ok.1 hb
      exact A.mono (A.trans h₁ (ih hts hm)) (word_mul_many p)
    · obtain ⟨rfl, rfl⟩ := pure_ok.1 h
      exact A.mono (A.refl c .omitted) (one_le_many p)

theorem absorb (h : Scan.absorb p c = .ok s c') : W (many p) c .omitted s c' .omitted := by
  simp only [Scan.absorb, bind_ok, get_ok] at h
  obtain ⟨_, _, ⟨rfl, rfl⟩, h⟩ := h
  exact A.absorbFrom rfl h

theorem betweenStatements {after : Bool} (h : Scan.betweenStatements after c = .ok s c') :
    W (many Token.isBetweenStatements) c .omitted s c' (.own after.toNat) := by
  simp only [Scan.betweenStatements, bind_ok] at h
  obtain ⟨text, c₁, ht, h⟩ := h
  cases after with
  | false =>
    obtain ⟨rfl, rfl⟩ := pure_ok.1 h
    exact A.absorb ht
  | true =>
    simp only [if_true, bind_ok, pure_ok] at h
    obtain ⟨gap, c₂, hg, rfl, rfl⟩ := h
    exact A.followed (A.absorb ht) (A.gapAfter hg A.ready_once)

theorem delimiter (h : Scan.delimiter c = .ok s c') : W commas c .omitted s c' .once := by
  simp only [Scan.delimiter, bind_ok, pure_ok] at h
  obtain ⟨text, c₁, ht, gap, c₂, hg, rfl, rfl⟩ := h
  exact A.followed (A.absorb ht) (A.gapAfter hg A.ready_once)

/-- A token with the gap before it, if that is wanted. -/
theorem takeBefore {before : Bool} (ht : Scan.take c = .ok t c₁) (hp : p t = true)
    (h : Scan.gapBeforeIf before c₁ = .ok s c₂) (hn : Ready (.own (n + before.toNat))) :
    W (word p (.own (n + before.toNat))) c (.own n) (s ++ t.text) c₁ .omitted := by
  cases before with
  | false =>
    obtain ⟨rfl, -⟩ := pure_ok.1 h
    exact congr (A.take ht hp hn) (by simp)
  | true => exact A.takeAfterGap ht hp h hn

/-- A token is taken from `ts`, and what follows starts with its gap unwritten. -/
theorem enclosedStep {before : Bool} {ts : List Token} {r : String × Bool}
    {m : Scan (String × Bool)} (hr : c.rest = t :: ts) (hp : p t = true)
    (hm : ∀ c r c', c.rest = ts → m c = .ok r c' → W S c .omitted r.1 c' .omitted)
    (h : (do
      let _ ← Scan.take
      let left ← Scan.gapBeforeIf before
      let (more, taken) ← m
      return (left ++ t.text ++ more, taken) : Scan (String × Bool)) c = .ok r c')
    (hn : Ready (.own (n + before.toNat))) :
    W (word p (.own (n + before.toNat)) * S) c (.own n) r.1 c' .omitted := by
  simp only [bind_ok, pure_ok] at h
  obtain ⟨u, c₁, ht, left, c₂, hl, ⟨more, taken⟩, c₃, hmore, rfl, rfl⟩ := h
  obtain ⟨rfl, hts⟩ := take_cons hr ht
  have h₁ := A.takeBefore ht hp hl hn
  obtain rfl := gapBeforeIf_ok hl
  exact A.trans h₁ (hm _ _ _ hts hmore)

/-- A token that may be there or not: some tokens are taken. -/
theorem enclosedFrom {want : Option ExactKind} {found : Bool} {ts : List Token}
    {r : String × Bool} (hr : c.rest = ts)
    (h : Scan.enclosedFrom want found true ts c = .ok r c') :
    W (many fun _ => true) c .omitted r.1 c' .omitted := by
  induction ts generalizing c c' found r with
  | nil => rw [Scan.enclosedFrom] at h; exact (fail_ok.1 h).elim
  | cons t ts ih =>
    have hnone : W (many fun _ => true) c .omitted "" c .omitted :=
      A.mono (A.refl c .omitted) (one_le_many _)
    rw [Scan.enclosedFrom] at h
    split at h
    · exact A.mono (A.enclosedStep (n := 0) hr rfl (fun _ _ _ => ih) h A.ready_once)
        (word_mul_many _)
    split at h
    · obtain ⟨rfl, rfl⟩ := pure_ok.1 h
      exact hnone
    split at h
    · obtain ⟨rfl, rfl⟩ := pure_ok.1 h
      exact hnone
    · exact A.mono (A.enclosedStep (n := 0) hr rfl (fun _ _ _ => ih) h A.ready_once)
        (word_mul_many _)

/-- After the token that is asked for, only line breaks and comments are taken. -/
theorem enclosedFrom_found {want : Option ExactKind} {ts : List Token} {r : String × Bool}
    (hr : c.rest = ts) (h : Scan.enclosedFrom want true true ts c = .ok r c') :
    W fillers c .omitted r.1 c' .omitted := by
  induction ts generalizing c c' r with
  | nil => rw [Scan.enclosedFrom] at h; exact (fail_ok.1 h).elim
  | cons t ts ih =>
    rw [Scan.enclosedFrom] at h
    split at h
    · rename_i hfiller
      exact A.mono (A.enclosedStep (n := 0) hr hfiller (fun _ _ _ => ih) h A.ready_once)
        (word_mul_many _)
    · obtain ⟨rfl, rfl⟩ := pure_ok.1 h
      exact A.mono (A.refl c .omitted) (one_le_many _)

/-- A token of any kind; `p` tells of it. -/
theorem enclosedFrom_any {before : Bool} {ts : List Token} {r : String × Bool}
    (hr : c.rest = ts) (hp : ∀ t, (ts.dropWhile Token.isFiller).head? = some t → p t = true)
    (h : Scan.enclosedFrom none false before ts c = .ok r c')
    (hn : Ready (.own (n + before.toNat))) :
    W (group p (.own (n + before.toNat))) c (.own n) r.1 c' .omitted := by
  induction ts generalizing c c' r before n with
  | nil => rw [Scan.enclosedFrom] at h; exact (fail_ok.1 h).elim
  | cons t ts ih =>
    rw [Scan.enclosedFrom] at h
    split at h
    · rename_i hfiller
      rw [List.dropWhile_cons_of_pos hfiller] at hp
      have hrest (c : Cursor) (r : String × Bool) (c' : Cursor) (hts : c.rest = ts)
          (hm : Scan.enclosedFrom none false true ts c = .ok r c') :
          W (group p .once) c .omitted r.1 c' .omitted :=
        ih (n := 0) hts hp hm A.ready_once
      exact A.mono (A.enclosedStep hr hfiller hrest h hn) filler_mul_group
    · rename_i hfiller
      rw [List.dropWhile_cons_of_neg hfiller] at hp
      have ht : (p t && !t.isFiller) = true := by simp [hp t rfl, hfiller]
      exact A.mono (A.enclosedStep hr (p := fun t => p t && !t.isFiller) ht
        (fun _ _ _ => A.enclosedFrom_found) h hn) word_mul_fillers

omit A in
theorem enclosedFrom_taken {found before : Bool} {ts : List Token} {r : String × Bool}
    (h : Scan.enclosedFrom none found before ts c = .ok r c') : r.2 = true := by
  induction ts generalizing c c' found before r with
  | nil => rw [Scan.enclosedFrom] at h; exact (fail_ok.1 h).elim
  | cons t ts ih =>
    rw [Scan.enclosedFrom] at h
    split at h
    · simp only [bind_ok, pure_ok] at h
      obtain ⟨_, _, -, _, _, -, ⟨more, taken⟩, _, hm, rfl, -⟩ := h
      have ht : taken = true := ih hm
      exact ht
    split at h
    · obtain ⟨rfl, -⟩ := pure_ok.1 h; rfl
    · simp only [Option.any_none, Bool.false_eq_true, if_false, bind_ok, pure_ok] at h
      obtain ⟨_, _, -, _, _, -, ⟨more, taken⟩, _, hm, rfl, -⟩ := h
      have ht : taken = true := ih hm
      exact ht

/-- A token that may be there or not, with the gap before it. -/
theorem enclosedOf {want : Option ExactKind} (h : Scan.enclosedOf want true false c = .ok s c') :
    W (many fun _ => true) c .omitted s c' .omitted := by
  simp only [Scan.enclosedOf, bind_ok, get_ok, Bool.and_false, Bool.false_eq_true, if_false,
    pure_ok] at h
  obtain ⟨_, _, ⟨rfl, rfl⟩, r, _, h, rfl, rfl⟩ := h
  exact A.enclosedFrom rfl h

/-- One token with the line breaks and comments around it; `p` tells of it. -/
theorem enclosed {before after : Bool}
    (hp : ∀ t, (c.rest.dropWhile Token.isFiller).head? = some t → p t = true)
    (h : Scan.enclosed before after c = .ok s c') (hn : Ready (.own (n + before.toNat))) :
    W (group p (.own (n + before.toNat))) c (.own n) s c' (.own after.toNat) := by
  simp only [Scan.enclosed, Scan.enclosedOf, bind_ok, get_ok] at h
  obtain ⟨_, _, ⟨rfl, rfl⟩, r, c₁, h, hs⟩ := h
  have h₁ := A.enclosedFrom_any rfl hp h hn
  rw [enclosedFrom_taken h] at hs
  cases after with
  | false =>
    obtain ⟨rfl, rfl⟩ := pure_ok.1 hs
    exact h₁
  | true =>
    simp only [Bool.and_self, if_true, bind_ok, pure_ok] at hs
    obtain ⟨gap, c₂, hg, rfl, rfl⟩ := hs
    exact A.followed h₁ (A.gapAfter hg A.ready_once)

end

end Account

/-! ## Tallies -/

/-- An account of the gap before each token: it is written once, and before the token. -/
structure Tally (R : Cursor → Bool → String → Cursor → Bool → Prop) : Prop where
  refl (c : Cursor) (b : Bool) : R c b "" c b
  trans {c c₁ c₂ : Cursor} {b b₁ b₂ : Bool} {s s₁ : String} :
    R c b s c₁ b₁ → R c₁ b₁ s₁ c₂ b₂ → R c b (s ++ s₁) c₂ b₂
  /-- A token is taken and its text is written. -/
  token {c : Cursor} {t : Token} {ts : List Token} :
    c.rest = t :: ts → R c true t.text (c.after t ts) false
  /-- The gap before the next token is written. -/
  gap {c : Cursor} {a t : Token} {ts : List Token} :
    c.current = some a → c.rest = t :: ts → R c false (a.gap t) c true

/-- The run counts for `R` if the gap before its first token is written once or not at all. -/
def Counts (R : Cursor → Bool → String → Cursor → Bool → Prop) (_ : Layout) (c : Cursor)
    (l : Lead) (s : String) (c' : Cursor) (l' : Lead) : Prop :=
  ∀ b : Bool, l = .own b.toNat → ∃ b' : Bool, l' = .own b'.toNat ∧ R c b s c' b'

namespace Tally

variable {R : Cursor → Bool → String → Cursor → Bool → Prop}
variable {S : Layout} {c c' c₁ c₂ : Cursor} {s s' : String} {t : Token} {p : Token → Bool}

theorem congr {b b' : Bool} (h : R c b s c' b') (e : s = s') : R c b s' c' b' := e ▸ h

theorem of_counts (b b' : Bool) (h : Counts R S c (.own b.toNat) s c' (.own b'.toNat)) :
    R c b s c' b' := by
  obtain ⟨b'', hb, hr⟩ := h b rfl
  obtain rfl : b' = b'' := by
    revert hb
    cases b' <;> cases b'' <;> simp
  exact hr

section
variable (L : Tally R)
include L

theorem account : Account (· = .once) (Counts R) where
  ready_once := rfl
  refl c l b hb := ⟨b, hb, L.refl c b⟩
  trans h h' b hb := by
    obtain ⟨b₁, hb₁, hr⟩ := h b hb
    obtain ⟨b₂, hb₂, hr'⟩ := h' b₁ hb₁
    exact ⟨b₂, hb₂, L.trans hr hr'⟩
  mono h _ := h
  token hrest _ hl b hb := by
    obtain rfl : b = true := by cases b <;> simp_all
    exact ⟨false, rfl, L.token hrest⟩
  gap ha hrest hn b hb := by
    obtain rfl : b = false := by cases b <;> simp_all
    exact ⟨true, hn, L.gap ha hrest⟩

theorem take (h : Scan.take c = .ok t c') : R c true t.text c' false :=
  of_counts true false (L.account.take (p := fun _ => true) h rfl rfl)

theorem expect (h : Scan.expect p c = .ok t c') : R c true t.text c' false :=
  L.take (expect_ok.1 h).1

theorem expectShown (h : Scan.expectShown p c = .ok t c') : R c true t.text c' false :=
  L.take (expectShown_ok.1 h).1

theorem gapAfter (h : Scan.gapAfter c = .ok s c') : R c false s c' true :=
  of_counts false true (L.account.gapAfter (n := 0) h rfl)

theorem gapBefore (ht : Scan.take c = .ok t c₁) (h : Scan.gapBefore c₁ = .ok s c₂) :
    R c false s c true :=
  of_counts false true (L.account.gapBefore (n := 0) ht h rfl)

theorem takeWithGaps (ht : Scan.take c = .ok t c₁) (h : Scan.withGaps c₁ = .ok s c₂) :
    R c false s c₂ true :=
  of_counts false true (L.account.takeWithGaps (p := fun _ => true) (n := 0) ht rfl h rfl)

theorem expectWithGaps (ht : Scan.expect p c = .ok t c₁) (h : Scan.withGaps c₁ = .ok s c₂) :
    R c false s c₂ true :=
  L.takeWithGaps (expect_ok.1 ht).1 h

theorem absorb (h : Scan.absorb p c = .ok s c') : R c false s c' false :=
  of_counts false false (L.account.absorb h)

theorem betweenStatements {after : Bool} (h : Scan.betweenStatements after c = .ok s c') :
    R c false s c' after :=
  of_counts false after (L.account.betweenStatements h)

theorem delimiter (h : Scan.delimiter c = .ok s c') : R c false s c' true :=
  of_counts false true (L.account.delimiter h)

theorem enclosedOf {want : Option ExactKind} (h : Scan.enclosedOf want true false c = .ok s c') :
    R c false s c' false :=
  of_counts false false (L.account.enclosedOf h)

theorem enclosed {before after : Bool} (h : Scan.enclosed before after c = .ok s c') :
    R c (!before) s c' after := by
  refine of_counts (!before) after
    (L.account.enclosed (p := fun _ => true) (fun _ _ => rfl) h ?_)
  cases before <;> rfl

end

end Tally

/-! ## Ledgers -/

/-- A way of accounting for the text that a run writes. -/
structure Ledger (R : Cursor → Bool → String → Cursor → Bool → Prop) : Prop extends Tally R where
  /-- One text is written for another, and remarked upon. -/
  replaced {c c' : Cursor} {b b' : Bool} {found written : String} :
    R c b found c' b' → R c b written (c'.remark (.replaced found written)) b'
  /-- An expression keeps the account if its rule does. -/
  enclose {r : NodeRef} {start : Except Cause Position} {rule : Into} {c c' : Cursor}
    {ms : List Markup} :
    rule.AddsOne → (∀ c ms c', rule [] c = .ok ms c' → R c true (contents ms) c' false) →
      enclose r start rule [] c = .ok ms c' → R c true (contents ms) c' false

/-- The words that the gap after them is written for, even if nothing of theirs follows. -/
def idleWords : List String :=
  ["yield", "except", "*"]

/-- The account is kept if a word and the gap after it are written, and the gap is for
    nothing: the next token still has its gap unwritten. -/
def Idles (R : Cursor → Bool → String → Cursor → Bool → Prop) : Prop :=
  ∀ {c : Cursor} {t u : Token} {us : List Token}, c.rest = t :: u :: us → t.text ∈ idleWords →
    R c true (t.text ++ t.gap u) ((c.after t (u :: us)).remark (.idle (us.length + 1))) false

/-- A word, the gap after it, and the remark that it was for nothing. -/
theorem Idles.take {R : Cursor → Bool → String → Cursor → Bool → Prop} (I : Idles R)
    {c c₁ c₂ c' : Cursor} {t : Token} {s : String} (hw : t.text ∈ idleWords)
    (ht : Scan.take c = .ok t c₁) (hs : Scan.gapAfter c₁ = .ok s c₂)
    (hi : c₂.remark (.idle c₂.rest.length) = c') : R c true (t.text ++ s) c' false := by
  obtain ⟨ts, hr, rfl⟩ := take_ok.1 ht
  obtain ⟨⟨a, u, ha, hu, rfl⟩, rfl⟩ := gapAfter_ok.1 hs
  obtain rfl : t = a := Option.some.inj ha
  obtain ⟨us, rfl⟩ := List.head?_eq_some_iff.1 hu
  exact hi ▸ I hr hw

end SourceScribe.Conversion
