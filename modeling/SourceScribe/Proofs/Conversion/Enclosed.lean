/-
  One token with the line breaks and comments around it.

  `Cursor.passing` is the cursor after a run of tokens is taken.  Taking goes on over line breaks
  and comments until another token comes (`enclosedFrom_lead`), so what `enclosedOf` does depends
  only on the first two tokens that are neither.

  `enclosedOf_takes_one` says what that is: if the first of them is as asked, it is taken with
  all that stands around it, which fails just if there is no second; if not, only what stands
  before it is taken.
-/
import SourceScribe.Proofs.Conversion.Layout

namespace SourceScribe

/-- The text of the tokens after `a`, each with the gap before it; that of the first one only if
    it is asked for. -/
def Token.spelledFrom (a : Token) (before : Bool) : List Token → String
  | [] => ""
  | t :: ts => (if before then a.gap t else "") ++ t.text ++ t.spelled ts

theorem Token.spelledFrom_true (a : Token) (ts : List Token) :
    a.spelledFrom true ts = a.spelled ts := by
  cases ts <;> rfl

theorem Token.spelledFrom_cons (a : Token) (before : Bool) (t : Token) (ts : List Token) :
    a.spelledFrom before (t :: ts) = a.spelledFrom before [t] ++ t.spelledFrom true ts := by
  rw [spelledFrom_true]
  simp only [spelledFrom, spelled, String.append_empty]

/-- After some tokens, the gap before the next one is asked for. -/
theorem Token.spelledFrom_append (a : Token) (before : Bool) (ts us : List Token) :
    a.spelledFrom before (ts ++ us)
      = a.spelledFrom before ts ++ (a.lastOf ts).spelledFrom (before || !ts.isEmpty) us := by
  cases ts with
  | nil => simp [spelledFrom, lastOf]
  | cons t ts =>
    rw [List.isEmpty_cons, Bool.not_false, Bool.or_true, spelledFrom_true]
    simp only [List.cons_append, spelledFrom, lastOf, spelled_append, String.append_assoc]

namespace Conversion

open Scan

/-! ## Cursors -/

/-- The cursors that can be come to: tokens are taken, also where none is left, and anything may
    be kept aside or remarked. -/
inductive Cursor.Reached (tokens : List Token) : Cursor → Prop
  | start {c : Cursor} : Cursor.start? tokens = some c → Reached tokens c
  | took {c c' : Cursor} {t : Token} : Reached tokens c → take c = .ok t c' → Reached tokens c'
  | failed {c c' : Cursor} {f : Failure} : Reached tokens c → take c = .error f c' →
      Reached tokens c'
  | aside {c : Cursor} (ds : List Deferred) (rs : List Remark) : Reached tokens c →
      Reached tokens { c with deferred := ds, remarks := rs }

theorem Cursor.Reached.exists_current {tokens : List Token} {c : Cursor} (h : c.Reached tokens) :
    ∃ a, c.current = some a := by
  induction h with
  | @start c hstart =>
    cases tokens with
    | nil => cases hstart
    | cons t ts =>
      cases hstart
      exact ⟨t, rfl⟩
  | @took c c' t _ htake ih =>
    obtain ⟨ts, -, rfl⟩ := take_ok.1 htake
    exact ⟨t, rfl⟩
  | @failed c c' f _ htake ih =>
    rw [take] at htake
    split at htake
    · cases htake
      exact ih
    · cases htake
  | aside ds rs _ ih => exact ih

/-- The cursor after the tokens `taken`, with `left` after them. -/
def Cursor.passing (c : Cursor) (taken left : List Token) : Cursor :=
  { c with
    rest := left
    current := (c.recent.pastAll taken).current
    previous := (c.recent.pastAll taken).previous }

section
variable {c : Cursor} {a t : Token} {ts us left : List Token}

@[simp] theorem Cursor.passing_rest (c : Cursor) (taken left : List Token) :
    (c.passing taken left).rest = left := rfl

theorem Cursor.passing_nil (h : c.rest = left) : c.passing [] left = c := by
  rw [← h]
  rfl

theorem Cursor.passing_cons (c : Cursor) (t : Token) (ts more left : List Token) :
    (c.after t more).passing ts left = c.passing (t :: ts) left := rfl

theorem Cursor.passing_passing (c : Cursor) (ts us more left : List Token) :
    (c.passing ts more).passing us left = c.passing (ts ++ us) left := by
  simp only [Cursor.passing, Cursor.recent, Recent.pastAll_append]

/-- The token taken last is the last one of the run. -/
theorem Cursor.passing_current (h : c.current = some a) (ts left : List Token) :
    (c.passing ts left).current = some (a.lastOf ts) := by
  induction ts generalizing c a with
  | nil => exact h
  | cons t ts ih => exact ih (Cursor.after_current c t left)

end

/-! ## Steps -/

section
variable {α β : Type} {c c₁ : Cursor} {a t : Token} {ts : List Token}

theorem bind_of_ok {m : Scan α} {k : α → Scan β} {x : α} (h : m c = .ok x c₁) :
    (m >>= k) c = k x c₁ := by
  show EStateM.bind m k c = _
  rw [EStateM.bind, h]

theorem bind_of_error {m : Scan α} {k : α → Scan β} {f : Failure} (h : m c = .error f c₁) :
    (m >>= k) c = .error f c₁ := by
  show EStateM.bind m k c = _
  rw [EStateM.bind, h]

theorem take_of_rest (h : c.rest = t :: ts) : take c = .ok t (c.after t ts) :=
  take_ok.2 ⟨ts, h, rfl⟩

/-- The gap before a token that was just taken. -/
theorem gapBefore_after (h : c.current = some a) (t : Token) (ts : List Token) :
    gapBefore (c.after t ts) = .ok (a.gap t) (c.after t ts) :=
  gapBefore_ok.2 ⟨⟨a, t, h, rfl, rfl⟩, rfl⟩

theorem gapBeforeIf_after (h : c.current = some a) (before : Bool) (t : Token) (ts : List Token) :
    gapBeforeIf before (c.after t ts)
      = .ok (if before then a.gap t else "") (c.after t ts) := by
  cases before with
  | false => rfl
  | true => exact gapBefore_after h t ts

end

/-! ## What is asked for -/

/-- Whether a token is as asked.  The end marker is no kind to ask for. -/
def isWanted (want : Option ExactKind) (t : Token) : Bool :=
  want.all fun k => k = .kind .endMarker || k = t.exact

/-- The kind that counts, if one is asked for. -/
def asked (want : Option ExactKind) : Option ExactKind :=
  want.filter (· ≠ .kind .endMarker)

theorem any_asked (want : Option ExactKind) (t : Token) :
    (asked want).any (· ≠ t.exact) = !isWanted want t := by
  cases want with
  | none => rfl
  | some k =>
    rw [asked, isWanted, Option.all_some, Option.filter_some]
    by_cases hk : k = .kind .endMarker
    · simp [hk]
    · simp [hk]

/-! ## Line breaks and comments -/

/-- A result with a text put before it. -/
def withText (s : String) : EStateM.Result Failure Cursor (String × Bool) →
    EStateM.Result Failure Cursor (String × Bool)
  | .ok r c => .ok (s ++ r.1, r.2) c
  | .error f c => .error f c

theorem withText_withText (s s' : String) (r : EStateM.Result Failure Cursor (String × Bool)) :
    withText s (withText s' r) = withText (s ++ s') r := by
  cases r with
  | ok r c => simp [withText, String.append_assoc]
  | error f c => rfl

section
variable (want : Option ExactKind) (found before : Bool) {c : Cursor} {a t : Token}
  {lead ts : List Token}

/-- One token is taken, and then the rest. -/
theorem enclosedStep_eq (ha : c.current = some a) (hr : c.rest = t :: ts)
    (m : Scan (String × Bool)) :
    (do
      let _ ← take
      let left ← gapBeforeIf before
      let (more, taken) ← m
      return (left ++ t.text ++ more, taken) : Scan (String × Bool)) c
      = withText (a.spelledFrom before [t]) (m (c.after t ts)) := by
  rw [bind_of_ok (take_of_rest hr), bind_of_ok (gapBeforeIf_after ha before t ts)]
  cases hm : m (c.after t ts) with
  | ok r c' =>
    rw [bind_of_ok hm]
    simp only [Token.spelledFrom, Token.spelled, String.append_empty]
    rfl
  | error f c' =>
    rw [bind_of_error hm]
    rfl

/-- Line breaks and comments are taken, whatever was found. -/
theorem enclosedFrom_lead (hlead : ∀ t ∈ lead, t.isFiller = true) (ha : c.current = some a)
    (hr : c.rest = lead ++ ts) :
    enclosedFrom want found before (lead ++ ts) c = withText (a.spelledFrom before lead)
      (enclosedFrom want found (before || !lead.isEmpty) ts (c.passing lead ts)) := by
  induction lead generalizing c a before with
  | nil =>
    rw [List.nil_append] at hr ⊢
    rw [Cursor.passing_nil hr, List.isEmpty_nil, Bool.not_true, Bool.or_false]
    cases enclosedFrom want found before ts c with
    | ok r c' => simp [withText, Token.spelledFrom]
    | error f c' => rfl
  | cons t lead ih =>
    obtain ⟨ht, hlead⟩ := List.forall_mem_cons.1 hlead
    rw [List.cons_append] at hr ⊢
    have hmore : enclosedFrom want found true (lead ++ ts) (c.after t (lead ++ ts)) = _ :=
      ih true hlead (Cursor.after_current c t _) (Cursor.after_rest c t _)
    rw [enclosedFrom, if_pos ht, enclosedStep_eq before ha hr, hmore,
      withText_withText, Cursor.passing_cons]
    rw [Token.spelledFrom_cons a before t lead, List.isEmpty_cons, Bool.not_false, Bool.or_true,
      Bool.true_or]

/-! ## One token -/

/-- The token that is asked for is taken after the line breaks and comments before it, and then
    those after it. -/
theorem enclosedFrom_of_wanted {trail us : List Token} (hlead : ∀ t ∈ lead, t.isFiller = true)
    (ht : t.isFiller = false) (hwant : want.any (· ≠ t.exact) = false)
    (htrail : ∀ t ∈ trail, t.isFiller = true) (ha : c.current = some a)
    (hr : c.rest = lead ++ t :: (trail ++ us)) :
    enclosedFrom want false before (lead ++ t :: (trail ++ us)) c =
      withText (a.spelledFrom before (lead ++ t :: trail))
        (enclosedFrom want true true us (c.passing (lead ++ t :: trail) us)) := by
  have hcurrent := Cursor.passing_current ha lead (t :: (trail ++ us))
  have hafter : enclosedFrom want true true (trail ++ us)
      ((c.passing lead (t :: (trail ++ us))).after t (trail ++ us)) = _ :=
    enclosedFrom_lead want true true htrail (Cursor.after_current _ t _) (Cursor.after_rest _ t _)
  rw [enclosedFrom_lead want false before hlead ha hr, enclosedFrom, ht, hwant]
  simp only [Bool.false_eq_true, if_false]
  rw [enclosedStep_eq _ hcurrent (Cursor.passing_rest _ _ _), hafter, withText_withText,
    withText_withText, String.append_assoc, ← Token.spelledFrom_cons, ← Token.spelledFrom_append,
    Cursor.passing_cons, Cursor.passing_passing, Bool.true_or]

/-- With another token after the line breaks and comments, this is the end. -/
theorem enclosedFrom_stop {u : Token} (hu : u.isFiller = false) (us : List Token) (c : Cursor) :
    enclosedFrom want true before (u :: us) c = .ok ("", true) c := by
  rw [enclosedFrom, hu]
  rfl

/-- Without one, it fails with all tokens taken. -/
theorem enclosedFrom_nil (c : Cursor) :
    enclosedFrom want found before [] c = .error (.of .outOfTokens) c := by
  rw [enclosedFrom]
  rfl

/-- A token that is not asked for stays. -/
theorem enclosedFrom_of_unwanted (hlead : ∀ t ∈ lead, t.isFiller = true)
    (ht : t.isFiller = false) (hwant : want.any (· ≠ t.exact) = true) (ha : c.current = some a)
    (hr : c.rest = lead ++ t :: ts) :
    enclosedFrom want false before (lead ++ t :: ts) c
      = .ok (a.spelledFrom before lead, false) (c.passing lead (t :: ts)) := by
  rw [enclosedFrom_lead want false before hlead ha hr, enclosedFrom, ht, hwant]
  simp only [Bool.false_eq_true, if_false, if_true]
  rw [show (pure ("", false) : Scan (String × Bool)) _ = .ok ("", false) _ from rfl, withText,
    String.append_empty]

end

/-- The tokens that are no line breaks or comments. -/
def significant (ts : List Token) : List Token :=
  ts.filter fun t => !t.isFiller

theorem significant_eq_nil {ts : List Token} (h : significant ts = []) :
    ∀ t ∈ ts, t.isFiller = true := by
  simpa [significant] using h

theorem significant_eq_cons {ts more : List Token} {t : Token} (h : significant ts = t :: more) :
    ∃ lead us, ts = lead ++ t :: us ∧ (∀ x ∈ lead, x.isFiller = true) ∧ t.isFiller = false ∧
      significant us = more := by
  obtain ⟨lead, us, hts, hlead, ht, hmore⟩ := List.filter_eq_cons_iff.1 h
  exact ⟨lead, us, hts, by simpa using hlead, by simpa using ht, hmore⟩

section
variable {want : Option ExactKind} (before after : Bool) {c : Cursor} {a t u : Token}
  {lead trail us : List Token}

theorem enclosedOf_eq (want : Option ExactKind) (before after : Bool) (c : Cursor) :
    enclosedOf want before after c = (do
      let (text, taken) ← enclosedFrom (asked want) false before c.rest
      if taken && after then return text ++ (← gapAfter) else return text : Scan String) c := rfl

/-- A token that is asked for is taken with all that stands around it. -/
theorem enclosedOf_of_wanted (hlead : ∀ x ∈ lead, x.isFiller = true) (ht : t.isFiller = false)
    (htrail : ∀ x ∈ trail, x.isFiller = true) (hu : u.isFiller = false)
    (hwant : isWanted want t = true) (ha : c.current = some a)
    (hr : c.rest = lead ++ t :: (trail ++ u :: us)) :
    enclosedOf want before after c
      = .ok (a.spelledFrom before (lead ++ t :: trail)
          ++ if after then (a.lastOf (lead ++ t :: trail)).gap u else "")
        (c.passing (lead ++ t :: trail) (u :: us)) := by
  have hrun := enclosedFrom_of_wanted (asked want) before hlead ht
    (by rw [any_asked, hwant]; rfl) htrail ha hr
  rw [enclosedFrom_stop _ _ hu, withText, String.append_empty] at hrun
  rw [enclosedOf_eq, hr, bind_of_ok hrun]
  cases after with
  | false =>
    rw [if_neg Bool.false_ne_true, String.append_empty]
    rfl
  | true =>
    have hgap : gapAfter (c.passing (lead ++ t :: trail) (u :: us)) = _ :=
      gapAfter_ok.2 ⟨⟨_, u, Cursor.passing_current ha _ _, rfl, rfl⟩, rfl⟩
    simp only [Bool.and_self, if_true]
    rw [bind_of_ok hgap]
    rfl

/-- With one token that is asked for, and only line breaks and comments after it, it fails. -/
theorem enclosedOf_of_single (hlead : ∀ x ∈ lead, x.isFiller = true) (ht : t.isFiller = false)
    (htrail : ∀ x ∈ trail, x.isFiller = true) (hwant : isWanted want t = true)
    (ha : c.current = some a) (hr : c.rest = lead ++ t :: trail) :
    enclosedOf want before after c
      = .error (.of .outOfTokens) (c.passing (lead ++ t :: trail) []) := by
  have hr' : c.rest = lead ++ t :: (trail ++ []) := by rw [List.append_nil, hr]
  have hrun := enclosedFrom_of_wanted (asked want) before hlead ht
    (by rw [any_asked, hwant]; rfl) htrail ha hr'
  rw [enclosedFrom_nil, withText] at hrun
  rw [enclosedOf_eq, hr', bind_of_error hrun]

/-- With line breaks and comments only, it fails. -/
theorem enclosedOf_of_fillers (want : Option ExactKind) (hlead : ∀ x ∈ c.rest, x.isFiller = true)
    (ha : c.current = some a) :
    enclosedOf want before after c = .error (.of .outOfTokens) (c.passing c.rest []) := by
  have hrun := enclosedFrom_lead (asked want) false before hlead ha (List.append_nil _).symm
  rw [enclosedFrom_nil, withText, List.append_nil] at hrun
  rw [enclosedOf_eq, bind_of_error hrun]

/-- A token that is not asked for stays, and no gap is written before it. -/
theorem enclosedOf_of_unwanted (hlead : ∀ x ∈ lead, x.isFiller = true) (ht : t.isFiller = false)
    (hwant : isWanted want t = false) (ha : c.current = some a) (hr : c.rest = lead ++ t :: us) :
    enclosedOf want before after c
      = .ok (a.spelledFrom before lead) (c.passing lead (t :: us)) := by
  have hrun := enclosedFrom_of_unwanted (asked want) before hlead ht
    (by rw [any_asked, hwant]; rfl) ha hr
  rw [enclosedOf_eq, hr, bind_of_ok hrun]
  rfl

end

/-- **One token with the line breaks and comments around it.**  Let `a` be the token taken last.
    If the first token that is no line break or comment is as asked, or there is none, it fails
    just if there are fewer than two such tokens.  Otherwise the first one is taken with all line
    breaks and comments before it and after it, up to the second, and the text is that of the
    tokens taken with the gaps between them, and with the gaps before and after them as asked.
    If the first one is not as asked, only the line breaks and comments before it are taken, with
    no gap after them. -/
theorem enclosedOf_takes_one {tokens : List Token} {c : Cursor} (hc : c.Reached tokens)
    (want : Option ExactKind) (before after : Bool) :
    ∃ a, c.current = some a ∧
      ((∀ t ∈ (significant c.rest).head?, isWanted want t = true) →
        ((∃ c', enclosedOf want before after c = .error (.of .outOfTokens) c') ↔
          (significant c.rest).length < 2) ∧
        (2 ≤ (significant c.rest).length → ∃ lead t trail u us,
          c.rest = lead ++ t :: (trail ++ u :: us) ∧ (∀ x ∈ lead, x.isFiller = true) ∧
          t.isFiller = false ∧ (∀ x ∈ trail, x.isFiller = true) ∧ u.isFiller = false ∧
          enclosedOf want before after c
            = .ok (a.spelledFrom before (lead ++ t :: trail)
                ++ if after then (a.lastOf (lead ++ t :: trail)).gap u else "")
              (c.passing (lead ++ t :: trail) (u :: us)))) ∧
      ∀ t ∈ (significant c.rest).head?, isWanted want t = false → ∃ lead us,
        c.rest = lead ++ t :: us ∧ (∀ x ∈ lead, x.isFiller = true) ∧
        enclosedOf want before after c
          = .ok (a.spelledFrom before lead) (c.passing lead (t :: us)) := by
  obtain ⟨a, ha⟩ := hc.exists_current
  refine ⟨a, ha, ?_⟩
  cases hfirst : significant c.rest with
  | nil =>
    have hfail := enclosedOf_of_fillers before after want (significant_eq_nil hfirst) ha
    refine ⟨fun _ => ⟨iff_of_true ⟨_, hfail⟩ (by simp), fun h => ?_⟩, fun t ht => ?_⟩
    · exact absurd h (by simp)
    · cases ht
  | cons t more =>
    obtain ⟨lead, ts, hr, hlead, ht, hmore⟩ := significant_eq_cons hfirst
    simp only [List.head?_cons, Option.mem_def, Option.some.injEq, forall_eq']
    refine ⟨fun hwant => ?_, fun hwant => ?_⟩
    · cases more with
      | nil =>
        have hfail := enclosedOf_of_single before after hlead ht (significant_eq_nil hmore) hwant
          ha hr
        exact ⟨iff_of_true ⟨_, hfail⟩ (by simp), fun h => absurd h (by simp)⟩
      | cons u more =>
        obtain ⟨trail, us, rfl, htrail, hu, -⟩ := significant_eq_cons hmore
        have hok := enclosedOf_of_wanted before after hlead ht htrail hu hwant ha hr
        refine ⟨iff_of_false ?_ (by simp), fun _ => ?_⟩
        · rintro ⟨c', hfail⟩
          rw [hok] at hfail
          cases hfail
        · exact ⟨lead, t, trail, u, us, hr, hlead, ht, htrail, hu, hok⟩
    · exact ⟨lead, ts, hr, hlead, enclosedOf_of_unwanted before after hlead ht hwant ha hr⟩

/-- A name after a line break, with a comment behind it. -/
def looseName : List Token :=
  [.onRow 0 "" 0 .encoding "", .onRow 1 "\n" 0 .lineBreak "\n", .onRow 2 " a # b\n" 1 .name "a",
   .onRow 2 " a # b\n" 3 .comment "# b", .onRow 2 " a # b\n" 6 .newline "\n",
   .onRow 3 "" 0 .endMarker ""]

/-- Where the end marker is asked for, the name is taken all the same. -/
theorem enclosedOf_takes_looseName :
    let c : Cursor := ⟨looseName.tail, looseName.head?, none, [], []⟩
    (∀ t ∈ (significant c.rest).head?,
      t.kind = .name ∧ isWanted (some (.kind .endMarker)) t = true) ∧
    ∃ (a : Token) (lead : List Token) (t : Token) (trail : List Token) (u : Token)
      (us : List Token), c.rest = lead ++ t :: (trail ++ u :: us) ∧ t.isFiller = false ∧
      enclosedOf (some (.kind .endMarker)) false true c
        = .ok (a.spelledFrom false (lead ++ t :: trail) ++ (a.lastOf (lead ++ t :: trail)).gap u)
          (c.passing (lead ++ t :: trail) (u :: us)) := by
  intro c
  have hname : ∀ t ∈ (significant c.rest).head?,
      t.kind = .name ∧ isWanted (some (.kind .endMarker)) t = true := by decide
  have hreached : c.Reached looseName := .start rfl
  obtain ⟨a, -, hwanted, -⟩ := enclosedOf_takes_one hreached (some (.kind .endMarker)) false true
  obtain ⟨-, htaken⟩ := hwanted fun t ht => (hname t ht).2
  obtain ⟨lead, t, trail, u, us, hr, -, ht, -, -, hok⟩ := htaken (by decide)
  exact ⟨hname, a, lead, t, trail, u, us, hr, ht, hok⟩

end Conversion

end SourceScribe
