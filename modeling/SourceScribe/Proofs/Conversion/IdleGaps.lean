/-
  Gaps that are written for parts that are not there.

  A `yield` without a value, an `except` without a type and a star alone write the gap after
  them all the same, and what comes next writes it again.  Each of them leaves a remark with
  the number of tokens that are left, so the remarks of a run tell which gaps are there
  twice: `Doubles` says so of a run, it is a ledger that idles, and so what it says holds of
  every statement.
-/
import SourceScribe.Proofs.Conversion.Layout

namespace SourceScribe.Conversion

open Scan Markup

variable {added added' : List Remark} {c c' c₁ c₂ : Cursor} {b b' b₁ : Bool} {s s₁ : String}

/-! ## Remarks -/

/-- One of the tokens is a word that idles, and `k` tokens come after it. -/
def IdleWordAt (ts : List Token) (k : Nat) : Prop :=
  ∃ before t after, ts = before ++ t :: after ∧ after.length = k ∧ t.text ∈ idleWords

theorem IdleWordAt.lt {ts : List Token} {k : Nat} (h : IdleWordAt ts k) : k < ts.length := by
  obtain ⟨before, t, after, rfl, rfl, -⟩ := h
  rw [List.length_append, List.length_cons]
  omega

theorem IdleWordAt.of_suffix {ts us : List Token} {k : Nat} (hs : us <:+ ts)
    (h : IdleWordAt us k) : IdleWordAt ts k := by
  obtain ⟨first, rfl⟩ := hs
  obtain ⟨before, t, after, rfl, hk, ht⟩ := h
  exact ⟨first ++ before, t, after, by simp, hk, ht⟩

/-- The remarks `added` in the run from `c` to `c'`, and the tokens it takes: a gap is idle
    only after a word that the run takes. -/
structure Adds (added : List Remark) (c c' : Cursor) : Prop where
  remarks : c'.remarks = added ++ c.remarks
  rest : c'.rest <:+ c.rest
  words : ∀ k, .idle k ∈ added → c'.rest.length ≤ k ∧ IdleWordAt c.rest k

namespace Adds

theorem trans (h : Adds added c c₁) (h' : Adds added' c₁ c₂) : Adds (added' ++ added) c c₂ where
  remarks := by rw [h'.remarks, h.remarks, List.append_assoc]
  rest := h'.rest.trans h.rest
  words k hk := by
    rcases List.mem_append.1 hk with hk | hk
    · obtain ⟨hle, hword⟩ := h'.words k hk
      exact ⟨hle, hword.of_suffix h.rest⟩
    · obtain ⟨hle, hword⟩ := h.words k hk
      exact ⟨h'.rest.length_le.trans hle, hword⟩

/-- A run without remarks. -/
theorem silent (hr : c'.remarks = c.remarks) (hs : c'.rest <:+ c.rest) : Adds [] c c' :=
  ⟨hr, hs, fun _ hk => by cases hk⟩

/-- A remark of another sort. -/
theorem cons {r : Remark} (h : Adds added c c') (hr : ∀ k, r ≠ .idle k) :
    Adds (r :: added) c (c'.remark r) where
  remarks := by rw [Cursor.remark, h.remarks, List.cons_append]
  rest := h.rest
  words k hk := by
    rcases List.mem_cons.1 hk with hk | hk
    · exact absurd hk.symm (hr k)
    · exact h.words k hk

theorem lt {k : Nat} (h : Adds added c c') (hk : .idle k ∈ added) : k < c.rest.length :=
  (h.words k hk).2.lt

theorem openParenthesis {r : NodeRef} (h : openParenthesis r c = .ok () c') :
    c = c' ∨ Adds [.deferred] c c' := by
  rcases openParenthesis_ok h with rfl | ⟨t, text, c₁, next, -, -, htext, -, rfl⟩
  · exact Or.inl rfl
  · have hs := silent (tally_aside.enclosed htext).1 (tally_goes.enclosed htext).rest
    obtain ⟨hremarks, hrest, hwords⟩ := hs.cons (r := .deferred) (by simp)
    exact Or.inr ⟨hremarks, hrest, hwords⟩

end Adds

/-! ## Gaps -/

/-- How often the gap before the next token is written for nothing, with `k` tokens left. -/
def idleGaps (added : List Remark) (k : Nat) : Nat :=
  if .idle k ∈ added then 1 else 0

/-- As `idleGaps`, if `e` gaps are written before the run starts, with `start` tokens left. -/
def idleFrom (added : List Remark) (start e k : Nat) : Nat :=
  idleGaps added k + if k = start then e else 0

theorem idleGaps_cons {r : Remark} (hr : ∀ k, r ≠ .idle k) (added : List Remark) :
    idleGaps (r :: added) = idleGaps added := by
  funext k
  simp [idleGaps, (hr k).symm]

/-- Before the tokens of a second run, the remarks of the first one count. -/
theorem idleFrom_first (h' : Adds added' c₁ c₂) (e : Nat) {start k : Nat}
    (hk : c₁.rest.length ≤ k) :
    idleFrom (added' ++ added) start e k = idleFrom added start e k := by
  have hnot : .idle k ∉ added' := fun hmem => absurd (h'.lt hmem) (by omega)
  simp [idleFrom, idleGaps, hnot]

/-- At the tokens of a second run, its own remarks count, and what the first one has written
    of the first gap. -/
theorem idleFrom_last (h : Adds added c c₁) (h' : Adds added' c₁ c₂) (e : Nat) {k : Nat}
    (hk : k ≤ c₁.rest.length) :
    idleFrom (added' ++ added) c.rest.length e k = idleFrom added' c₁.rest.length
      (idleFrom added c.rest.length e c₁.rest.length) k := by
  rcases hk.lt_or_eq with hlt | rfl
  · have hnot : .idle k ∉ added := fun hmem => absurd (h.words k hmem).1 (by omega)
    have hle := h.rest.length_le
    have hne : k ≠ c.rest.length := by omega
    simp [idleFrom, idleGaps, hnot, hne, hlt.ne]
  · have hnot : .idle c₁.rest.length ∉ added' := fun hmem => absurd (h'.lt hmem) (by omega)
    simp [idleFrom, idleGaps, hnot]

/-! ## The account -/

/-- If no parenthesis is kept aside and no other text is written in place of a token's, the
    text is that of the tokens taken from `c` to `c'`, with every gap once, and once more
    where the remarks tell that it was written for nothing; whatever part of the first gap
    was written before. -/
structure Doubles (added : List Remark) (c : Cursor) (b : Bool) (s : String) (c' : Cursor)
    (b' : Bool) : Prop extends Adds added c c' where
  lays : c.deferred = [] → added.all Remark.isPlain = true → c'.deferred = [] ∧
    ∀ e, ∃ taken, Lays c (.own (e + b.toNat)) s c'
      (.own (idleFrom added c.rest.length e c'.rest.length + b'.toNat))
      (marked (idleFrom added c.rest.length e) c'.rest.length taken)

theorem Doubles.trans (h : Doubles added c b s c₁ b₁) (h' : Doubles added' c₁ b₁ s₁ c' b') :
    Doubles (added' ++ added) c b (s ++ s₁) c' b' where
  toAdds := h.toAdds.trans h'.toAdds
  lays hd hp := by
    rw [List.all_append, Bool.and_eq_true] at hp
    obtain ⟨hd₁, hfirst⟩ := h.lays hd hp.2
    obtain ⟨hd', hlast⟩ := h'.lays hd₁ hp.1
    refine ⟨hd', fun e => ?_⟩
    obtain ⟨ts, hts⟩ := hfirst e
    obtain ⟨us, hus⟩ := hlast (idleFrom added c.rest.length e c₁.rest.length)
    have hlength : c₁.rest.length = us.length + c'.rest.length := by
      rw [hus.rest, tokensOf_marked, List.length_append]
    refine ⟨ts ++ us, ?_⟩
    -- the leads of both runs are those that all remarks give
    have hmarked : marked (idleFrom (added' ++ added) c.rest.length e) c'.rest.length (ts ++ us) =
        marked (idleFrom added c.rest.length e) c₁.rest.length ts ++
          marked (idleFrom added' c₁.rest.length
            (idleFrom added c.rest.length e c₁.rest.length)) c'.rest.length us := by
      rw [marked_append, ← hlength]
      congr 1
      · exact marked_congr fun k hk _ => idleFrom_first h'.toAdds e hk.le
      · exact marked_congr fun k _ hk => idleFrom_last h.toAdds h'.toAdds e (by omega)
    rw [hmarked, idleFrom_last h.toAdds h'.toAdds e (by omega)]
    exact hts.trans hus

/-- A token is taken and its text is written. -/
theorem Doubles.token {t : Token} {ts : List Token} (hr : c.rest = t :: ts) :
    Doubles [] c true t.text (c.after t ts) false where
  toAdds := Adds.silent rfl (hr ▸ List.suffix_cons t ts)
  lays hd _ := by
    refine ⟨hd, fun e => ⟨[t], ?_⟩⟩
    have hlays := Lays.token hr (.own (e + 1))
    simpa [marked, idleFrom, idleGaps, hr, Nat.add_comm 1] using hlays

/-- The gap before the next token is written. -/
theorem Doubles.gap {a t : Token} {ts : List Token} (ha : c.current = some a)
    (hr : c.rest = t :: ts) : Doubles [] c false (a.gap t) c true where
  toAdds := Adds.silent rfl List.suffix_rfl
  lays hd _ := by
    refine ⟨hd, fun e => ⟨[], rfl, rfl, ?_⟩⟩
    simp [marked, spelledAs, idleFrom, idleGaps, Cursor.pending, Cursor.recent, Lead.text, repeated,
      ha, hr, gapBetween]

/-- The gap that was written last was for nothing. -/
theorem Doubles.idle {t u : Token} {us : List Token} (hr : c.rest = t :: u :: us)
    (ht : t.text ∈ idleWords) : Doubles [.idle (us.length + 1)] c true (t.text ++ t.gap u)
      ((c.after t (u :: us)).remark (.idle (us.length + 1))) false where
  remarks := rfl
  rest := hr ▸ List.suffix_cons t _
  words k hk := by
    obtain rfl : k = us.length + 1 := by simpa using hk
    exact ⟨le_rfl, [], t, u :: us, hr, rfl, ht⟩
  lays hd _ := by
    refine ⟨hd, fun e => ⟨[t], hr, rfl, ?_⟩⟩
    simp [marked, spelledAs, idleFrom, idleGaps, Cursor.pending, Cursor.recent, Cursor.remark,
      Lead.text, repeated, hr, gapBetween, String.append_assoc, Nat.add_comm 1]

/-- One text is written for another. -/
theorem Doubles.replaced {found written : String} (h : Doubles added c b found c' b') :
    Doubles (.replaced found written :: added) c b written
      (c'.remark (.replaced found written)) b' where
  toAdds := h.toAdds.cons (by simp)
  lays hd hp := by
    rw [List.all_cons, Bool.and_eq_true] at hp
    obtain rfl : found = written := by simpa [Remark.isPlain] using hp.1
    obtain ⟨hd', hlays⟩ := h.lays hd hp.2
    refine ⟨hd', fun e => ?_⟩
    obtain ⟨taken, htaken⟩ := hlays e
    have hfrom : idleFrom (.replaced found found :: added) = idleFrom added := by
      funext start e k
      rw [idleFrom, idleFrom, idleGaps_cons (by simp)]
    rw [hfrom]
    exact ⟨taken, htaken.rest, htaken.recent, htaken.text⟩

/-- An expression keeps the account if its rule does. -/
theorem Doubles.enclose {r : NodeRef} {start : Except Cause Position} {rule : Into}
    {ms : List Markup} (hone : rule.AddsOne)
    (hrule : ∀ c ms c', rule [] c = .ok ms c' →
      ∃ added, Doubles added c true (contents ms) c' false)
    (h : enclose r start rule [] c = .ok ms c') :
    ∃ added, Doubles added c true (contents ms) c' false := by
  obtain ⟨c₁, e, c₂, ho, he, hend⟩ := enclose_ok hone h
  obtain ⟨added, hadded⟩ := hrule _ _ _ he
  have hclose : Adds [] c₂ c' := by
    rcases hend with ⟨-, rfl, -⟩ | ⟨d, ds, right, -, -, hr, -⟩
    · exact Adds.silent rfl List.suffix_rfl
    · exact Adds.silent (tally_aside.enclosed hr).1 (tally_goes.enclosed hr).rest
  rcases Adds.openParenthesis ho with rfl | hopen
  · refine ⟨added, hadded.toAdds.trans hclose, fun hdeferred hp => ?_⟩
    obtain ⟨hd₂, hlays⟩ := hadded.lays hdeferred hp
    -- nothing is kept aside, so nothing closes
    rcases hend with ⟨rfl, rfl, -⟩ | ⟨d, ds, right, hds, -⟩
    · exact ⟨hd₂, hlays⟩
    · simp [hd₂] at hds
  · refine ⟨added ++ [.deferred], (hopen.trans hadded.toAdds).trans hclose, fun _ hp => ?_⟩
    simp [Remark.isPlain] at hp

theorem ledger_doubles : Ledger fun c b s c' b' => ∃ added, Doubles added c b s c' b' where
  refl c b := by
    refine ⟨[], Adds.silent rfl List.suffix_rfl, fun hd _ => ⟨hd, fun e => ⟨[], rfl, rfl, ?_⟩⟩⟩
    simp [marked, spelledAs, idleFrom, idleGaps]
  trans h h' := by
    obtain ⟨added, hadded⟩ := h
    obtain ⟨added', hadded'⟩ := h'
    exact ⟨added' ++ added, hadded.trans hadded'⟩
  token hr := ⟨[], Doubles.token hr⟩
  gap ha hr := ⟨[], Doubles.gap ha hr⟩
  replaced h := by
    obtain ⟨added, hadded⟩ := h
    exact ⟨_, hadded.replaced⟩
  enclose := Doubles.enclose

theorem idles_doubles : Idles fun c b s c' b' => ∃ added, Doubles added c b s c' b' :=
  fun hr ht => ⟨_, Doubles.idle hr ht⟩

/-! ## Where nothing is missing -/

/-- The run remarks upon no idle gap. -/
def Busy (c c' : Cursor) : Prop :=
  ∀ k, c'.remarks.count (.idle k) = c.remarks.count (.idle k)

theorem busy_of_remarks (h : c'.remarks = c.remarks) : Busy c c' :=
  fun _ => by rw [h]

theorem Busy.trans (h : Busy c c₁) (h' : Busy c₁ c₂) : Busy c c₂ :=
  fun k => (h' k).trans (h k)

theorem Busy.remark {r : Remark} (h : Busy c c') (hr : ∀ k, r ≠ .idle k) :
    Busy c (c'.remark r) := by
  intro k
  rw [Cursor.remark, List.count_cons_of_ne (hr k)]
  exact h k

theorem openParenthesis_busy {r : NodeRef} (h : openParenthesis r c = .ok () c') : Busy c c' := by
  rcases openParenthesis_ok h with rfl | ⟨t, text, c₁, next, -, -, htext, -, rfl⟩
  · exact busy_of_remarks rfl
  · have hbusy := busy_of_remarks (tally_aside.enclosed htext).1
    exact hbusy.remark (r := .deferred) (by simp)

theorem ledger_busy : Ledger fun c _ _ c' _ => Busy c c' where
  refl _ _ := busy_of_remarks rfl
  trans h h' := h.trans h'
  token _ := busy_of_remarks rfl
  gap _ _ := busy_of_remarks rfl
  replaced h := h.remark (by simp)
  enclose hone hrule h := by
    obtain ⟨c₁, e, c₂, ho, he, hr, -⟩ := enclose_plain hone h
    exact ((openParenthesis_busy ho).trans (hrule _ _ _ he)).trans (busy_of_remarks hr)

/-! ## Statements -/

variable {lines : List String} {path : Path} {tree : Tree} {ms : List Markup}

theorem suffices_idles {R : Cursor → Bool → String → Cursor → Bool → Prop} (I : Idles R) :
    Suffices R [("BoolOp", "values")] false :=
  ⟨List.mem_cons_self, Or.inl I⟩

/-- A statement of which nothing is missing remarks upon no idle gap. -/
theorem not_idle_of_isWhole (ht : tree.isWhole = true)
    (h : (toPart lines path tree).write c = .ok ms c') (hadded : c'.remarks = added ++ c.remarks)
    (k : Nat) : .idle k ∉ added := by
  obtain ⟨hwrites, -⟩ := fills_of_fits ledger_busy suffices_operated tree path _ ht
  have hcount := (hwrites.alone h).spelt k
  rw [hadded, List.count_append] at hcount
  exact List.count_eq_zero.1 (by omega)

/-- **Every gap of a statement is written once, but for the gap after a `yield` without a
    value, an `except` without a type, or a star alone**: that one is written for nothing,
    and again before the next token.  The statement writes all tokens that it takes, if no
    parenthesis is kept aside and no other text is written in place of a token's.  If
    nothing is missing, it writes what the tokens spell. -/
theorem statement_doubles_idle_gaps (ht : tree.isStatement = true)
    (h : (toPart lines path tree).write c = .ok ms c') (hd : c.deferred = [])
    (hp : Remarking Remark.isPlain c c') :
    ∃ added taken, c'.remarks = added ++ c.remarks ∧ c.rest = taken ++ c'.rest ∧
      contents ms = spelledAs c.recent (marked (idleGaps added) c'.rest.length taken) ++
        c'.pending (.own (idleGaps added c'.rest.length)) ∧
      (∀ k, .idle k ∈ added → c'.rest.length ≤ k ∧ IdleWordAt c.rest k) ∧
      (tree.isWhole = true → ∀ a, c.current = some a → contents ms = a.spelled taken) := by
  obtain ⟨hwrites, -⟩ := fills_of_fits ledger_doubles (suffices_idles idles_doubles) tree path _ ht
  obtain ⟨added, hadded⟩ := (hwrites.alone h).spelt
  obtain ⟨-, hlays⟩ := hadded.lays hd (hp added hadded.remarks)
  obtain ⟨taken, htaken⟩ := hlays 0
  have hfrom : idleFrom added c.rest.length 0 = idleGaps added := by
    funext k
    simp [idleFrom]
  rw [hfrom] at htaken
  have htext : contents ms = spelledAs c.recent (marked (idleGaps added) c'.rest.length taken) ++
      c'.pending (.own (idleGaps added c'.rest.length)) := by
    simpa using htaken.text
  refine ⟨added, taken, hadded.remarks, by simpa using htaken.rest, htext, hadded.words, ?_⟩
  intro hwhole a ha
  have hnone : ∀ k, idleGaps added k = 0 := fun k =>
    if_neg (not_idle_of_isWhole hwhole h hadded.remarks k)
  have hrecent : c.recent = ⟨c.previous, some a⟩ := by rw [Cursor.recent, ha]
  rw [htext, hnone, Cursor.pending_omitted, String.append_empty, hrecent,
    spelledAs_once _ _ fun _ => once_of_mem_marked hnone, tokensOf_marked]

/-- `def f(* , a):` with a `try` in it, whose `yield ;pass` has no value and whose
    `except :` no type. -/
def idleFunction : Tree :=
  .node "FunctionDef" [1, 0] [("name", .leaf (.str "f")),
    ("args", .node "arguments" [] [("args", .list []), ("vararg", .leaf .none),
      ("kwonlyargs", .list [
        .node "arg" [1, 10] [("arg", .leaf (.str "a")), ("annotation", .leaf .none)]]),
      ("kw_defaults", .list [.leaf .none]), ("kwarg", .leaf .none), ("defaults", .list [])]),
    ("body", .list [.node "Try" [2, 1] [
      ("body", .list [
        .node "Expr" [3, 2] [("value", .node "Yield" [3, 2] [("value", .leaf .none)])],
        .node "Pass" [3, 9] []]),
      ("handlers", .list [.node "ExceptHandler" [4, 1] [("type", .leaf .none),
        ("name", .leaf .none), ("body", .list [.node "Pass" [4, 10] []])]]),
      ("orelse", .list []), ("finalbody", .list [])]]),
    ("decorator_list", .list []), ("returns", .leaf .none)]

/-- The cursor before the tokens of the function. -/
def idleCursor : Cursor :=
  let first := Token.onRow 1 "def f(* , a):\n"
  let second := Token.onRow 2 " try:\n"
  let third := Token.onRow 3 "  yield ;pass\n"
  let fourth := Token.onRow 4 " except : pass\n"
  { rest := [first 0 .name "def", first 4 .name "f", first 5 .operator "(", first 6 .operator "*",
      first 8 .operator ",", first 10 .name "a", first 11 .operator ")", first 12 .operator ":",
      first 13 .newline "\n", second 0 .indent " ", second 1 .name "try", second 4 .operator ":",
      second 5 .newline "\n", third 0 .indent "  ", third 2 .name "yield", third 8 .operator ";",
      third 9 .name "pass", third 13 .newline "\n", fourth 1 .dedent "", fourth 1 .name "except",
      fourth 8 .operator ":", fourth 10 .name "pass", fourth 14 .newline "\n",
      Token.onRow 5 "" 0 .dedent "", Token.onRow 5 "" 0 .endMarker ""]
    current := some ⟨.encoding, "utf-8", ⟨0, 0⟩, ⟨0, 0⟩, ""⟩
    previous := none
    deferred := []
    remarks := [] }

/-- All three: the gaps after the star, the `yield` and the `except` are there twice. -/
theorem function_doubles_idle_gaps : ∃ ms c',
    (toPart [] .root idleFunction).write idleCursor = .ok ms c' ∧
      idleFunction.isStatement = true ∧ idleCursor.deferred = [] ∧
      Remarking Remark.isPlain idleCursor c' ∧
      contents ms = "def f(*  , a):\n try:\n  yield  ;pass\n except  : pass" ∧
      ∃ added taken, c'.remarks = added ++ idleCursor.remarks ∧
        idleCursor.rest = taken ++ c'.rest ∧
        contents ms = spelledAs idleCursor.recent
            (marked (idleGaps added) c'.rest.length taken) ++
          c'.pending (.own (idleGaps added c'.rest.length)) ∧
        (∀ k, .idle k ∈ added → c'.rest.length ≤ k ∧ IdleWordAt idleCursor.rest k) ∧
        (idleFunction.isWhole = true →
          ∀ a, idleCursor.current = some a → contents ms = a.spelled taken) := by
  have hs : idleFunction.isStatement = true := by decide
  obtain ⟨ms, c', h, hp⟩ := exists_ok (toPart [] .root idleFunction).write idleCursor
    (fun ms c' => c'.isPlain &&
      contents ms = "def f(*  , a):\n try:\n  yield  ;pass\n except  : pass") (by decide +kernel)
  rw [Bool.and_eq_true, decide_eq_true_eq] at hp
  have hplain : Remarking Remark.isPlain idleCursor c' := Remarking.of_nil rfl hp.1
  exact ⟨ms, c', h, hs, rfl, hplain, hp.2, statement_doubles_idle_gaps hs h rfl hplain⟩

end SourceScribe.Conversion
