/-
  Conservation of text.

  The markup of a module spells its tokens: every token that is taken and every gap
  between two of them is written once, and in order.  That holds for any tokens at all,
  as long as no parenthesis is kept aside and the texts that are written in place of
  tokens are those of the tokens.

  `Conserves` is the account that says so.
-/
import SourceScribe.Proofs.Conversion.Sorted
import SourceScribe.Proofs.Token.Spelling

namespace SourceScribe.Conversion

open Scan Markup

/-! ## Remarks -/

/-- Whether a remark tells of nothing unusual: no parenthesis kept aside, no other text
    in place of a token's. -/
def Remark.isPlain : Remark → Bool
  | .deferred => false
  | .replaced found written => found = written
  | .idle _ => true

/-- Whether all remarks are plain. -/
def Cursor.isPlain (c : Cursor) : Bool :=
  c.remarks.all Remark.isPlain

theorem Cursor.isPlain_iff {c : Cursor} : c.isPlain = true ↔ Remark.deferred ∉ c.remarks ∧
    ∀ found written, Remark.replaced found written ∈ c.remarks → found = written := by
  rw [Cursor.isPlain, List.all_eq_true]
  constructor
  · intro h
    exact ⟨fun hr => by simpa [Remark.isPlain] using h _ hr,
      fun found written hr => by simpa [Remark.isPlain] using h _ hr⟩
  · rintro ⟨hdeferred, hreplaced⟩ r hr
    cases r with
    | deferred => exact absurd hr hdeferred
    | replaced found written => simpa [Remark.isPlain] using hreplaced found written hr
    | idle => rfl

/-- Taking and spelling tokens changes neither the remarks nor what is kept aside. -/
theorem tally_aside : Tally fun c _ _ c' _ => c'.remarks = c.remarks ∧ c'.deferred = c.deferred where
  refl _ _ := ⟨rfl, rfl⟩
  trans h h' := ⟨h'.1.trans h.1, h'.2.trans h.2⟩
  token _ := ⟨rfl, rfl⟩
  gap _ _ := ⟨rfl, rfl⟩

/-! ## The account -/

/-- The gap before the next token, if it is written already. -/
def Cursor.written (c : Cursor) : Bool → String
  | true =>
    match c.current, c.rest with
    | some a, t :: _ => a.gap t
    | _, _ => ""
  | false => ""

/-- The text `s` is that of the tokens taken from `c` to `c'`, with the gaps that are due. -/
structure Spells (c : Cursor) (b : Bool) (s : String) (c' : Cursor) (b' : Bool) (a : Token)
    (taken : List Token) : Prop where
  rest : c.rest = taken ++ c'.rest
  current : c'.current = some (a.lastOf taken)
  text : c.written b ++ s = a.spelled taken ++ c'.written b'

/-- If all remarks are plain at the end, they are at the start; and then, if nothing is
    kept aside, the text is that of the tokens taken. -/
def Conserves (c : Cursor) (b : Bool) (s : String) (c' : Cursor) (b' : Bool) : Prop :=
  c'.isPlain = true → c.isPlain = true ∧ (c.deferred = [] → c'.deferred = [] ∧
    ∀ a, c.current = some a → ∃ taken, Spells c b s c' b' a taken)

theorem Spells.trans {c c₁ c₂ : Cursor} {b b₁ b₂ : Bool} {s s₁ : String} {a : Token}
    {taken more : List Token} (h : Spells c b s c₁ b₁ a taken)
    (h' : Spells c₁ b₁ s₁ c₂ b₂ (a.lastOf taken) more) :
    Spells c b (s ++ s₁) c₂ b₂ a (taken ++ more) where
  rest := by rw [h.rest, h'.rest, List.append_assoc]
  current := by rw [h'.current, Token.lastOf_append]
  text := by
    calc c.written b ++ (s ++ s₁)
        = a.spelled taken ++ (c₁.written b₁ ++ s₁) := by
          rw [← String.append_assoc, h.text, String.append_assoc]
      _ = a.spelled (taken ++ more) ++ c₂.written b₂ := by
          rw [h'.text, Token.spelled_append, String.append_assoc]

/-- An expression that keeps nothing aside is what its rule writes. -/
theorem enclose_plain {r : NodeRef} {start : Except Cause Position} {rule : Into}
    {c c' : Cursor} {ms : List Markup} (hone : rule.AddsOne)
    (h : enclose r start rule [] c = .ok ms c') :
    ∃ c₁ e c₂, openParenthesis r c = .ok () c₁ ∧ rule [] c₁ = .ok [e] c₂ ∧
      c'.remarks = c₂.remarks ∧ (c₂.deferred = [] → ms = [e] ∧ c' = c₂) := by
  obtain ⟨c₁, e, c₂, ho, he, ⟨rfl, rfl, -⟩ | ⟨d, ds, right, hds, -, hr, -⟩⟩ := enclose_ok hone h
  · exact ⟨c₁, e, c₂, ho, he, rfl, fun _ => ⟨rfl, rfl⟩⟩
  · refine ⟨c₁, e, c₂, ho, he, (tally_aside.enclosed hr).1, fun hnil => ?_⟩
    simp [hnil] at hds

/-- A parenthesis that is taken is remarked upon. -/
theorem openParenthesis_plain {r : NodeRef} {c c' : Cursor}
    (h : openParenthesis r c = .ok () c') (hp : c'.isPlain = true) : c = c' := by
  simp only [openParenthesis, bind_ok, peek_ok] at h
  obtain ⟨t, _, ⟨-, rfl⟩, h⟩ := h
  split at h
  · simp only [bind_ok, orFail_ok] at h
    obtain ⟨place, _, ⟨-, rfl⟩, h⟩ := h
    split at h
    · simp only [bind_ok, defer, modify_ok] at h
      obtain ⟨text, c₁, -, next, c₂, -, rfl⟩ := h
      simp [Cursor.isPlain, Cursor.remark, Remark.isPlain] at hp
    · exact (pure_ok.1 h).2
  · exact (pure_ok.1 h).2

theorem ledger_conserves : Ledger Conserves where
  refl c b hp := ⟨hp, fun hd => ⟨hd, fun a ha => ⟨[], rfl, ha, by simp [Token.spelled]⟩⟩⟩
  trans h h' hp := by
    obtain ⟨hp₁, h'⟩ := h' hp
    obtain ⟨hp₀, h⟩ := h hp₁
    refine ⟨hp₀, fun hd => ?_⟩
    obtain ⟨hd₁, h⟩ := h hd
    obtain ⟨hd₂, h'⟩ := h' hd₁
    refine ⟨hd₂, fun a ha => ?_⟩
    obtain ⟨taken, hs⟩ := h a ha
    obtain ⟨more, hs'⟩ := h' _ hs.current
    exact ⟨taken ++ more, hs.trans hs'⟩
  token {c t ts} hr hp := by
    refine ⟨hp, fun hd => ⟨hd, fun a ha => ⟨[t], hr, rfl, ?_⟩⟩⟩
    simp [Cursor.written, ha, hr, Token.spelled]
  gap {c a t ts} ha hr hp := by
    refine ⟨hp, fun hd => ⟨hd, fun a' ha' => ⟨[], rfl, ha', ?_⟩⟩⟩
    simp [Cursor.written, ha, hr, Token.spelled]
  replaced h hp := by
    rw [Cursor.isPlain, Cursor.remark, List.all_cons, Bool.and_eq_true] at hp
    obtain ⟨heq, hp⟩ := hp
    obtain rfl : _ = _ := by simpa [Remark.isPlain] using heq
    obtain ⟨hp₀, h⟩ := h hp
    refine ⟨hp₀, fun hd => ⟨(h hd).1, fun a ha => ?_⟩⟩
    obtain ⟨taken, hs⟩ := (h hd).2 a ha
    exact ⟨taken, hs.rest, hs.current, hs.text⟩
  enclose hone hrule h hp := by
    obtain ⟨c₁, e, c₂, ho, he, hr, hplain⟩ := enclose_plain hone h
    have hp₂ : c₂.isPlain = true := by rwa [Cursor.isPlain, ← hr]
    obtain ⟨hp₁, hc⟩ := hrule _ _ _ he hp₂
    obtain rfl := openParenthesis_plain ho hp₁
    refine ⟨hp₁, fun hd => ?_⟩
    obtain ⟨hd₂, hs⟩ := hc hd
    obtain ⟨rfl, rfl⟩ := hplain hd₂
    exact ⟨hd₂, hs⟩

/-! ## Whole modules -/

variable {lines : List String} {tree : Tree} {tokens : List Token} {m : Markup} {c : Cursor}

/-- The run on a module spells the tokens it takes, in proper markup. -/
theorem run_conserves (hm : tree.isModule Tree.operated = true)
    (h : run lines tree tokens = .ok (m, c)) (hp : c.isPlain = true) :
    m.Proper ∧ ∃ t₀ taken next rest, tokens = t₀ :: taken ++ next :: rest ∧
      c.rest = next :: rest ∧ m.content = t₀.spelled taken ++ (t₀.lastOf taken).gap next := by
  obtain ⟨c₀, hstart, hw, hrest⟩ := run_written ledger_conserves hm h
  obtain ⟨next, rest, hrest⟩ := List.exists_cons_of_ne_nil hrest
  cases tokens with
  | nil => cases hstart
  | cons t₀ ts =>
    cases hstart
    obtain ⟨-, hs⟩ := hw.spelt hp
    obtain ⟨-, hs⟩ := hs rfl
    obtain ⟨taken, hs⟩ := hs t₀ rfl
    have hts : ts = taken ++ c.rest := hs.rest
    have htext := hs.text
    simp only [Cursor.written, hs.current, hrest, contents_cons, contents_nil, String.empty_append,
      String.append_empty] at htext
    refine ⟨((properAll_cons _ _).1 hw.proper).1, t₀, taken, next, rest, ?_, hrest, htext⟩
    rw [hts, hrest, List.cons_append]

/-- What a run that can be evaluated gives. -/
theorem exists_run (lines : List String) (tree : Tree) (tokens : List Token)
    (p : Markup → Cursor → Bool)
    (h : (match run lines tree tokens with
      | .ok (m, c) => p m c
      | .error _ => false) = true) :
    ∃ m c, run lines tree tokens = .ok (m, c) ∧ p m c = true := by
  split at h
  · exact ⟨_, _, ‹_›, h⟩
  · cases h

/-- **Every token and every gap is written exactly once, and in order**, whatever the
    tokens are: if the run on a well-sorted module succeeds, keeps no parenthesis aside
    and writes no other text in place of a token's, the text of its markup is that of
    the tokens it took, each with the gap before it, and the gap after the last one. -/
theorem content_spells_tokens (hm : tree.isModule Tree.operated = true)
    (h : run lines tree tokens = .ok (m, c)) (hdeferred : Remark.deferred ∉ c.remarks)
    (hreplaced : ∀ found written, Remark.replaced found written ∈ c.remarks → found = written) :
    ∃ t₀ taken next rest, tokens = t₀ :: taken ++ next :: rest ∧ c.rest = next :: rest ∧
      m.content = t₀.spelled taken ++ (t₀.lastOf taken).gap next :=
  (run_conserves hm h (Cursor.isPlain_iff.2 ⟨hdeferred, hreplaced⟩)).2

/-- `def f( a, *b ) :` and, on the next row, `return a  + 1 # c`. -/
def sampleTree : Tree :=
  .node "Module" [] [("body", .list [
    .node "FunctionDef" [1, 0] [("name", .leaf (.str "f")),
      ("args", .node "arguments" [] [
        ("args", .list [.node "arg" [1, 7] [("arg", .leaf (.str "a")), ("annotation", .leaf .none)]]),
        ("vararg", .node "arg" [1, 11] [("arg", .leaf (.str "b")), ("annotation", .leaf .none)]),
        ("kwonlyargs", .list []), ("kw_defaults", .list []), ("kwarg", .leaf .none),
        ("defaults", .list [])]),
      ("body", .list [
        .node "Return" [2, 2] [("value", .node "BinOp" [2, 9] [
          ("left", .node "Name" [2, 9] [("id", .leaf (.str "a")), ("ctx", .node "Load" [] [])]),
          ("op", .node "Add" [] []),
          ("right", .node "Num" [2, 14] [("n", .leaf (.int 1))])])]]),
      ("decorator_list", .list []), ("returns", .leaf .none)]])]

def sampleLines : List String :=
  ["def f( a, *b ) :\n", "  return a  + 1 # c\n"]

def sampleTokens : List Token :=
  let first := Token.onRow 1 "def f( a, *b ) :\n"
  let second := Token.onRow 2 "  return a  + 1 # c\n"
  [⟨.encoding, "utf-8", ⟨0, 0⟩, ⟨0, 0⟩, ""⟩,
    first 0 .name "def", first 4 .name "f", first 5 .operator "(", first 7 .name "a",
    first 8 .operator ",", first 10 .operator "*", first 11 .name "b", first 13 .operator ")",
    first 15 .operator ":", first 16 .newline "\n",
    second 0 .indent "  ", second 2 .name "return", second 9 .name "a", second 12 .operator "+",
    second 14 .number "1", second 16 .comment "# c", second 19 .newline "\n",
    Token.onRow 3 "" 0 .dedent "", Token.onRow 3 "" 0 .endMarker ""]

/-- The text of a function definition with blanks and a comment is written out. -/
theorem sample_content_spells_tokens : ∃ m c,
    run sampleLines sampleTree sampleTokens = .ok (m, c) ∧
      sampleTree.isModule Tree.operated = true ∧ Remark.deferred ∉ c.remarks ∧
      (∀ found written, Remark.replaced found written ∈ c.remarks → found = written) ∧
      ∃ t₀ taken next rest, sampleTokens = t₀ :: taken ++ next :: rest ∧ c.rest = next :: rest ∧
        m.content = t₀.spelled taken ++ (t₀.lastOf taken).gap next := by
  have hm : sampleTree.isModule Tree.operated = true := by decide
  obtain ⟨m, c, h, hp⟩ := exists_run sampleLines sampleTree sampleTokens (fun _ c => c.isPlain)
    (by decide +kernel)
  obtain ⟨hdeferred, hreplaced⟩ := Cursor.isPlain_iff.1 hp
  exact ⟨m, c, h, hm, hdeferred, hreplaced, content_spells_tokens hm h hdeferred hreplaced⟩

/-- An `and` of nothing, and `pass`. -/
def emptyOperation : Tree :=
  .node "Module" [] [("body", .list [
    .node "Expr" [1, 2] [("value",
      .node "BoolOp" [1, 2] [("op", .node "And" [] []), ("values", .list [])])],
    .node "Pass" [1, 2] []])]

def passTokens : List Token :=
  [⟨.encoding, "", ⟨0, 0⟩, ⟨0, 0⟩, ""⟩, Token.onRow 1 "  pass\n" 2 .name "pass",
    Token.onRow 1 "  pass\n" 6 .newline "\n", Token.onRow 2 "" 0 .endMarker ""]

/-- An operation with no operand writes the gap before it, takes no token, and leaves the
    same gap to be written again. -/
theorem not_content_spells_tokens_of_emptyOperation : ¬ ∀ (lines : List String) (tree : Tree)
    (tokens : List Token) (m : Markup) (c : Cursor), tree.isModule Tree.valued = true →
      run lines tree tokens = .ok (m, c) → Remark.deferred ∉ c.remarks →
      (∀ found written, Remark.replaced found written ∈ c.remarks → found = written) →
      ∃ t₀ taken next rest, tokens = t₀ :: taken ++ next :: rest ∧ c.rest = next :: rest ∧
        m.content = t₀.spelled taken ++ (t₀.lastOf taken).gap next := by
  intro hall
  obtain ⟨m, c, h, hp⟩ := exists_run ["  pass\n"] emptyOperation passTokens
    (fun m c => c.remarks = [] && c.rest = passTokens.drop 3 && m.content = "    pass\n")
    (by decide +kernel)
  simp only [Bool.and_eq_true, decide_eq_true_eq] at hp
  obtain ⟨⟨hremarks, hrest⟩, hcontent⟩ := hp
  obtain ⟨t₀, taken, next, rest, htokens, hnext, htext⟩ :=
    hall _ _ _ m c (by decide) h (by simp [hremarks]) (by simp [hremarks])
  have hsplit := (List.take_append_drop 3 passTokens).trans
    (htokens.trans (by rw [← hnext, hrest]))
  obtain ⟨rfl, rfl⟩ : _ = t₀ ∧ _ = taken := List.cons.inj (List.append_cancel_right hsplit)
  obtain rfl : _ = next := (List.cons.inj (hrest.symm.trans hnext)).1
  rw [hcontent] at htext
  revert htext
  decide +kernel

end SourceScribe.Conversion
