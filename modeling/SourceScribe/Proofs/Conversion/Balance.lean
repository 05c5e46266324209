/-
  Conservation of text when parentheses are kept aside.

  A parenthesis that is kept aside leaves the text at one node and comes back at another
  one, or not at all.  So the text is not in order any more, but nothing is lost and nothing
  is doubled: the characters of the markup and those of the parentheses that are still
  kept aside are the characters of the tokens taken, with their gaps.

  `Balances` is the account that says so; `Balances.aside` and `Balances.restored` are its two
  entries for parentheses.
-/
import Mathlib.Algebra.Order.Group.Multiset
import Mathlib.Tactic.Abel
import SourceScribe.Proofs.Conversion.Conservation

namespace SourceScribe.Conversion

open Scan Markup

/-! ## Characters -/

/-- The characters of a text, in no order. -/
def chars (s : String) : Multiset Char := s.toList

@[simp] theorem chars_empty : chars "" = 0 := rfl

@[simp] theorem chars_append (s t : String) : chars (s ++ t) = chars s + chars t := by
  simp [chars]

/-- The characters of the parentheses kept aside. -/
def held (ds : List Deferred) : Multiset Char :=
  (ds.map fun d => chars d.text).sum

@[simp] theorem held_nil : held [] = 0 := rfl

@[simp] theorem held_cons (d : Deferred) (ds : List Deferred) :
    held (d :: ds) = chars d.text + held ds := by
  simp [held]

/-! ## The account -/

/-- Every text written in place of tokens is theirs. -/
def Cursor.Honest (c : Cursor) : Prop :=
  ∀ found written, Remark.replaced found written ∈ c.remarks → found = written

instance (c : Cursor) : Decidable c.Honest :=
  decidable_of_iff (∀ r ∈ c.remarks, r = .deferred ∨ r.isPlain = true) <| by
    constructor
    · intro h found written hr
      simpa [Remark.isPlain] using h _ hr
    · intro h r hr
      cases r with
      | deferred => exact Or.inl rfl
      | replaced found written => exact Or.inr (by simpa [Remark.isPlain] using h found written hr)
      | idle => exact Or.inr rfl

/-- The text `s`, with what comes to be kept aside, has the characters of the tokens taken
    from `c` to `c'`, with the gaps that are due, and of what is no longer kept aside. -/
structure Evens (c : Cursor) (b : Bool) (s : String) (c' : Cursor) (b' : Bool) (a : Token)
    (taken : List Token) : Prop where
  rest : c.rest = taken ++ c'.rest
  current : c'.current = some (a.lastOf taken)
  even : chars (c.written b) + chars s + held c'.deferred =
    chars (a.spelled taken) + chars (c'.written b') + held c.deferred

/-- If the texts in place of tokens are theirs, the text and what is kept aside have the
    characters of the tokens taken. -/
def Balances (c : Cursor) (b : Bool) (s : String) (c' : Cursor) (b' : Bool) : Prop :=
  c'.Honest → c.Honest ∧ ∀ a, c.current = some a → ∃ taken, Evens c b s c' b' a taken

variable {c c' c₁ c₂ : Cursor} {b b' b₁ b₂ : Bool} {s s' s₁ : String}

theorem Evens.trans {a : Token} {taken more : List Token} (h : Evens c b s c₁ b₁ a taken)
    (h' : Evens c₁ b₁ s₁ c₂ b₂ (a.lastOf taken) more) :
    Evens c b (s ++ s₁) c₂ b₂ a (taken ++ more) where
  rest := by rw [h.rest, h'.rest, List.append_assoc]
  current := by rw [h'.current, Token.lastOf_append]
  even := by
    rw [Token.spelled_append, chars_append, chars_append]
    -- what is written and kept aside between the two runs stands on both sides
    refine add_right_cancel (b := chars (c₁.written b₁) + held c₁.deferred) ?_
    calc chars (c.written b) + (chars s + chars s₁) + held c₂.deferred
          + (chars (c₁.written b₁) + held c₁.deferred)
        = (chars (c.written b) + chars s + held c₁.deferred)
          + (chars (c₁.written b₁) + chars s₁ + held c₂.deferred) := by abel
      _ = (chars (a.spelled taken) + chars (c₁.written b₁) + held c.deferred)
          + (chars ((a.lastOf taken).spelled more) + chars (c₂.written b₂) + held c₁.deferred) := by
          rw [h.even, h'.even]
      _ = chars (a.spelled taken) + chars ((a.lastOf taken).spelled more)
          + chars (c₂.written b₂) + held c.deferred
          + (chars (c₁.written b₁) + held c₁.deferred) := by abel

theorem tally_balances : Tally Balances where
  refl c b hh := ⟨hh, fun a ha => ⟨[], rfl, ha, by simp [Token.spelled]⟩⟩
  trans h h' hh := by
    obtain ⟨hh₁, h'⟩ := h' hh
    obtain ⟨hh₀, h⟩ := h hh₁
    refine ⟨hh₀, fun a ha => ?_⟩
    obtain ⟨taken, hs⟩ := h a ha
    obtain ⟨more, hs'⟩ := h' _ hs.current
    exact ⟨taken ++ more, hs.trans hs'⟩
  token {c t ts} hr hh := by
    refine ⟨hh, fun a ha => ⟨[t], hr, rfl, ?_⟩⟩
    simp [Cursor.written, ha, hr, Token.spelled]
  gap {c a t ts} ha hr hh := by
    refine ⟨hh, fun a' ha' => ⟨[], rfl, ha', ?_⟩⟩
    simp [Cursor.written, ha, hr, Token.spelled]

namespace Balances

/-- The order of the characters does not matter. -/
theorem perm (h : Balances c b s c' b') (hs : chars s = chars s') : Balances c b s' c' b' := by
  intro hh
  obtain ⟨hh₀, h⟩ := h hh
  refine ⟨hh₀, fun a ha => ?_⟩
  obtain ⟨taken, hrest, hcurrent, heven⟩ := h a ha
  exact ⟨taken, hrest, hcurrent, hs ▸ heven⟩

/-- A text in place of another one that is the same. -/
theorem replaced {found written : String} (h : Balances c b found c' b') :
    Balances c b written (c'.remark (.replaced found written)) b' := by
  intro hh
  obtain rfl : found = written := hh _ _ (by simp [Cursor.remark])
  obtain ⟨hh₀, h⟩ := h fun _ _ hr => hh _ _ (List.mem_cons_of_mem _ hr)
  refine ⟨hh₀, fun a ha => ?_⟩
  obtain ⟨taken, hrest, hcurrent, heven⟩ := h a ha
  exact ⟨taken, hrest, hcurrent, heven⟩

/-- A text that would be written is kept aside instead. -/
theorem aside {d : Deferred} (h : Balances c b d.text c₁ b₁) :
    Balances c b "" { c₁.remark .deferred with deferred := d :: c₁.deferred } b₁ := by
  intro hh
  obtain ⟨hh₀, h⟩ := h fun _ _ hr => hh _ _ (List.mem_cons_of_mem _ hr)
  refine ⟨hh₀, fun a ha => ?_⟩
  obtain ⟨taken, hrest, hcurrent, heven⟩ := h a ha
  refine ⟨taken, hrest, hcurrent, ?_⟩
  rw [held_cons, chars_empty, add_zero, ← add_assoc]
  exact heven

/-- A text that was kept aside is written. -/
theorem restored {d : Deferred} {ds : List Deferred} (hd : c.deferred = d :: ds) (b : Bool) :
    Balances c b d.text { c with deferred := ds } b := by
  intro hh
  refine ⟨hh, fun a ha => ⟨[], rfl, ha, ?_⟩⟩
  have hwritten : Cursor.written { c with deferred := ds } b = c.written b := by
    cases b <;> rfl
  rw [hwritten, hd, held_cons, Token.spelled, chars_empty, zero_add, add_assoc]

end Balances

/-- What is taken on the way into an expression is kept aside. -/
theorem openParenthesis_balances {r : NodeRef} (h : openParenthesis r c = .ok () c') :
    Balances c true "" c' true := by
  simp only [openParenthesis, bind_ok, peek_ok] at h
  obtain ⟨t, _, ⟨-, rfl⟩, h⟩ := h
  split at h
  · simp only [bind_ok, orFail_ok] at h
    obtain ⟨place, _, ⟨-, rfl⟩, h⟩ := h
    split at h
    · simp only [bind_ok, peek_ok, defer, modify_ok] at h
      obtain ⟨text, c₁, ht, next, _, ⟨-, rfl⟩, rfl⟩ := h
      exact Balances.aside (d := ⟨text, next.start, r.path⟩) (tally_balances.enclosed ht)
    · obtain ⟨-, rfl⟩ := pure_ok.1 h
      exact tally_balances.refl c true
  · obtain ⟨-, rfl⟩ := pure_ok.1 h
    exact tally_balances.refl c true

/-- An expression has the parenthesis that closes here in front of it, wherever that one
    was taken. -/
theorem enclose_balances {r : NodeRef} {start : Except Cause Position} {rule : Into}
    {ms : List Markup} (hone : rule.AddsOne)
    (hrule : ∀ c ms c', rule [] c = .ok ms c' → Balances c true (contents ms) c' false)
    (h : enclose r start rule [] c = .ok ms c') : Balances c true (contents ms) c' false := by
  obtain ⟨c₁, e, c₂, ho, he, hend⟩ := enclose_ok hone h
  have hinside : Balances c true e.content c₂ false :=
    (tally_balances.trans (openParenthesis_balances ho) (hrule _ _ _ he)).perm (by simp)
  rcases hend with ⟨rfl, rfl, -⟩ | ⟨d, ds, right, hds, -, hr, rfl⟩
  · exact hinside.perm (by simp)
  · have hopening := tally_balances.trans hinside (Balances.restored hds false)
    refine (tally_balances.trans hopening (tally_balances.enclosed hr)).perm ?_
    simp only [List.nil_append, contents_cons, contents_nil, content_text, chars_append, chars_empty]
    abel

theorem ledger_balances : Ledger Balances where
  toTally := tally_balances
  replaced := Balances.replaced
  enclose := enclose_balances

/-! ## Whole modules -/

variable {lines : List String} {tree : Tree} {tokens : List Token} {m : Markup}

/-- **Keeping parentheses aside neither doubles nor loses a character**, whatever the tokens
    and the recorded places are: if the run on a well-sorted module succeeds and writes no
    other text in place of a token's, the text of its markup and the parentheses still kept
    aside have the characters of the tokens it took, each with the gap before it, and of the
    gap after the last one. -/
theorem chars_content_add_held (hm : tree.isModule Tree.operated = true)
    (h : run lines tree tokens = .ok (m, c))
    (hreplaced : ∀ found written, Remark.replaced found written ∈ c.remarks → found = written) :
    ∃ t₀ taken next rest, tokens = t₀ :: taken ++ next :: rest ∧ c.rest = next :: rest ∧
      chars m.content + held c.deferred =
        chars (t₀.spelled taken ++ (t₀.lastOf taken).gap next) := by
  obtain ⟨c₀, hstart, hw, hrest⟩ := run_written ledger_balances hm h
  obtain ⟨next, rest, hrest⟩ := List.exists_cons_of_ne_nil hrest
  cases tokens with
  | nil => cases hstart
  | cons t₀ ts =>
    cases hstart
    obtain ⟨-, hs⟩ := hw.spelt hreplaced
    obtain ⟨taken, hs⟩ := hs t₀ rfl
    have hts : ts = taken ++ c.rest := hs.rest
    have heven := hs.even
    simp only [Cursor.written, hs.current, hrest, contents_cons, contents_nil, chars_append,
      chars_empty, zero_add, add_zero, held_nil] at heven
    refine ⟨t₀, taken, next, rest, ?_, hrest, ?_⟩
    · rw [hts, hrest, List.cons_append]
    · rw [heven, chars_append]

/-- `( a) + (b`, with the sum recorded at its sign. -/
def unclosedTree : Tree :=
  .node "Module" [] [("body", .list [.node "Expr" [1, 0] [("value", .node "BinOp" [1, 5] [
    ("left", .node "Name" [1, 2] [("id", .leaf (.str "a")), ("ctx", .node "Load" [] [])]),
    ("op", .node "Add" [] []),
    ("right", .node "Name" [1, 8] [("id", .leaf (.str "b")), ("ctx", .node "Load" [] [])])])]])]

def unclosedTokens : List Token :=
  let first := Token.onRow 1 "( a) + (b\n"
  [⟨.encoding, "utf-8", ⟨0, 0⟩, ⟨0, 0⟩, ""⟩,
    first 0 .operator "(", first 2 .name "a", first 3 .operator ")", first 5 .operator "+",
    first 7 .operator "(", first 8 .name "b", first 9 .newline "\n",
    Token.onRow 2 "" 0 .endMarker ""]

/-- The first parenthesis is taken by the sum and written before `a`; the second one is
    still kept aside at the end. -/
theorem unclosed_chars_content_add_held : ∃ m c,
    run ["( a) + (b\n"] unclosedTree unclosedTokens = .ok (m, c) ∧
      unclosedTree.isModule Tree.operated = true ∧
      (∀ found written, Remark.replaced found written ∈ c.remarks → found = written) ∧
      m.content = "( a) + b\n" ∧ c.deferred.map Deferred.text = ["("] ∧
      ∃ t₀ taken next rest, unclosedTokens = t₀ :: taken ++ next :: rest ∧ c.rest = next :: rest ∧
        chars m.content + held c.deferred =
          chars (t₀.spelled taken ++ (t₀.lastOf taken).gap next) := by
  have hm : unclosedTree.isModule Tree.operated = true := by decide
  obtain ⟨m, c, h, hp⟩ := exists_run ["( a) + (b\n"] unclosedTree unclosedTokens
    (fun m c => c.Honest && m.content = "( a) + b\n" && c.deferred.map Deferred.text = ["("])
    (by decide +kernel)
  simp only [Bool.and_eq_true, decide_eq_true_eq] at hp
  obtain ⟨⟨hreplaced, hcontent⟩, hdeferred⟩ := hp
  exact ⟨m, c, h, hm, hreplaced, hcontent, hdeferred, chars_content_add_held hm h hreplaced⟩

/-- An operation with no operand doubles the gap before it. -/
theorem not_chars_content_add_held_of_emptyOperation : ¬ ∀ (lines : List String) (tree : Tree)
    (tokens : List Token) (m : Markup) (c : Cursor), tree.isModule Tree.valued = true →
      run lines tree tokens = .ok (m, c) →
      (∀ found written, Remark.replaced found written ∈ c.remarks → found = written) →
      ∃ t₀ taken next rest, tokens = t₀ :: taken ++ next :: rest ∧ c.rest = next :: rest ∧
        chars m.content + held c.deferred =
          chars (t₀.spelled taken ++ (t₀.lastOf taken).gap next) := by
  intro hall
  obtain ⟨m, c, h, hp⟩ := exists_run ["  pass\n"] emptyOperation passTokens
    (fun m c => c.remarks = [] && c.rest = passTokens.drop 3 && c.deferred.map Deferred.text = []
      && m.content = "    pass\n")
    (by decide +kernel)
  simp only [Bool.and_eq_true, decide_eq_true_eq, List.map_eq_nil_iff] at hp
  obtain ⟨⟨⟨hremarks, hrest⟩, hdeferred⟩, hcontent⟩ := hp
  obtain ⟨t₀, taken, next, rest, htokens, hnext, heven⟩ :=
    hall _ _ _ m c (by decide) h (by simp [hremarks])
  have hsplit := (List.take_append_drop 3 passTokens).trans
    (htokens.trans (by rw [← hnext, hrest]))
  obtain ⟨rfl, rfl⟩ : _ = t₀ ∧ _ = taken := List.cons.inj (List.append_cancel_right hsplit)
  obtain rfl : _ = next := (List.cons.inj (hrest.symm.trans hnext)).1
  rw [hcontent, hdeferred] at heven
  revert heven
  decide +kernel

end SourceScribe.Conversion
