/-
  What a run may leave behind.

  A run that succeeds need not reach the end of the tokens: nobody looks at the end whether
  it did.  But what it takes it shows, so whatever is missing from its markup is still among
  the tokens that are left or the parentheses that are kept aside (`bare_le_content_add_held`).
  The tokens that are left start with one that cannot stand between two statements.

  `Tree.nestsNoModule` leaves out the one rule that drops what it converts, that of a module
  inside a module.
-/
import SourceScribe.Proofs.Conversion.Outstanding.Statements

namespace SourceScribe

namespace Tree

mutual

/-- There is no module in the tree. -/
def hasNoModule : Tree → Bool
  | leaf _ => true
  | node cls _ fields => cls ≠ "Module" && haveNoModule fields
  | list items => itemsHaveNoModule items

/-- `hasNoModule` of all fields. -/
def haveNoModule : List (String × Tree) → Bool
  | [] => true
  | (_, t) :: fields => t.hasNoModule && haveNoModule fields

/-- `hasNoModule` of all items. -/
def itemsHaveNoModule : List Tree → Bool
  | [] => true
  | t :: items => t.hasNoModule && itemsHaveNoModule items

end

/-- There is no module inside the tree, though the tree may be one. -/
def nestsNoModule : Tree → Bool
  | leaf _ => true
  | node _ _ fields => haveNoModule fields
  | list items => itemsHaveNoModule items

end Tree

namespace Conversion

open Scan Markup

variable {x : Char} {c c' c₁ : Cursor}

/-! ## Parentheses -/

namespace Settles

variable {debt : Nat} {s s' : String} {d : Deferred} {ds : List Deferred}

/-- A debt is shown besides, in whatever order. -/
theorem besides (h : Settles x 0 c s c') (hs : debt + copies x s ≤ copies x s') :
    Settles x debt c s' c' where
  honest := h.honest
  rest := h.rest
  settled := by
    have hsettled := h.settled
    omega

/-- A text that would be shown is kept aside instead. -/
theorem aside (h : Settles x debt c d.text c₁) :
    Settles x debt c "" { c₁.remark .deferred with deferred := d :: c₁.deferred } where
  honest := h.honest
  rest := h.rest
  settled := by
    have hsettled := h.settled
    simp only [Cursor.outstanding, Cursor.remark, held_cons, Multiset.count_add,
      copies] at hsettled ⊢
    omega

/-- A text that was kept aside is shown. -/
theorem restored (hd : c.deferred = d :: ds) (hh : c.Honest) :
    Settles x 0 c d.text { c with deferred := ds } where
  honest := hh
  rest := List.suffix_rfl
  settled := by
    simp only [Cursor.outstanding, hd, held_cons, Multiset.count_add, copies]
    omega

end Settles

theorem openParenthesis_settles {r : NodeRef} (h : openParenthesis r c = .ok () c')
    (hh : c'.Honest) : Settles x 0 c "" c' := by
  simp only [openParenthesis, bind_ok, peek_ok] at h
  obtain ⟨t, _, ⟨-, rfl⟩, h⟩ := h
  split at h
  · simp only [bind_ok, orFail_ok] at h
    obtain ⟨place, _, ⟨-, rfl⟩, h⟩ := h
    split at h
    · simp only [bind_ok, peek_ok, defer, modify_ok] at h
      obtain ⟨text, c₁, ht, next, _, ⟨-, rfl⟩, rfl⟩ := h
      have hh₁ : c₁.Honest := fun _ _ hr => hh _ _ (List.mem_cons_of_mem _ hr)
      exact Settles.aside (d := ⟨text, next.start, r.path⟩) ((tally_settles x).enclosed ht hh₁)
    · obtain ⟨-, rfl⟩ := pure_ok.1 h
      exact (tally_settles x).refl c true hh
  · obtain ⟨-, rfl⟩ := pure_ok.1 h
    exact (tally_settles x).refl c true hh

/-- An expression shows what its rule takes, and the pair of parentheses that closes here. -/
theorem enclose_pays {r : NodeRef} {start : Except Cause Position} {rule : Into}
    (hone : rule.AddsOne) (hrule : Pays x 0 (rule []) contents) :
    PaysInto x (enclose r start rule) := by
  intro parent c ms c' h hh
  obtain ⟨c₁, e, c₂, hopen, he, hplace⟩ := enclose_ok hone h
  have hinside (hh₂ : c₂.Honest) : Settles x 0 c ("" ++ contents [e]) c₂ := by
    have hrule := hrule _ _ _ he hh₂
    exact (openParenthesis_settles hopen hrule.honest).trans hrule
  obtain ⟨rfl, rfl, -⟩ | ⟨d, ds, right, hds, -, hright, rfl⟩ := hplace
  · exact (hinside hh).besides (by simp)
  · have hclosing := (tally_settles x).enclosed hright hh
    have hrestored := Settles.restored (x := x) hds hclosing.honest
    refine (((hinside hrestored.honest).trans hrestored).trans hclosing).besides ?_
    simp only [contents_append, contents_cons, contents_nil, content_text, copies_append,
      copies_empty]
    omega

/-! ## Nodes -/

section
variable {n : Site}

theorem expressionRule?_pays (h : n.Shows x) {rule : Into}
    (hrule : expressionRule? n = some rule) : Pays x 0 (rule []) contents := by
  rw [expressionRule?] at hrule
  generalize n.ref.cls = cls at hrule
  split at hrule <;> cases hrule
  · exact numberRule_pays
  · exact stringRule_pays
  · exact stringRule_pays
  · exact tupleRule_pays h
  · exact listRule_pays h
  · exact listRule_pays h
  · exact dictRule_pays h
  · exact nameRule_pays h
  · exact nameConstantRule_pays
  · exact ellipsisRule_pays
  · exact starredRule_pays h
  · exact attributeRule_pays h
  · exact subscriptRule_pays h
  · exact yieldRule_pays h
  · exact yieldRule_pays h
  · exact binOpRule_pays h
  · exact boolOpRule_pays h
  · exact unaryOpRule_pays h
  · exact compareRule_pays h
  · exact callRule_pays h
  · exact ifExpRule_pays h
  · exact comprehensionRule_pays h
  · exact comprehensionRule_pays h
  · exact comprehensionRule_pays h
  · exact comprehensionRule_pays h
  · exact lambdaRule_pays h

theorem statementRule?_pays (h : n.Shows x) {rule : Scan Markup}
    (hrule : statementRule? n = some rule) : Pays x 0 rule content := by
  rw [statementRule?] at hrule
  generalize n.ref.cls = cls at hrule
  split at hrule <;> cases hrule
  · exact exprRule_pays h
  · exact wordRule_pays
  · exact wordRule_pays
  · exact wordRule_pays
  · exact assertRule_pays h
  · exact assignRule_pays h
  · exact deleteRule_pays h
  · exact declareRule_pays h
  · exact declareRule_pays h
  · exact augAssignRule_pays h
  · exact importRule_pays h
  · exact importFromRule_pays h
  · exact returnRule_pays h
  · exact functionDefRule_pays h
  · exact classDefRule_pays h
  · exact conditionRule_pays h
  · exact conditionRule_pays h
  · exact forRule_pays h
  · exact raiseRule_pays h
  · exact tryRule_pays h
  · exact withRule_pays h

theorem otherRule?_pays (h : n.Shows x) (hmodule : n.ref.cls ≠ "Module")
    {rule : Into} (hrule : otherRule? n = some rule) : PaysInto x rule := by
  rw [otherRule?] at hrule
  generalize n.ref.cls = cls at hrule hmodule
  split at hrule <;> cases hrule
  · exact absurd rfl hmodule
  · exact indexRule_pays h
  · exact sliceRule_pays h
  · exact extSliceRule_pays h
  · exact exceptHandlerRule_pays h

theorem addNode_pays (h : n.Shows x) (start : Except Cause Position)
    (hmodule : n.ref.cls ≠ "Module") : PaysInto x (addNode start n) := by
  intro parent
  rw [addNode]
  split
  · have hrule := ‹expressionRule? n = _›
    exact (enclose_pays (expressionRule?_addsOne hrule) (expressionRule?_pays h hrule) parent).within
  · exact (afterGap_pays (statementRule?_pays h ‹_›) parent).within
  · exact (otherRule?_pays h hmodule ‹_› parent).within
  · exact .fail

end

/-! ## Trees -/

variable {lines : List String}

mutual

/-- **Every node of a tree without modules shows what is taken for it.** -/
theorem shows_toPart : ∀ (t : Tree) (path : Path), t.hasNoModule = true →
    (toPart lines path t).Shows x
  | .leaf v, path, _ => by
    rw [toPart]
    exact .leaf v
  | .list items, path, h => by
    rw [toPart]
    exact .list (shows_toItems items path 0 h)
  | .node cls places fields, path, h => by
    rw [Tree.hasNoModule, Bool.and_eq_true, decide_eq_true_eq] at h
    have hfields := shows_toFields fields path h.2
    rw [toPart]
    exact .node hfields (addNode_pays (n := ⟨_, _⟩) hfields _ h.1)

theorem shows_toFields : ∀ (fields : List (String × Tree)) (path : Path),
    Tree.haveNoModule fields = true →
      ∀ name p, (toFields lines path fields).lookup name = some p → p.Shows x
  | [], _, _, _, _, hp => by cases hp
  | (key, t) :: fields, path, h, name, p, hp => by
    rw [Tree.haveNoModule, Bool.and_eq_true] at h
    rw [toFields, List.lookup_cons] at hp
    split at hp
    · cases hp
      exact shows_toPart t _ h.1
    · exact shows_toFields fields path h.2 name p hp

theorem shows_toItems : ∀ (items : List Tree) (path : Path) (i : Nat),
    Tree.itemsHaveNoModule items = true → ∀ p ∈ toItems lines path i items, p.Shows x
  | [], _, _, _, _, hp => by cases hp
  | t :: items, path, i, h, p, hp => by
    rw [Tree.itemsHaveNoModule, Bool.and_eq_true] at h
    rw [toItems, List.mem_cons] at hp
    rcases hp with rfl | hp
    · exact shows_toPart t _ h.1
    · exact shows_toItems items path (i + 1) h.2 p hp

end

/-! ## Whole modules -/

/-- Taking tokens of some sort ends before one of another sort. -/
theorem absorbFrom_stops {p : Token → Bool} {ts : List Token} {s : String} (hr : c.rest = ts)
    (h : absorbFrom p ts c = .ok s c') : ∃ t us, c'.rest = t :: us ∧ p t = false := by
  induction ts generalizing c s with
  | nil => exact (fail_ok.1 h).elim
  | cons t ts ih =>
    rw [absorbFrom] at h
    split at h
    · simp only [bind_ok, pure_ok] at h
      obtain ⟨u, c₁, ht, before, c₂, hbefore, more, c₃, hmore, -, rfl⟩ := h
      obtain ⟨-, rfl⟩ := gapBefore_ok.1 hbefore
      exact ih (take_cons hr ht).2 hmore
    · obtain ⟨-, rfl⟩ := pure_ok.1 h
      exact ⟨t, ts, hr, Bool.not_eq_true _ ▸ ‹¬ p t = true›⟩

theorem betweenStatements_stops {s : String} {after : Bool}
    (h : betweenStatements after c = .ok s c') :
    ∃ t us, c'.rest = t :: us ∧ t.isBetweenStatements = false := by
  simp only [betweenStatements, absorb, bind_ok, get_ok] at h
  obtain ⟨text, c₁, ⟨_, _, ⟨rfl, rfl⟩, ht⟩, h⟩ := h
  obtain ⟨t, us, hrest, hsort⟩ := absorbFrom_stops rfl ht
  have hc : c₁ = c' := by
    cases after with
    | false => exact (pure_ok.1 h).2
    | true =>
      simp only [if_true, bind_ok, pure_ok] at h
      obtain ⟨_, _, hgap, -, rfl⟩ := h
      exact looks_gapAfter _ _ _ hgap
  exact ⟨t, us, hc ▸ hrest, hsort⟩

theorem rootRule_pays {tree : Tree} (hnested : tree.nestsNoModule = true) :
    Pays x 0 (rootRule (toPart lines .root tree)) content := by
  intro c m c' h
  obtain ⟨ref, fields, start, write, hpart, hwhole⟩ := rootRule_ok h
  have hfields : Site.Shows x ⟨ref, fields⟩ := by
    cases tree with
    | node cls places subtrees =>
      rw [toPart] at hpart
      cases hpart
      exact shows_toFields subtrees _ hnested
    | leaf | list => rw [toPart] at hpart; cases hpart
  refine Pays.bind (moduleRule_pays hfields).within (fun statements => ?_) _ _ _ hwhole
  refine (betweenStatements_pays true).bind fun after => .pure ?_
  simp

theorem rootRule_stops {p : Part} {m : Markup} (h : rootRule p c = .ok m c') :
    ∃ t us, c'.rest = t :: us ∧ t.isBetweenStatements = false := by
  obtain ⟨ref, fields, start, write, -, hwhole⟩ := rootRule_ok h
  simp only [wholeModule, bind_ok, pure_ok] at hwhole
  obtain ⟨_, _, -, _, _, hbetween, -, rfl⟩ := hwhole
  exact betweenStatements_stops hbetween

variable {tree : Tree} {tokens : List Token} {m : Markup}

/-- **What a run takes it does not lose.**  If a run succeeds and writes no other text in
    place of a token's, every character of the tokens it took is in the text of its markup
    or in a parenthesis that is still kept aside.  So what is missing is in the tokens that
    are left, and those start with one that cannot stand between two statements: it need not
    be the last one. -/
theorem bare_le_content_add_held (hnested : tree.nestsNoModule = true)
    (h : run lines tree tokens = .ok (m, c))
    (hreplaced : ∀ found written, Remark.replaced found written ∈ c.remarks → found = written) :
    ∃ t₀ taken next rest, tokens = t₀ :: taken ++ next :: rest ∧ c.rest = next :: rest ∧
      next.isBetweenStatements = false ∧ bare taken ≤ chars m.content + held c.deferred := by
  obtain ⟨c₀, hstart, hroot⟩ := run_ok h
  obtain ⟨next, rest, hrest, hsort⟩ := rootRule_stops hroot
  have hsettles (x : Char) : Settles x 0 c₀ m.content c :=
    rootRule_pays hnested _ _ _ hroot hreplaced
  obtain ⟨taken, htaken⟩ := (hsettles ' ').rest
  cases tokens with
  | nil => cases hstart
  | cons t₀ ts =>
    cases hstart
    obtain rfl : taken ++ c.rest = ts := htaken
    refine ⟨t₀, taken, next, rest, ?_, hrest, hsort, Multiset.le_iff_count.2 fun x => ?_⟩
    · rw [List.cons_append, ← hrest]
    · have hsettled := (hsettles x).settled
      simp only [Cursor.outstanding, bare_append, held_nil, Multiset.count_add, copies]
        at hsettled ⊢
      omega

/-- `x[a:b` and, on the next row, `:]`. -/
def brokenSlice : Tree :=
  let name (id : String) (column : Int) : Tree :=
    .node "Name" [1, column] [("id", .leaf (.str id)), ("ctx", .node "Load" [] [])]
  .node "Module" [] [("body", .list [.node "Expr" [1, 0] [("value",
    .node "Subscript" [1, 0] [("value", name "x" 0),
      ("slice", .node "Slice" [] [("lower", name "a" 2), ("upper", name "b" 4),
        ("step", .leaf .none)]),
      ("ctx", .node "Load" [] [])])]])]

def brokenSliceTokens : List Token :=
  let first := Token.onRow 1 "x[a:b\n"
  let second := Token.onRow 2 ":]\n"
  [⟨.encoding, "utf-8", ⟨0, 0⟩, ⟨0, 0⟩, ""⟩,
    first 0 .name "x", first 1 .operator "[", first 2 .name "a", first 3 .operator ":",
    first 4 .name "b", first 5 .lineBreak "\n", second 0 .operator ":", second 1 .operator "]",
    second 2 .newline "\n", Token.onRow 3 "" 0 .endMarker ""]

/-- The second colon of the slice is taken for what ends the subscript, and the bracket is
    left behind, with no failure. -/
theorem brokenSlice_bare_le_content_add_held : ∃ m c,
    run ["x[a:b\n", ":]\n"] brokenSlice brokenSliceTokens = .ok (m, c) ∧
      brokenSlice.nestsNoModule = true ∧
      (∀ found written, Remark.replaced found written ∈ c.remarks → found = written) ∧
      m.content = "x[a:b\n:" ∧ c.rest.map Token.text = ["]", "\n", ""] ∧
      ∃ t₀ taken next rest, brokenSliceTokens = t₀ :: taken ++ next :: rest ∧
        c.rest = next :: rest ∧ next.isBetweenStatements = false ∧
        bare taken ≤ chars m.content + held c.deferred := by
  have hnested : brokenSlice.nestsNoModule = true := by decide
  obtain ⟨m, c, h, hp⟩ := exists_run ["x[a:b\n", ":]\n"] brokenSlice brokenSliceTokens
    (fun m c => c.Honest && m.content = "x[a:b\n:" && c.rest.map Token.text = ["]", "\n", ""])
    (by decide +kernel)
  simp only [Bool.and_eq_true, decide_eq_true_eq] at hp
  obtain ⟨⟨hreplaced, hcontent⟩, hrest⟩ := hp
  exact ⟨m, c, h, hnested, hreplaced, hcontent, hrest,
    bare_le_content_add_held hnested h hreplaced⟩

end Conversion

end SourceScribe
