/-
  Which expression a parenthesis encloses.

  An opening parenthesis is kept aside by the first node on the way down that is recorded
  after it, which need not be the one it encloses.  For arithmetic on one row it is given
  to the right one all the same (`Operand.converts`): every parenthesis is taken before
  the expression that it encloses is gone through, the next token tells where that
  expression starts, and of the expressions that end before the closing parenthesis no
  other one starts there or has taken it.

  * `Leads` says which parentheses the tokens of an expression begin with;
  * `Ready` that the cursor is before an expression, some of these parentheses being kept
    aside already;
  * `Outside` that what comes after an expression closes nothing inside it.
-/
import SourceScribe.Proofs.Conversion.Fragment
import SourceScribe.Proofs.Tree.Arithmetic

namespace SourceScribe

/-! ## Tokens of arithmetic -/

namespace Token

/-- The token may begin an expression at this place. -/
structure Begins (place : Position) (t : Token) : Prop where
  start : t.start = place
  inside : t.isBetweenStatements = false

theorem Begins.isFiller {place : Position} {t : Token} (h : t.Begins place) : t.isFiller = false := by
  have hinside := h.inside
  simp only [isBetweenStatements, Bool.or_eq_false_iff] at hinside
  exact hinside.1.1.2

variable (row : Int) (line : String) (column : Int)

theorem begins_operand {kind : TokenKind} (hkind : kind = .number ∨ kind = .name) (text : String) :
    (onRow row line column kind text).Begins ⟨row, column⟩ ∧
      (onRow row line column kind text).isOp .lpar = false := by
  rcases hkind with rfl | rfl
  · exact ⟨⟨rfl, rfl⟩, rfl⟩
  · exact ⟨⟨rfl, rfl⟩, rfl⟩

theorem begins_unarySign (sign : Arithmetic.UnarySign) :
    (onRow row line column sign.kind sign.text).Begins ⟨row, column⟩ ∧
      (onRow row line column sign.kind sign.text).isOp .lpar = false := by
  cases sign <;> exact ⟨⟨rfl, rfl⟩, rfl⟩

theorem begins_lpar : (onRow row line column .operator "(").Begins ⟨row, column⟩ ∧
    (onRow row line column .operator "(").isOp .lpar = true :=
  ⟨⟨rfl, rfl⟩, rfl⟩

theorem isOp_binarySign (sign : Arithmetic.BinarySign) :
    (onRow row line column .operator sign.text).isFiller = false ∧
      (onRow row line column .operator sign.text).isOp .rpar = false := by
  cases sign <;> exact ⟨rfl, rfl⟩

theorem isOp_rpar : (onRow row line column .operator ")").isFiller = false ∧
    (onRow row line column .operator ")").isOp .rpar = true :=
  ⟨rfl, rfl⟩

/-- The gap between two tokens on a row. -/
theorem gap_eq_spaces {row p q : Int} {a b : Token} {n : Nat} (ha : a.stop = ⟨row, p⟩)
    (hb : b.start = ⟨row, q⟩) (hq : q = p + n) : a.gap b = Text.spaces n := by
  have hwidth : b.start.column - a.stop.column = n := by
    rw [ha, hb]
    exact (by omega : q - p = n)
  rw [gap_sameRow (by rw [ha, hb]), hwidth]

end Token

namespace Conversion

/-! ## Leading parentheses -/

/-- Tokens that begin with opening parentheses, one for each mark: its text with the gap
    after it, and where the token after it starts. -/
inductive Leads : List (String × Position) → List Token → Prop where
  | first {t : Token} {ts : List Token} (ht : t.isOp .lpar = false) : Leads [] (t :: ts)
  | paren {t u : Token} {us : List Token} {marks : List (String × Position)}
      (ht : t.isOp .lpar = true) (hf : t.isFiller = false) (hu : u.isFiller = false)
      (h : Leads marks (u :: us)) : Leads ((t.text ++ t.gap u, u.start) :: marks) (t :: u :: us)

theorem Leads.append {marks : List (String × Position)} {ts : List Token} (h : Leads marks ts)
    (us : List Token) : Leads marks (ts ++ us) := by
  induction h with
  | first ht => exact .first ht
  | paren ht hf hu _ ih => exact .paren ht hf hu ih

theorem Leads.drop {marks : List (String × Position)} {ts : List Token} (h : Leads marks ts)
    {n : Nat} (hn : n ≤ marks.length) : Leads (marks.drop n) (ts.drop n) := by
  induction h generalizing n with
  | first ht =>
    obtain rfl : n = 0 := Nat.le_zero.1 hn
    exact .first ht
  | paren ht hf hu h ih =>
    cases n with
    | zero => exact .paren ht hf hu h
    | succ n => exact ih (Nat.le_of_succ_le_succ hn)

theorem Leads.length_le {marks : List (String × Position)} {ts : List Token} (h : Leads marks ts) :
    marks.length ≤ ts.length := by
  induction h with
  | first => exact Nat.zero_le _
  | paren _ _ _ _ ih => exact Nat.succ_le_succ ih

end Conversion

namespace Arithmetic

open Conversion

section
variable (row : Int) (line : String)

mutual

/-- The marks of the parentheses that an expression begins with. -/
def Bare.marks (column : Int) : Bare → List (String × Position)
  | .number .. | .name .. | .unary .. => []
  | .binary left .. => left.marks column

/-- The marks of the parentheses that an expression begins with, its own first. -/
def Operand.marks (column : Int) : Operand → List (String × Position)
  | .plain e => e.marks column
  | .enclosed left e _ =>
    ("(" ++ Text.spaces left, ⟨row, column + 1 + left⟩) :: e.marks (column + 1 + left)

end

mutual

theorem Bare.begins : ∀ (e : Bare) (column : Int),
    ∃ t ts, e.tokens row line column = t :: ts ∧ t.Begins ⟨row, column⟩
  | .number _ digits, column =>
    ⟨_, _, by rw [Bare.tokens], (Token.begins_operand row line column (Or.inl rfl) digits).1⟩
  | .name id, column =>
    ⟨_, _, by rw [Bare.tokens], (Token.begins_operand row line column (Or.inr rfl) id).1⟩
  | .unary sign _ _, column =>
    ⟨_, _, by rw [Bare.tokens], (Token.begins_unarySign row line column sign).1⟩
  | .binary left _ _ _ _ _, column => by
    obtain ⟨t, ts, hts, ht⟩ := Operand.begins left column
    exact ⟨t, _, by rw [Bare.tokens, hts, List.cons_append], ht⟩

theorem Operand.begins : ∀ (e : Operand) (column : Int),
    ∃ t ts, e.tokens row line column = t :: ts ∧ t.Begins ⟨row, column⟩
  | .plain e, column => by
    obtain ⟨t, ts, hts, ht⟩ := Bare.begins e column
    exact ⟨t, ts, by rw [Operand.tokens, hts], ht⟩
  | .enclosed _ _ _, column =>
    ⟨_, _, by rw [Operand.tokens, List.cons_append], (Token.begins_lpar row line column).1⟩

end

mutual

theorem Bare.leads : ∀ (e : Bare) (column : Int),
    Leads (e.marks row column) (e.tokens row line column)
  | .number _ digits, column => by
    rw [Bare.marks, Bare.tokens]
    exact .first (Token.begins_operand row line column (Or.inl rfl) digits).2
  | .name id, column => by
    rw [Bare.marks, Bare.tokens]
    exact .first (Token.begins_operand row line column (Or.inr rfl) id).2
  | .unary sign _ _, column => by
    rw [Bare.marks, Bare.tokens]
    exact .first (Token.begins_unarySign row line column sign).2
  | .binary left _ _ _ _ _, column => by
    rw [Bare.marks, Bare.tokens]
    exact (Operand.leads left column).append _

/-- The tokens of an expression begin with its parentheses. -/
theorem Operand.leads : ∀ (e : Operand) (column : Int),
    Leads (e.marks row column) (e.tokens row line column)
  | .plain e, column => by
    rw [Operand.marks, Operand.tokens]
    exact Bare.leads e column
  | .enclosed left e right, column => by
    obtain ⟨hlpar, hop⟩ := Token.begins_lpar row line column
    obtain ⟨t, ts, hts, ht⟩ := Bare.begins row line e (column + 1 + left)
    have hinside := Bare.leads e (column + 1 + left)
    rw [hts] at hinside
    have hleads := (Leads.paren hop hlpar.isFiller ht.isFiller hinside).append
      [Token.onRow row line (column + 1 + left + e.width + right) .operator ")"]
    rw [Token.gap_eq_spaces (n := left) rfl ht.start rfl, ht.start] at hleads
    rw [Operand.marks, Operand.tokens, hts]
    exact hleads

end

end

end Arithmetic

namespace Conversion

open Scan Markup Arithmetic

/-! ## Before and after an expression -/

/-- What a parenthesis kept aside tells of the source. -/
def Deferred.mark (d : Deferred) : String × Position := (d.text, d.start)

/-- How deep in the tree the node is that took a parenthesis. -/
def Deferred.depth (d : Deferred) : Nat := d.owner.steps.length

/-- The cursor is in the tokens of an expression, after the parentheses `ds` among the
    first ones, which nodes above `depth` keep aside on top of `base`. -/
structure Ready (marks : List (String × Position)) (tokens after : List Token)
    (base : List Deferred) (depth : Nat) (ds : List Deferred) (c : Cursor) : Prop where
  rest : c.rest = tokens.drop ds.length ++ after
  deferred : c.deferred = ds.reverse ++ base
  marked : ds.map Deferred.mark <+: marks
  owners : ∀ d ∈ ds, d.depth < depth

/-- Without parentheses at its start, an expression is before the cursor as a whole. -/
theorem Ready.rest_of_nil {tokens after : List Token} {base ds : List Deferred} {depth : Nat}
    {c : Cursor} (h : Ready [] tokens after base depth ds c) :
    c.rest = tokens ++ after ∧ c.deferred = base := by
  obtain ⟨hrest, hdeferred, hmarked, -⟩ := h
  obtain rfl : ds = [] := by simpa using hmarked
  exact ⟨hrest, hdeferred⟩

theorem Leads.length_le_of_marked {marks : List (String × Position)} {ts : List Token}
    (h : Leads marks ts) {ds : List Deferred} (hds : ds.map Deferred.mark <+: marks) :
    ds.length ≤ ts.length := by
  have hlength := hds.length_le
  rw [List.length_map] at hlength
  exact Nat.le_trans hlength h.length_le

/-- Inside parentheses of which the first one is kept aside, an expression has that one below
    its own, and the last one after it. -/
theorem Ready.inside {mark : String × Position} {marks : List (String × Position)}
    {lpar rpar : Token} {tokens after : List Token} {base ds : List Deferred} {depth : Nat}
    {c : Cursor} (hleads : Leads marks tokens)
    (h : Ready (mark :: marks) (lpar :: tokens ++ [rpar]) after base depth ds c) (hne : ds ≠ []) :
    ∃ d ds', ds = d :: ds' ∧ d.mark = mark ∧
      Ready marks tokens (rpar :: after) (d :: base) depth ds' c := by
  obtain ⟨d, ds', rfl⟩ := List.exists_cons_of_ne_nil hne
  obtain ⟨hrest, hdeferred, hmarked, howners⟩ := h
  rw [List.map_cons, List.cons_prefix_cons] at hmarked
  have hlength := hleads.length_le_of_marked hmarked.2
  refine ⟨d, ds', rfl, hmarked.1, ?_, by simp [hdeferred], hmarked.2, fun d' hd =>
    howners d' (by simp [hd])⟩
  rw [hrest, List.length_cons, List.cons_append, List.drop_succ_cons,
    List.drop_append_of_le_length hlength, List.append_assoc]
  rfl

/-- An expression that begins another one has the rest of that one after it. -/
theorem Ready.first {marks : List (String × Position)} {tokens more after : List Token}
    {base ds : List Deferred} {depth : Nat} {c : Cursor} (hleads : Leads marks tokens)
    (h : Ready marks (tokens ++ more) after base depth ds c) :
    Ready marks tokens (more ++ after) base depth ds c := by
  obtain ⟨hrest, hdeferred, hmarked, howners⟩ := h
  refine ⟨?_, hdeferred, hmarked, howners⟩
  rw [hrest, List.drop_append_of_le_length (hleads.length_le_of_marked hmarked), List.append_assoc]

/-- If a closing parenthesis comes next, it is not for an expression that starts at
    `column` or later, and no node at `depth` or below has taken its partner. -/
def Outside (column : Int) (depth : Nat) (base : List Deferred) (after : List Token) : Prop :=
  ∃ t ts, after = t :: ts ∧ t.isFiller = false ∧
    (t.isOp .rpar = true → ∀ d ∈ base.head?, d.start.column < column ∧ d.depth < depth)

theorem Outside.mono {column column' : Int} {depth depth' : Nat} {base : List Deferred}
    {after : List Token} (h : Outside column depth base after) (hc : column ≤ column')
    (hd : depth ≤ depth') : Outside column' depth' base after := by
  obtain ⟨t, ts, rfl, hf, hclose⟩ := h
  refine ⟨t, ts, rfl, hf, fun ht d hmem => ?_⟩
  obtain ⟨hcolumn, hdepth⟩ := hclose ht d hmem
  exact ⟨by omega, by omega⟩

/-- The cursor is right after an expression that ends at `stop`. -/
structure Passed (after : List Token) (base : List Deferred) (stop : Position) (c : Cursor) :
    Prop where
  rest : c.rest = after
  deferred : c.deferred = base
  current : ∃ a, c.current = some a ∧ a.stop = stop

/-! ## Single steps -/

section
variable {c : Cursor} {t u : Token} {ts : List Token} {left : String}

/-- One token between others that are no line breaks or comments. -/
theorem enclosed_single (before after : Bool) (hr : c.rest = t :: u :: ts)
    (ht : t.isFiller = false) (hu : u.isFiller = false)
    (hleft : gapBeforeIf before (c.after t (u :: ts)) = .ok left (c.after t (u :: ts))) :
    enclosed before after c =
      .ok (left ++ t.text ++ if after then t.gap u else "") (c.after t (u :: ts)) := by
  have hmore : enclosedFrom none true true (u :: ts) (c.after t (u :: ts)) =
      .ok ("", true) (c.after t (u :: ts)) := by
    rw [enclosedFrom, if_neg (by simp [hu]), if_pos rfl]
    rfl
  have hfrom : enclosedFrom none false before (t :: u :: ts) c =
      .ok (left ++ t.text, true) (c.after t (u :: ts)) := by
    rw [enclosedFrom, if_neg (by simp [ht]), if_neg (by simp), if_neg (by simp)]
    refine bind_ok.2 ⟨t, _, take_ok.2 ⟨u :: ts, hr, rfl⟩, bind_ok.2 ⟨left, _, hleft, ?_⟩⟩
    exact bind_ok.2 ⟨_, _, hmore, by simp [pure_ok]⟩
  simp only [enclosed, enclosedOf, bind_ok]
  refine ⟨c, c, rfl, (left ++ t.text, true), c.after t (u :: ts), by rw [hr]; exact hfrom, ?_⟩
  cases after with
  | false => simp [pure_ok]
  | true =>
    exact bind_ok.2 ⟨_, _, gapAfter_ok.2 ⟨⟨t, u, rfl, rfl, rfl⟩, rfl⟩, pure_ok.2 ⟨rfl, rfl⟩⟩

/-- The gap before a token that was just taken. -/
theorem gapBeforeIf_true {a : Token} (ha : c.current = some a) :
    gapBeforeIf true (c.after t ts) = .ok (a.gap t) (c.after t ts) :=
  gapBefore_ok.2 ⟨⟨a, t, ha, rfl, rfl⟩, rfl⟩

/-- Nothing stands between a sign and an operand. -/
theorem betweenStatements_none {a : Token} (ha : c.current = some a) (hr : c.rest = t :: ts)
    (ht : t.isBetweenStatements = false) : betweenStatements true c = .ok (a.gap t) c := by
  have habsorb : absorb Token.isBetweenStatements c = .ok "" c := by
    refine bind_ok.2 ⟨c, c, rfl, ?_⟩
    rw [hr, absorbFrom, if_neg (by simp [ht])]
    rfl
  have hgap : gapAfter c = .ok (a.gap t) c :=
    gapAfter_ok.2 ⟨⟨a, t, ha, by simp [hr], rfl⟩, rfl⟩
  exact bind_ok.2 ⟨"", c, habsorb, bind_ok.2 ⟨a.gap t, c, hgap,
    pure_ok.2 ⟨String.empty_append, rfl⟩⟩⟩

end

/-! ## Opening -/

section
variable {r : NodeRef} {place : Position} {c : Cursor} {t u : Token} {ts : List Token}

/-- A parenthesis before the recorded place of a node is taken. -/
theorem openParenthesis_take (hplace : r.start? = some place) (hr : c.rest = t :: u :: ts)
    (ht : t.isOp .lpar = true) (hf : t.isFiller = false) (hu : u.isFiller = false)
    (hlt : t.start < place) :
    ∃ c', openParenthesis r c = .ok () c' ∧ c'.rest = u :: ts ∧
      c'.deferred = ⟨t.text ++ t.gap u, u.start, r.path⟩ :: c.deferred := by
  have hpeek : peek c = .ok t c := peek_ok.2 ⟨by simp [hr], rfl⟩
  have hleft : gapBeforeIf false (c.after t (u :: ts)) = .ok "" (c.after t (u :: ts)) := rfl
  have htake := enclosed_single false true hr hf hu hleft
  rw [String.empty_append, if_pos rfl] at htake
  have hnext : peek (c.after t (u :: ts)) = .ok u (c.after t (u :: ts)) := peek_ok.2 ⟨rfl, rfl⟩
  refine ⟨{ (c.after t (u :: ts)).remark .deferred with
    deferred := ⟨t.text ++ t.gap u, u.start, r.path⟩ :: c.deferred }, ?_, rfl, rfl⟩
  refine bind_ok.2 ⟨t, c, hpeek, ?_⟩
  rw [if_pos ht]
  refine bind_ok.2 ⟨place, c, orFail_ok.2 ⟨hplace, rfl⟩, ?_⟩
  rw [if_pos hlt]
  exact bind_ok.2 ⟨_, _, htake, bind_ok.2 ⟨u, _, hnext, modify_ok.2 rfl⟩⟩

/-- Any other token stays where it is. -/
theorem openParenthesis_pass (hplace : r.start? = some place) (hr : c.rest = t :: ts)
    (h : t.isOp .lpar = true → ¬ t.start < place) : openParenthesis r c = .ok () c := by
  refine bind_ok.2 ⟨t, c, peek_ok.2 ⟨by simp [hr], rfl⟩, ?_⟩
  by_cases ht : t.isOp .lpar = true
  · rw [if_pos ht]
    exact bind_ok.2 ⟨place, c, orFail_ok.2 ⟨hplace, rfl⟩, by rw [if_neg (h ht)]; rfl⟩
  · rw [if_neg ht]
    rfl

end

/-- On the way into a node, the next parenthesis is taken, or it does not stand before the
    recorded place of the node. -/
theorem openParenthesis_cases {r : NodeRef} {place : Position} {marks : List (String × Position)}
    {tokens after : List Token} {base ds : List Deferred} {c : Cursor}
    (hplace : r.start? = some place) (hleads : Leads marks tokens)
    (h : Ready marks tokens after base r.path.steps.length ds c) :
    ∃ ds' c', openParenthesis r c = .ok () c' ∧
      Ready marks tokens after base (r.path.steps.length + 1) ds' c' ∧
      (ds' = ds ∧
          (∀ t ∈ (tokens.drop ds.length).head?, t.isOp .lpar = true → ¬ t.start < place) ∨
        ∃ d, ds' = ds ++ [d] ∧ d.owner = r.path) := by
  obtain ⟨hrest, hdeferred, ⟨more, hmore⟩, howners⟩ := h
  have hsame : Ready marks tokens after base (r.path.steps.length + 1) ds c :=
    ⟨hrest, hdeferred, ⟨more, hmore⟩, fun d hd => Nat.lt_succ_of_lt (howners d hd)⟩
  have hdrop := hleads.drop (n := ds.length) (by simp [← hmore])
  rw [show marks.drop ds.length = more by simp [← hmore]] at hdrop
  generalize htokens : tokens.drop ds.length = ts at hdrop hrest
  -- what is next stays where it is if it does not stand before the place
  have hstay : ∀ {t us}, ts = t :: us → (t.isOp .lpar = true → ¬ t.start < place) →
      openParenthesis r c = .ok () c ∧
        ∀ v ∈ ts.head?, v.isOp .lpar = true → ¬ v.start < place := by
    rintro t us rfl hnot
    refine ⟨openParenthesis_pass hplace hrest hnot, fun v hv => ?_⟩
    obtain rfl : t = v := by simpa using hv
    exact hnot
  cases hdrop with
  | @first t us ht =>
    obtain ⟨hopen, hnot⟩ := hstay rfl fun hlpar => by simp [ht] at hlpar
    exact ⟨ds, c, hopen, hsame, Or.inl ⟨rfl, hnot⟩⟩
  | @paren t u us marks' ht hf hu hl =>
    by_cases hlt : t.start < place
    · obtain ⟨c', hopen, hrest', hdeferred'⟩ := openParenthesis_take hplace hrest ht hf hu hlt
      refine ⟨ds ++ [⟨t.text ++ t.gap u, u.start, r.path⟩], c', hopen, ?_, Or.inr ⟨_, rfl, rfl⟩⟩
      refine ⟨?_, by simp [hdeferred', hdeferred], ⟨marks', ?_⟩, ?_⟩
      · have hnext := congrArg (List.drop 1) htokens
        rw [List.drop_drop] at hnext
        simp [hrest', hnext]
      · simp [← hmore, Deferred.mark]
      · intro d hd
        rcases List.mem_append.1 hd with hd | hd
        · exact Nat.lt_succ_of_lt (howners d hd)
        · rw [List.mem_singleton.1 hd]
          exact Nat.lt_succ_self _
    · obtain ⟨hopen, hnot⟩ := hstay rfl fun _ => hlt
      exact ⟨ds, c, hopen, hsame, Or.inl ⟨rfl, hnot⟩⟩

/-- If nothing is kept aside on the way into a node, there is no parenthesis before its
    recorded place. -/
theorem openParenthesis_ready {r : NodeRef} {place : Position} {marks : List (String × Position)}
    {tokens after : List Token} {base ds : List Deferred} {c : Cursor}
    (hplace : r.start? = some place) (hleads : Leads marks tokens)
    (h : Ready marks tokens after base r.path.steps.length ds c) :
    ∃ ds' c', openParenthesis r c = .ok () c' ∧
      Ready marks tokens after base (r.path.steps.length + 1) ds' c' ∧
      (ds' = [] → ∀ t ∈ tokens.head?, t.isOp .lpar = true → ¬ t.start < place) := by
  obtain ⟨ds', c', hopen, hready, hds⟩ := openParenthesis_cases hplace hleads h
  refine ⟨ds', c', hopen, hready, ?_⟩
  rintro rfl
  rcases hds with ⟨rfl, hnot⟩ | ⟨d, hd, -⟩
  · exact hnot
  · simp at hd

/-! ## Closing -/

section
variable {r : NodeRef} {c : Cursor} {t : Token} {ts : List Token}

/-- A closing parenthesis outside is left alone. -/
theorem closesHere_outside {row column : Int}
    (h : Outside column r.path.steps.length c.deferred c.rest) :
    closesHere r (.ok ⟨row, column⟩) c = .ok none c := by
  obtain ⟨t, ts, hr, hf, hclose⟩ := h
  have hpeek : peekPastFiller c = .ok t c := peekPastFiller_ok.2 ⟨by simp [hr, hf], rfl⟩
  refine bind_ok.2 ⟨t, c, hpeek, bind_ok.2 ⟨c, c, rfl, ?_⟩⟩
  cases ht : t.isOp .rpar with
  | false => rfl
  | true =>
    cases hd : c.deferred with
    | nil => rfl
    | cons d ds =>
      obtain ⟨hcolumn, hdepth⟩ := hclose ht d (by simp [hd])
      simp only
      rw [if_neg]
      · rfl
      · rintro (hstart | howner)
        · simp [hstart] at hcolumn
        · simp [Deferred.depth, howner] at hdepth

/-- A closing parenthesis goes to the expression that starts where its partner says, or that
    has taken its partner. -/
theorem closesHere_partner {p : Position} {d : Deferred} {ds : List Deferred}
    (hr : c.rest = t :: ts) (hf : t.isFiller = false) (ht : t.isOp .rpar = true)
    (hd : c.deferred = d :: ds) (hpartner : d.start = p ∨ d.owner = r.path) :
    closesHere r (.ok p) c = .ok (some d) { c with deferred := ds } := by
  have hpeek : peekPastFiller c = .ok t c := peekPastFiller_ok.2 ⟨by simp [hr, hf], rfl⟩
  refine bind_ok.2 ⟨t, c, hpeek, bind_ok.2 ⟨c, c, rfl, ?_⟩⟩
  simp only [ht, hd]
  rw [if_pos hpartner]
  exact bind_ok.2 ⟨⟨⟩, _, set_ok.2 rfl, pure_ok.2 ⟨rfl, rfl⟩⟩

end

section
variable {r : NodeRef} {start : Except Cause Position} {rule : Into} {c c₁ c₂ : Cursor}
variable {m : Markup} (parent : List Markup)

/-- An expression after which nothing closes. -/
theorem enclose_open (hopen : openParenthesis r c = .ok () c₁) (hrule : rule [] c₁ = .ok [m] c₂)
    (hclose : closesHere r start c₂ = .ok none c₂) :
    enclose r start rule parent c = .ok (parent ++ [m]) c₂ :=
  bind_ok.2 ⟨(), c₁, hopen, bind_ok.2 ⟨[m], c₂, hrule, bind_ok.2 ⟨none, c₂, hclose, rfl⟩⟩⟩

/-- An expression that its parentheses close after. -/
theorem enclose_closed {p : Position} {a rpar t : Token} {ts : List Token} {d : Deferred}
    {base : List Deferred} (hopen : openParenthesis r c = .ok () c₁)
    (hrule : rule [] c₁ = .ok [m] c₂)
    (hrest : c₂.rest = rpar :: t :: ts) (hfiller : rpar.isFiller = false)
    (hrpar : rpar.isOp .rpar = true) (ht : t.isFiller = false) (hcurrent : c₂.current = some a)
    (hdeferred : c₂.deferred = d :: base) (hpartner : d.start = p ∨ d.owner = r.path) :
    enclose r (.ok p) rule parent c
      = .ok (parent ++ [text d.text, m, text (a.gap rpar ++ rpar.text)])
        (Cursor.after { c₂ with deferred := base } rpar (t :: ts)) := by
  have hclose := closesHere_partner hrest hfiller hrpar hdeferred hpartner
  have hlast := enclosed_single true false (c := { c₂ with deferred := base }) hrest hfiller ht
    (gapBeforeIf_true hcurrent)
  refine bind_ok.2 ⟨(), c₁, hopen, bind_ok.2 ⟨[m], c₂, hrule, bind_ok.2 ⟨some d, _, hclose,
    bind_ok.2 ⟨_, _, hlast, pure_ok.2 ⟨?_, rfl⟩⟩⟩⟩⟩
  simp [Move.parent_run_single]

end

/-- The rule of an expression goes through its tokens and gives its text. -/
def Follows (rule : Into) (text : String) (marks : List (String × Position))
    (tokens : List Token) (column : Int) (depth : Nat) (stop : Position) : Prop :=
  ∀ c ds after base, Ready marks tokens after base (depth + 1) ds c →
    Outside (column + 1) (depth + 1) base after →
    ∃ m c', rule [] c = .ok [m] c' ∧ m.content = text ∧ Passed after base stop c'

end Conversion

/-! ## Expressions -/

namespace Arithmetic

open Conversion Conversion.Scan Markup

section
variable (lines : List String) (row : Int) (line : String)

/-- The tree of an expression without parentheses is a node that starts where the
    expression does and has a rule that gives its text. -/
def Bare.Converts (e : Bare) : Prop :=
  ∀ (path : Path) (column : Int), ∃ ref fields rule,
    toPart lines path (e.tree row column) = .node ref fields (.ok ⟨row, column⟩)
      (fun parent => within ref (enclose ref (.ok ⟨row, column⟩) rule parent)) ∧
    ref.path = path ∧ ref.start? = some ⟨row, e.place column⟩ ∧
    Follows rule e.text (e.marks row column) (e.tokens row line column) column path.steps.length
      ⟨row, column + e.width⟩

/-- The tree of an expression starts inside its parentheses, and its markup gives the text
    with them. -/
def Operand.Converts (e : Operand) : Prop :=
  ∀ (path : Path) (column : Int),
    (toPart lines path (e.tree row column)).start = .ok ⟨row, e.inner column⟩ ∧
    ∀ c ds after base,
      Ready (e.marks row column) (e.tokens row line column) after base path.steps.length ds c →
      Outside column path.steps.length base after →
      ∃ ms c', (∀ parent, (toPart lines path (e.tree row column)).addTo parent c
          = .ok (parent ++ ms) c') ∧
        contents ms = e.text ∧ Passed after base ⟨row, column + e.width⟩ c'

end

section
variable {lines : List String} {row : Int} {line : String}

/-- An expression without parentheses. -/
theorem plain_converts {e : Bare} (he : e.Converts lines row line) :
    (Operand.plain e).Converts lines row line := by
  intro path column
  obtain ⟨ref, fields, rule, hpart, rfl, hplace, hrule⟩ := he path column
  rw [Operand.tree, hpart]
  refine ⟨rfl, fun c ds after base hready hout => ?_⟩
  rw [Operand.marks, Operand.tokens] at hready
  obtain ⟨ds', c₁, hopen, hready, -⟩ :=
    openParenthesis_ready hplace (Bare.leads row line e column) hready
  obtain ⟨m, c₂, hm, htext, hpassed⟩ :=
    hrule c₁ ds' after base hready (hout.mono (by omega) (by omega))
  have hclose : closesHere ref (.ok ⟨row, column⟩) c₂ = .ok none c₂ :=
    closesHere_outside (by rwa [hpassed.deferred, hpassed.rest])
  exact ⟨[m], c₂, fun parent => within_ok.2 (enclose_open parent hopen hm hclose),
    by simp [htext, Operand.text], hpassed⟩

/-- Its own parenthesis is the first that is kept aside of an expression. -/
theorem ready_inside {left right : Nat} {e : Bare} {column : Int} {after : List Token}
    {base ds : List Deferred} {depth : Nat} {c : Cursor}
    (h : Ready ((Operand.enclosed left e right).marks row column)
      ((Operand.enclosed left e right).tokens row line column) after base depth ds c)
    (hne : ds ≠ []) : ∃ d ds', d.mark = ("(" ++ Text.spaces left, ⟨row, column + 1 + left⟩) ∧
      d.depth < depth ∧
      Ready (e.marks row (column + 1 + left)) (e.tokens row line (column + 1 + left))
        (Token.onRow row line (column + 1 + left + e.width + right) .operator ")" :: after)
        (d :: base) depth ds' c := by
  have howners := h.owners
  rw [Operand.marks, Operand.tokens] at h
  obtain ⟨d, ds', rfl, hown, hready⟩ := h.inside (Bare.leads row line e _) hne
  exact ⟨d, ds', hown, howners d (by simp), hready⟩

/-- An expression in parentheses. -/
theorem enclosed_converts {left right : Nat} {e : Bare} (he : e.Converts lines row line) :
    (Operand.enclosed left e right).Converts lines row line := by
  intro path column
  obtain ⟨ref, fields, rule, hpart, rfl, hplace, hrule⟩ := he path (column + 1 + left)
  rw [Operand.tree, hpart]
  refine ⟨rfl, fun c ds after base hready hout => ?_⟩
  obtain ⟨ds', c₁, hopen, hready, htaken⟩ :=
    openParenthesis_ready hplace (Operand.leads row line (.enclosed left e right) column) hready
  have hne : ds' ≠ [] := by
    intro hnil
    have hle := e.le_place (column + 1 + left)
    have hlpar := Token.begins_lpar row line column
    refine htaken hnil _ (by rw [Operand.tokens]; rfl) hlpar.2 ?_
    rw [hlpar.1.start]
    exact Or.inr ⟨rfl, by simp only; omega⟩
  obtain ⟨d, ds'', hown, hdepth, hready⟩ := ready_inside hready hne
  have hstart : d.start = ⟨row, column + 1 + left⟩ := congrArg Prod.snd hown
  have hopening : d.text = "(" ++ Text.spaces left := congrArg Prod.fst hown
  have hrpar := Token.isOp_rpar row line (column + 1 + left + e.width + right)
  generalize hr : Token.onRow row line (column + 1 + left + e.width + right) .operator ")" = rpar
    at hready hrpar
  have hinside : Outside (column + 1 + left + 1) (ref.path.steps.length + 1) (d :: base)
      (rpar :: after) := by
    refine ⟨rpar, after, rfl, hrpar.1, fun _ d' hd => ?_⟩
    obtain rfl : d = d' := by simpa using hd
    rw [hstart]
    exact ⟨by simp only; omega, hdepth⟩
  obtain ⟨m, c₂, hm, htext, hrest, hdeferred, a, hcurrent, hstop⟩ :=
    hrule c₁ ds'' _ _ hready hinside
  obtain ⟨t, ts, rfl, hf, -⟩ := hout
  have hwrite (parent : List Markup) := enclose_closed parent hopen hm hrest hrpar.1 hrpar.2 hf
    hcurrent hdeferred (Or.inl hstart)
  have hgap : a.gap rpar = Text.spaces right :=
    Token.gap_eq_spaces hstop (by rw [← hr]; rfl) rfl
  refine ⟨_, _, fun parent => within_ok.2 (hwrite parent), ?_, ?_⟩
  · have hclosing : rpar.text = ")" := by rw [← hr]; rfl
    simp [hopening, htext, hgap, hclosing, Operand.text, String.append_assoc]
  · have hend : rpar.stop = ⟨row, column + 1 + left + e.width + right + 1⟩ := by rw [← hr]; rfl
    refine ⟨rfl, rfl, rpar, rfl, ?_⟩
    rw [hend, Operand.width_enclosed]
    congr 1
    omega

/-- Where a node of some other class than a binary operation starts, on a row of ASCII. -/
theorem startOfNode_recorded (hline : Text.signedGet? lines (row - 1) = some line)
    (hascii : Text.isOneByte line = true) {r : NodeRef} {fields : List (String × Part)}
    {column : Int} (hcls : r.cls ∈ ["Num", "Name", "UnaryOp"])
    (hplace : r.start? = some ⟨row, column⟩) :
    startOfNode lines r fields = .ok ⟨row, column⟩ := by
  have hrecorded : recordedStart lines r = .ok ⟨row, column⟩ := by
    simp [recordedStart, hplace, hline, Text.characterColumn?, hascii]
  simp only [List.mem_cons, List.not_mem_nil, or_false] at hcls
  rcases hcls with hcls | hcls | hcls <;> simp [startOfNode, hcls, hrecorded]

/-- A node of a class of expressions is converted by the rule of the class. -/
theorem toPart_expression {path : Path} {cls : String} {places : List Int}
    {fields : List (String × Tree)} {start : Except Cause Position} {rule : Into}
    (hstart : startOfNode lines ⟨path, cls, places⟩ (toFields lines path fields) = start)
    (hrule : expressionRule? ⟨⟨path, cls, places⟩, toFields lines path fields⟩ = some rule) :
    toPart lines path (.node cls places fields) =
      .node ⟨path, cls, places⟩ (toFields lines path fields) start
        (fun parent => within ⟨path, cls, places⟩
          (enclose ⟨path, cls, places⟩ start rule parent)) := by
  have hadd : addNode start ⟨⟨path, cls, places⟩, toFields lines path fields⟩
      = fun parent => within ⟨path, cls, places⟩ (enclose ⟨path, cls, places⟩ start rule parent) := by
    funext parent
    simp only [addNode, hrule]
  rw [toPart, hstart, hadd]

theorem number_converts (hline : Text.signedGet? lines (row - 1) = some line)
    (hascii : Text.isOneByte line = true) (value : Scalar) (digits : String) :
    (Bare.number value digits).Converts lines row line := by
  intro path column
  rw [Bare.tree]
  refine ⟨_, _, _, toPart_expression (startOfNode_recorded hline hascii (by simp) rfl) rfl, rfl,
    rfl, fun c ds after base hready _ => ?_⟩
  rw [Bare.marks, Bare.tokens] at hready
  obtain ⟨hrest, hdeferred⟩ := hready.rest_of_nil
  have htake : expectShown (fun t => t.kind = .number) c =
      .ok (Token.onRow row line column .number digits) (c.after _ after) :=
    expectShown_ok.2 ⟨take_ok.2 ⟨after, hrest, rfl⟩, rfl⟩
  exact ⟨labelled "Num" digits, _, bind_ok.2 ⟨_, _, htake, rfl⟩, by simp [Bare.text], rfl,
    hdeferred, _, rfl, rfl⟩

theorem caption_str (s : String) (c : Cursor) :
    (Part.leaf (.str s)).caption c = .ok (caption s) c := by
  by_cases hs : s = ""
  · subst hs
    rfl
  · have hpresent : (Part.leaf (.str s)).isPresent = true := by
      simpa [Part.isPresent, Scalar.isEmpty] using hs
    rw [Part.caption, if_pos hpresent, caption, if_neg hs]
    rfl

/-- A name is written from the tree, which is remarked upon. -/
theorem nameRule_ok {ref : NodeRef} {path : Path} (id ctx : String) {c : Cursor} {t : Token}
    {ts : List Token} (hr : c.rest = t :: ts) (ht : t.kind = .name) :
    nameRule ⟨ref, toFields lines path [("id", .leaf (.str id)), ("ctx", .node ctx [] [])]⟩ [] c =
      .ok [element "Name" [("name", id), ("ctx", ctx)] (caption id)]
        ((c.after t ts).remark (.replaced t.text (contents (caption id)))) := by
  have htake : expectShown (fun t => t.kind = .name) c = .ok t (c.after t ts) :=
    expectShown_ok.2 ⟨take_ok.2 ⟨ts, hr, rfl⟩, by simp [ht]⟩
  exact bind_ok.2 ⟨_, _, htake, bind_ok.2 ⟨.leaf (.str id), _, Site.field_ok.2 ⟨rfl, rfl⟩,
    bind_ok.2 ⟨_, _, caption_str id _, bind_ok.2 ⟨(), _, inPlaceOf_ok.2 rfl,
      bind_ok.2 ⟨_, _, Site.fieldCls_ok.2 ⟨⟨_, rfl, rfl⟩, rfl⟩, rfl⟩⟩⟩⟩⟩

theorem name_converts (hline : Text.signedGet? lines (row - 1) = some line)
    (hascii : Text.isOneByte line = true) (id : String) :
    (Bare.name id).Converts lines row line := by
  intro path column
  rw [Bare.tree]
  refine ⟨_, _, _, toPart_expression (startOfNode_recorded hline hascii (by simp) rfl) rfl, rfl,
    rfl, fun c ds after base hready _ => ?_⟩
  rw [Bare.marks, Bare.tokens] at hready
  obtain ⟨hrest, hdeferred⟩ := hready.rest_of_nil
  exact ⟨_, _, nameRule_ok id "Load" hrest rfl, by simp [Bare.text], rfl, hdeferred, _, rfl, rfl⟩

theorem unary_converts (hline : Text.signedGet? lines (row - 1) = some line)
    (hascii : Text.isOneByte line = true) (sign : UnarySign) (blanks : Nat) {operand : Operand}
    (ho : operand.Converts lines row line) :
    (Bare.unary sign blanks operand).Converts lines row line := by
  intro path column
  obtain ⟨-, hwrite⟩ := ho (path.field "operand") (column + sign.text.length + blanks)
  rw [Bare.tree]
  refine ⟨_, _, _, toPart_expression (startOfNode_recorded hline hascii (by simp) rfl) rfl, rfl,
    rfl, fun c ds after base hready hout => ?_⟩
  rw [Bare.marks, Bare.tokens] at hready
  obtain ⟨hrest, hdeferred⟩ := hready.rest_of_nil
  obtain ⟨t, ts, hts, ht⟩ := operand.begins row line (column + sign.text.length + blanks)
  have htake := take_ok.2 ⟨_, hrest, rfl⟩
  generalize hc₁ : c.after (Token.onRow row line column sign.kind sign.text)
    (operand.tokens row line (column + sign.text.length + blanks) ++ after) = c₁ at htake
  have hrest₁ : c₁.rest = operand.tokens row line (column + sign.text.length + blanks) ++ after := by
    rw [← hc₁]; rfl
  have hgap : (Token.onRow row line column sign.kind sign.text).gap t = Text.spaces blanks :=
    Token.gap_eq_spaces rfl ht.start rfl
  have hbetween : betweenStatements true c₁ = .ok (Text.spaces blanks) c₁ := by
    rw [← hgap]
    exact betweenStatements_none (by rw [← hc₁]; rfl) (by rw [hrest₁, hts]; rfl) ht.inside
  have hlength := sign.length_text
  obtain ⟨ms, c₂, hms, htext, hpassed⟩ := hwrite c₁ [] after base
    ⟨hrest₁, by rw [← hc₁]; exact hdeferred, List.nil_prefix, by simp⟩
    (hout.mono (by omega) (Nat.le_refl _))
  refine ⟨_, c₂, bind_ok.2 ⟨_, _, htake, bind_ok.2 ⟨_, _, hbetween, bind_ok.2 ⟨_, _,
    Site.fieldCls_ok.2 ⟨⟨_, rfl, rfl⟩, rfl⟩, bind_ok.2 ⟨_, _, Site.addField_ok.2 ⟨_, rfl, hms _⟩,
    pure_ok.2 ⟨rfl, rfl⟩⟩⟩⟩⟩, ?_, ?_⟩
  · simp [htext, Bare.text, Token.onRow, String.append_assoc]
  · have hend : column + ((Bare.unary sign blanks operand).width : Int) =
        column + sign.text.length + blanks + operand.width := by
      rw [Bare.width_unary]
      omega
    rwa [hend]

/-- A binary operation starts where its left operand does, with the parentheses of that
    one. -/
theorem earlier_place (row column : Int) (left : Operand) (before : Nat) (sign : BinarySign)
    (after : Nat) (right : Operand) (atSign : Bool) :
    Position.earlier ⟨row, (Bare.binary left before sign after right atSign).place column⟩
      ⟨row, left.inner column⟩ = ⟨row, column⟩ := by
  have hplace : column ≤ (Bare.binary left before sign after right atSign).place column :=
    Bare.le_place column _
  cases left with
  | plain e =>
    rw [Operand.inner, Position.earlier]
    split
    · rfl
    · rename_i hnot
      have hge : ¬ column < (Bare.binary (.plain e) before sign after right atSign).place column :=
        fun hlt => hnot (Or.inr ⟨rfl, hlt⟩)
      congr 1
      omega
  | enclosed blanks e trailing =>
    have hstart : (Bare.binary (.enclosed blanks e trailing) before sign after right atSign).place
        column = column := by simp [Bare.place, Operand.isBareBinary]
    rw [hstart, Operand.inner, Position.earlier, if_neg]
    rintro (hrow | ⟨-, hlt⟩)
    · exact Int.lt_irrefl row hrow
    · have hlt : column + 1 + blanks < column := hlt
      omega

theorem binary_converts {left right : Operand} (before : Nat) (sign : BinarySign) (blanks : Nat)
    (atSign : Bool) (hl : left.Converts lines row line) (hr : right.Converts lines row line) :
    (Bare.binary left before sign blanks right atSign).Converts lines row line := by
  intro path column
  obtain ⟨hstart, hleft⟩ := hl (path.field "left") column
  obtain ⟨-, hright⟩ := hr (path.field "right")
    (column + left.width + before + sign.text.length + blanks)
  rw [Bare.tree]
  refine ⟨_, _, _, toPart_expression ?_ rfl, rfl, rfl,
    fun c ds after base hready hout => ?_⟩
  · simp [startOfNode, toFields, NodeRef.start?, Tree.startOf?, hstart, earlier_place]
  rw [Bare.marks, Bare.tokens] at hready
  have hready := hready.first (left.leads row line column)
  have hsign := Token.isOp_binarySign row line (column + left.width + before) sign
  obtain ⟨t, ts, hts, ht⟩ :=
    right.begins row line (column + left.width + before + sign.text.length + blanks)
  generalize hs : Token.onRow row line (column + left.width + before) .operator sign.text = s
    at hready hsign
  -- the left operand, before the sign
  obtain ⟨ls, c₁, hls, hltext, hrest₁, hdeferred₁, a, hcurrent, hstop⟩ :=
    hleft c ds _ base hready ⟨s, _, rfl, hsign.1, fun hrpar => by simp [hsign.2] at hrpar⟩
  -- the sign, with the gaps on both sides
  rw [hts] at hrest₁
  have hmiddle := enclosed_single true true hrest₁ hsign.1 ht.isFiller (gapBeforeIf_true hcurrent)
  have hbefore : a.gap s = Text.spaces before :=
    Token.gap_eq_spaces hstop (by rw [← hs]; rfl) rfl
  have hafter : s.gap t = Text.spaces blanks :=
    Token.gap_eq_spaces (by rw [← hs]; rfl) ht.start rfl
  -- the right operand
  have hlength := sign.length_text
  obtain ⟨rs, c₂, hrs, hrtext, hpassed⟩ := hright (c₁.after s (t :: (ts ++ after))) [] after base
    ⟨by rw [hts]; rfl, hdeferred₁, List.nil_prefix, by simp⟩
    (hout.mono (by omega) (Nat.le_refl _))
  refine ⟨_, c₂, bind_ok.2 ⟨_, _, Site.writeField_ok.2 ⟨_, rfl, hls []⟩, bind_ok.2 ⟨_, _,
    Site.field_ok.2 ⟨rfl, rfl⟩, bind_ok.2 ⟨_, _, hmiddle, bind_ok.2 ⟨sign.cls, _, rfl,
    bind_ok.2 ⟨_, _, Site.addField_ok.2 ⟨_, rfl, hrs _⟩, pure_ok.2 ⟨rfl, rfl⟩⟩⟩⟩⟩⟩, ?_, ?_⟩
  · have htext : s.text = sign.text := by rw [← hs]; rfl
    simp [hltext, hrtext, hbefore, hafter, htext, Bare.text, String.append_assoc]
  · have hend : column + ((Bare.binary left before sign blanks right atSign).width : Int) =
        column + left.width + before + sign.text.length + blanks + right.width := by
      rw [Bare.width_binary]
      omega
    rwa [hend]

mutual

theorem Bare.converts (hline : Text.signedGet? lines (row - 1) = some line)
    (hascii : Text.isOneByte line = true) : ∀ e : Bare, e.Converts lines row line
  | .number value digits => number_converts hline hascii value digits
  | .name id => name_converts hline hascii id
  | .unary sign blanks operand =>
    unary_converts hline hascii sign blanks (Operand.converts hline hascii operand)
  | .binary left before sign after right atSign =>
    binary_converts before sign after atSign (Operand.converts hline hascii left)
      (Operand.converts hline hascii right)

/-- **Every parenthesis goes to the expression that it encloses**, however many of them
    are kept aside already. -/
theorem Operand.converts (hline : Text.signedGet? lines (row - 1) = some line)
    (hascii : Text.isOneByte line = true) : ∀ e : Operand, e.Converts lines row line
  | .plain e => plain_converts (Bare.converts hline hascii e)
  | .enclosed _ e _ => enclosed_converts (Bare.converts hline hascii e)

end

/-- **Arithmetic on one row of ASCII is written out with all its parentheses.**  If nothing
    is kept aside before, the conversion succeeds, takes exactly the tokens of the
    expression, keeps nothing aside after, and gives the text of the expression. -/
theorem write_arithmetic (hline : Text.signedGet? lines (row - 1) = some line)
    (hascii : Text.isOneByte line = true) (e : Operand) (path : Path) (column : Int) {c : Cursor}
    {newline : Token} {rest : List Token} (hnewline : newline.kind = .newline)
    (hrest : c.rest = e.tokens row line column ++ newline :: rest) (hdeferred : c.deferred = []) :
    ∃ ms c', (toPart lines path (e.tree row column)).write c = .ok ms c' ∧
      c'.rest = newline :: rest ∧ c'.deferred = [] ∧ contents ms = e.text := by
  obtain ⟨-, hwrite⟩ := Operand.converts hline hascii e path column
  have hout : Outside column path.steps.length [] (newline :: rest) := by
    refine ⟨newline, rest, rfl, ?_, by simp⟩
    simp [Token.isFiller, hnewline]
  obtain ⟨ms, c', hms, htext, hpassed⟩ := hwrite c [] (newline :: rest) []
    ⟨hrest, hdeferred, List.nil_prefix, by simp⟩ hout
  exact ⟨ms, c', hms [], hpassed.rest, hpassed.deferred, htext⟩

end

/-- `( (a)+ b  *c --( 1))`: the second parenthesis is taken on the way into the product,
    which is recorded at its sign, and belongs to a name two levels below. -/
def nestedSample : Operand :=
  let sum : Bare := .binary (.enclosed 0 (.name "a") 0) 0 .add 1 (.plain (.name "b")) false
  let product : Bare := .binary (.plain sum) 2 .mult 0 (.plain (.name "c")) true
  let opposite : Bare := .unary .minus 0 (.enclosed 1 (.number (.int 1) "1") 0)
  .enclosed 1 (.binary (.plain product) 1 .sub 0 (.plain opposite) true) 0

def nestedLine : String :=
  "( (a)+ b  *c --( 1))\n"

def nestedCursor : Cursor where
  rest := nestedSample.tokens 1 nestedLine 0 ++ [Token.onRow 1 nestedLine 20 .newline "\n"]
  current := none
  previous := none
  deferred := []
  remarks := []

theorem write_nestedSample :
    Text.signedGet? [nestedLine] (1 - 1) = some nestedLine ∧ Text.isOneByte nestedLine = true ∧
    nestedCursor.deferred = [] ∧
    ∃ ms c', (toPart [nestedLine] .root (nestedSample.tree 1 0)).write nestedCursor = .ok ms c' ∧
      c'.rest = [Token.onRow 1 nestedLine 20 .newline "\n"] ∧ c'.deferred = [] ∧
      contents ms = "( (a)+ b  *c --( 1))" := by
  have hline : Text.signedGet? [nestedLine] (1 - 1) = some nestedLine := rfl
  have hascii : Text.isOneByte nestedLine = true := by decide
  obtain ⟨ms, c', hwrite, hrest, hdeferred, htext⟩ :=
    write_arithmetic hline hascii nestedSample .root 0 rfl rfl (c := nestedCursor) rfl
  exact ⟨hline, hascii, rfl, ms, c', hwrite, hrest, hdeferred, htext.trans (by decide)⟩

end Arithmetic

end SourceScribe
