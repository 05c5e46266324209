/-
  Which part of a chain of attributes a parenthesis encloses.

  All nodes of a chain are recorded at its name, so on the way down every node takes one of
  the parentheses in front, from the outermost on.  A pair closes after a part that starts
  right behind its opening parenthesis, which only the innermost pair can tell, or after
  the node that took it.  The others do not find their part: the closing parenthesis is
  taken for the dot, and the dot for a name.

  So a chain is written out exactly if it is settled (`Chain.passes`, `Chain.breaks`): under a
  part without parentheses of its own there is at most one pair.
-/
import SourceScribe.Proofs.Conversion.Parentheses
import SourceScribe.Proofs.Tree.Chain

namespace SourceScribe

open Conversion

/-! ## Leading parentheses -/

theorem Conversion.Leads.eq_nil {marks : List (String × Position)} {ts : List Token}
    (h : Leads marks ts) (hnot : ∀ t ∈ ts.head?, t.isOp .lpar = false) : marks = [] := by
  cases h with
  | first => rfl
  | paren ht =>
    rw [hnot _ rfl] at ht
    cases ht

section
variable (row : Int) (line : String)

/-- The mark of a pair that starts at `column`, if there is one. -/
def Pair.marks (column : Int) : Option Pair → List (String × Position)
  | none => []
  | some p => [("(" ++ Text.spaces p.left, ⟨row, column + 1 + p.left⟩)]

theorem Pair.begins (column : Int) (width : Nat) (pair : Option Pair) {t : Token} {ts : List Token}
    (ht : t.Begins ⟨row, column + Pair.lead pair⟩) :
    ∃ u us, Pair.tokens row line column width pair (t :: ts) = u :: us ∧
      u.Begins ⟨row, column⟩ := by
  cases pair with
  | none => exact ⟨t, ts, rfl, by simpa [Pair.lead] using ht⟩
  | some p => exact ⟨_, _, rfl, (Token.begins_lpar row line column).1⟩

/-- Tokens in a pair of parentheses begin with it. -/
theorem Pair.leads (column : Int) (width : Nat) (pair : Option Pair) {t : Token} {ts : List Token}
    {marks : List (String × Position)} (ht : t.Begins ⟨row, column + Pair.lead pair⟩)
    (h : Leads marks (t :: ts)) :
    Leads (Pair.marks row column pair ++ marks)
      (Pair.tokens row line column width pair (t :: ts)) := by
  cases pair with
  | none => exact h
  | some p =>
    obtain ⟨hlpar, hop⟩ := Token.begins_lpar row line column
    have hstart : t.start = ⟨row, column + 1 + p.left⟩ := by
      rw [ht.start, Pair.lead]
      congr 1
      omega
    have hleads := (Leads.paren hop hlpar.isFiller ht.isFiller h).append
      [Token.onRow row line (column + 1 + p.left + width + p.right) .operator ")"]
    rw [Token.gap_eq_spaces (n := p.left) rfl hstart rfl, hstart] at hleads
    exact hleads

/-- An opening parenthesis among the tokens is that of the pair, or among those inside. -/
theorem Pair.of_mem_tokens {column : Int} {width : Nat} {pair : Option Pair} {t : Token}
    {ts : List Token} (ht : t ∈ Pair.tokens row line column width pair ts)
    (hlpar : t.isOp .lpar = true) :
    (∃ p, pair = some p ∧ t.start = ⟨row, column⟩) ∨ t ∈ ts := by
  cases pair with
  | none => exact Or.inr ht
  | some p =>
    simp only [Pair.tokens, List.mem_append, List.mem_cons, List.not_mem_nil, or_false] at ht
    rcases ht with (rfl | ht) | rfl
    · exact Or.inl ⟨p, rfl, rfl⟩
    · exact Or.inr ht
    · cases hlpar

end

namespace Chain

section
variable (row : Int) (line : String)

/-- The marks of the parentheses that a chain begins with, its own first. -/
def marks (column : Int) : Chain → List (String × Position)
  | name pair .. => Pair.marks row column pair
  | member pair value .. => Pair.marks row column pair ++ value.marks (column + Pair.lead pair)

/-- The marks of the parentheses that a chain begins with inside its own, where it starts at
    `column`. -/
def bareMarks (column : Int) : Chain → List (String × Position)
  | name .. => []
  | member _ value .. => value.marks row column

theorem marks_eq (column : Int) (e : Chain) :
    e.marks row column = Pair.marks row column e.pair ++ e.bareMarks row (e.inner column) := by
  cases e with
  | name => exact (List.append_nil _).symm
  | member => rfl

theorem length_marks (column : Int) (e : Chain) : (e.marks row column).length = e.pairs := by
  induction e generalizing column with
  | name pair => cases pair <;> rfl
  | member pair value _ _ _ _ ih =>
    rw [marks, List.length_append, ih, pairs]
    cases pair <;> simp [Pair.marks, Nat.add_comm]

theorem begins (column : Int) (e : Chain) :
    ∃ t ts, e.tokens row line column = t :: ts ∧ t.Begins ⟨row, column⟩ := by
  induction e generalizing column with
  | name pair id =>
    exact Pair.begins row line column _ pair (Token.begins_operand row line _ (Or.inr rfl) id).1
  | member pair value _ _ _ _ ih =>
    obtain ⟨t, ts, hts, ht⟩ := ih (column + Pair.lead pair)
    rw [tokens, hts]
    exact Pair.begins row line column _ pair ht

/-- The tokens of a chain begin with its parentheses. -/
theorem leads (column : Int) (e : Chain) : Leads (e.marks row column) (e.tokens row line column) := by
  induction e generalizing column with
  | name pair id =>
    obtain ⟨hbegins, hlpar⟩ :=
      Token.begins_operand row line (column + Pair.lead pair) (Or.inr rfl) id
    have hleads := Pair.leads row line column id.length pair hbegins
      (.first hlpar : Leads [] [_])
    rwa [List.append_nil] at hleads
  | member pair value before after attr ctx ih =>
    obtain ⟨t, ts, hts, ht⟩ := value.begins row line (column + Pair.lead pair)
    have hvalue := ih (column + Pair.lead pair)
    rw [tokens, hts]
    rw [hts] at hvalue
    exact Pair.leads row line column _ pair ht (hvalue.append _)

theorem bareLeads (column : Int) (e : Chain) :
    Leads (e.bareMarks row column) (e.bareTokens row line column) := by
  cases e with
  | name pair id => exact .first (Token.begins_operand row line column (Or.inr rfl) id).2
  | member pair value => exact (value.leads row line column).append _

/-- All parentheses of a chain that open stand before its name. -/
theorem lpar_before_name (column : Int) (e : Chain) : ∀ t ∈ e.tokens row line column,
    t.isOp .lpar = true → t.start < ⟨row, e.nameColumn column⟩ := by
  induction e generalizing column with
  | name pair id ctx =>
    intro t ht hlpar
    rcases Pair.of_mem_tokens row line ht hlpar with ⟨p, rfl, hstart⟩ | ht
    · rw [hstart]
      refine Or.inr ⟨rfl, ?_⟩
      simp only [nameColumn, Pair.lead]
      omega
    · obtain rfl := List.mem_singleton.1 ht
      cases hlpar
  | member pair value before after attr ctx ih =>
    intro t ht hlpar
    rcases Pair.of_mem_tokens row line ht hlpar with ⟨p, rfl, hstart⟩ | ht
    · rw [hstart]
      refine Or.inr ⟨rfl, lt_nameColumn_of_pairs_pos ?_ column⟩
      simp [pairs]
    · rcases List.mem_append.1 ht with ht | ht
      · exact ih (column + Pair.lead pair) t ht hlpar
      · simp only [dotted, List.mem_cons, List.not_mem_nil, or_false] at ht
        rcases ht with rfl | rfl <;> cases hlpar

end

/-! ## Outcomes -/

section
open Conversion.Scan Markup
variable {α β : Type} {c c₁ : Cursor}

/-- The step fails where a dot stands in the place of a name. -/
def Breaks (m : Scan α) (c : Cursor) : Prop :=
  ∃ f c' dot, m c = .error f c' ∧ f.cause = .unexpectedToken (some dot) ∧ dot.isOp .dot = true

/-- The step gives a result, but leaves a closing parenthesis before `after`. -/
def Sticks (m : Scan α) (after : List Token) (c : Cursor) : Prop :=
  ∃ a c' rpar last, m c = .ok a c' ∧ c'.rest = rpar :: after ∧ rpar.isFiller = false ∧
    c'.current = some last

theorem Breaks.bind {m : Scan α} (h : Breaks m c) (k : α → Scan β) : Breaks (m >>= k) c := by
  obtain ⟨f, c', dot, hm, hcause, hdot⟩ := h
  refine ⟨f, c', dot, ?_, hcause, hdot⟩
  rw [show (m >>= k) c = EStateM.bind m k c from rfl, EStateM.bind, hm]

theorem Breaks.after {m : Scan α} {a : α} {k : α → Scan β} (hm : m c = .ok a c₁)
    (h : Breaks (k a) c₁) : Breaks (m >>= k) c := by
  obtain ⟨f, c', dot, hk, hcause, hdot⟩ := h
  refine ⟨f, c', dot, ?_, hcause, hdot⟩
  rw [show (m >>= k) c = EStateM.bind m k c from rfl, EStateM.bind, hm]
  exact hk

theorem Breaks.within {m : Scan α} (r : NodeRef) (h : Breaks m c) : Breaks (within r m) c := by
  obtain ⟨f, c', dot, hm, hcause, hdot⟩ := h
  exact ⟨f.within r, c', dot, by rw [Scan.within, hm], hcause, hdot⟩

theorem breaks_expectShown {dot : Token} {ts : List Token} (hr : c.rest = dot :: ts)
    (hdot : dot.isOp .dot = true) (hkind : dot.kind = .operator) :
    Breaks (expectShown (fun t => t.kind = .name)) c := by
  refine Breaks.after (take_ok.2 ⟨ts, hr, rfl⟩) ?_
  rw [if_neg (by simp [hkind])]
  exact ⟨_, _, dot, rfl, rfl, hdot⟩

end

/-! ## Rules -/

section
open Conversion.Scan Markup
variable {row : Int} {line : String} {n : Site} {p : Part} {ctx : String} {c c₁ : Cursor}

/-- An attribute of a value, with one token for the dot and one for the name. -/
theorem attributeRule_ok {ms : List Markup} {a dot name : Token} {rest : List Token}
    (hvalue : n.fields.lookup "value" = some p) (hctx : n.fieldCls "ctx" c = .ok ctx c)
    (hp : p.write c = .ok ms c₁) (hrest : c₁.rest = dot :: name :: rest)
    (hcurrent : c₁.current = some a) (hdot : dot.isFiller = false) (hname : name.kind = .name) :
    attributeRule n [] c = .ok
      [element "Attribute" [("ctx", ctx)] [element "value" [] ms,
        .text (a.gap dot ++ dot.text ++ dot.gap name), labelled "attr" name.text]]
      ((c₁.after dot (name :: rest)).after name rest) := by
  have hfiller : name.isFiller = false := by simp [Token.isFiller, hname]
  have henclosed := enclosed_single true true hrest hdot hfiller (gapBeforeIf_true hcurrent)
  have hshown : expectShown (fun t => t.kind = .name) (c₁.after dot (name :: rest)) =
      .ok name ((c₁.after dot (name :: rest)).after name rest) :=
    expectShown_ok.2 ⟨take_ok.2 ⟨rest, rfl, rfl⟩, by simp [hname]⟩
  exact bind_ok.2 ⟨ctx, c, hctx, bind_ok.2 ⟨ms, c₁, Site.writeField_ok.2 ⟨p, hvalue, hp⟩,
    bind_ok.2 ⟨_, _, henclosed, bind_ok.2 ⟨name, _, hshown, rfl⟩⟩⟩⟩

/-- An attribute of a value that was written out. -/
theorem attributeRule_passes {ms : List Markup} {column : Int} {before after : Nat} {attr : String}
    {rest : List Token} {base : List Deferred} (hvalue : n.fields.lookup "value" = some p)
    (hctx : n.fieldCls "ctx" c = .ok ctx c) (hp : p.write c = .ok ms c₁)
    (hpassed : Passed (dotted row line column before after attr ++ rest) base ⟨row, column⟩ c₁) :
    ∃ m c', attributeRule n [] c = .ok [m] c' ∧
      m.content = contents ms ++ Text.spaces before ++ "." ++ Text.spaces after ++ attr ∧
      Passed rest base ⟨row, column + before + 1 + after + attr.length⟩ c' := by
  obtain ⟨hrest, hdeferred, a, hcurrent, hstop⟩ := hpassed
  have hbefore : a.gap (Token.onRow row line (column + before) .operator ".") =
      Text.spaces before := Token.gap_eq_spaces hstop rfl rfl
  have hafter : (Token.onRow row line (column + before) .operator ".").gap
      (Token.onRow row line (column + before + 1 + after) .name attr) = Text.spaces after :=
    Token.gap_eq_spaces rfl rfl rfl
  refine ⟨_, _, attributeRule_ok hvalue hctx hp hrest hcurrent rfl rfl, ?_, ?_⟩
  · simp only [hbefore, hafter, content_element, contents_cons, contents_nil, content_text,
      content_labelled, String.append_empty, String.append_assoc]
    rfl
  · exact ⟨rfl, hdeferred, _, rfl, rfl⟩

/-- After a value that left a closing parenthesis, that one is taken for the dot. -/
theorem attributeRule_breaks {dot : Token} {rest : List Token}
    (hvalue : n.fields.lookup "value" = some p) (hctx : n.fieldCls "ctx" c = .ok ctx c)
    (hdot : dot.isOp .dot = true) (hkind : dot.kind = .operator)
    (h : Sticks p.write (dot :: rest) c ∨ Breaks p.write c) : Breaks (attributeRule n []) c := by
  refine Breaks.after hctx ?_
  rcases h with ⟨ms, c₁, rpar, last, hp, hrest, hfiller, hcurrent⟩ | h
  · refine Breaks.after (Site.writeField_ok.2 ⟨p, hvalue, hp⟩) ?_
    have hnot : dot.isFiller = false := by simp [Token.isFiller, hkind]
    refine Breaks.after (enclosed_single true true hrest hfiller hnot (gapBeforeIf_true hcurrent)) ?_
    exact (breaks_expectShown rfl hdot hkind).bind _
  · refine Breaks.bind ?_ _
    obtain ⟨f, c', dot, hp, hcause, hdot⟩ := h
    exact Breaks.after (Site.field_ok.2 ⟨hvalue, rfl⟩) ⟨f, c', dot, hp, hcause, hdot⟩

end

/-! ## Nodes -/

section
open Conversion.Scan Markup Arithmetic
variable {lines : List String} {row : Int} {line : String}

/-- The node of a chain starts where the name does. -/
theorem start_tree (hline : Text.signedGet? lines (row - 1) = some line)
    (hascii : Text.isOneByte line = true) (e : Chain) (path : Path) (column : Int) :
    (toPart lines path (e.tree row column)).start = .ok ⟨row, column⟩ := by
  induction e generalizing path with
  | name pair id ctx =>
    rw [tree, toPart_expression (startOfNode_recorded hline hascii (by simp) rfl) rfl]
    rfl
  | member pair value before after attr ctx ih => exact ih (path.field "value")

variable {e : Chain} {column : Int} {after : List Token} {base ds : List Deferred} {depth : Nat}
variable {c : Cursor}

/-- Inside the parentheses of a chain that has none, nothing is different. -/
theorem bare_of_none (hpair : e.pair = none)
    (h : Ready (e.marks row column) (e.tokens row line column) after base depth ds c) :
    Ready (e.bareMarks row (e.inner column)) (e.bareTokens row line (e.inner column)) after base
      depth ds c := by
  rw [marks_eq, tokens_eq, hpair] at h
  exact h

/-- The parenthesis that closes a chain in parentheses. -/
def rpar (row : Int) (line : String) (column : Int) (p : Pair) (e : Chain) : Token :=
  Token.onRow row line (column + 1 + p.left + e.bareText.length + p.right) .operator ")"

/-- Inside the parentheses of a chain, its own one is the first that is kept aside. -/
theorem bare_of_some {p : Pair} (hpair : e.pair = some p)
    (h : Ready (e.marks row column) (e.tokens row line column) after base depth ds c)
    (hne : ds ≠ []) :
    ∃ d ds', ds = d :: ds' ∧ d.text = "(" ++ Text.spaces p.left ∧
      d.start = ⟨row, e.inner column⟩ ∧
      Ready (e.bareMarks row (e.inner column)) (e.bareTokens row line (e.inner column))
        (e.rpar row line column p :: after) (d :: base) depth ds' c := by
  rw [marks_eq, tokens_eq, hpair] at h
  obtain ⟨d, ds', rfl, hmark, hready⟩ := h.inside (e.bareLeads row line (e.inner column)) hne
  refine ⟨d, ds', rfl, congrArg Prod.fst hmark, ?_, hready⟩
  have hstart : d.start = ⟨row, column + 1 + p.left⟩ := congrArg Prod.snd hmark
  rw [hstart, inner, hpair, Pair.lead]
  congr 1
  omega

/-- On the way into a node of a chain one parenthesis is taken, if there is one left. -/
theorem opened {ref : NodeRef} (hplace : ref.start? = some ⟨row, e.nameColumn column⟩)
    (h : Ready (e.marks row column) (e.tokens row line column) after base ref.path.steps.length
      ds c) :
    ∃ ds' c₁, openParenthesis ref c = .ok () c₁ ∧
      Ready (e.marks row column) (e.tokens row line column) after base
        (ref.path.steps.length + 1) ds' c₁ ∧
      (ds' = ds ∧ ds.length = e.pairs ∨ ∃ d, ds' = ds ++ [d] ∧ d.owner = ref.path) := by
  have hleads := e.leads row line column
  obtain ⟨ds', c₁, hopen, hready, hds⟩ := openParenthesis_cases hplace hleads h
  refine ⟨ds', c₁, hopen, hready, hds.imp_left ?_⟩
  rintro ⟨rfl, hnot⟩
  refine ⟨rfl, ?_⟩
  have hle := h.marked.length_le
  rw [List.length_map, length_marks] at hle
  -- a parenthesis that is left would stand before the name
  have hnil : (e.marks row column).drop ds'.length = [] := by
    refine (hleads.drop (by rwa [length_marks])).eq_nil fun t ht => ?_
    have hmem := List.mem_of_mem_drop (List.mem_of_mem_head? ht)
    cases hlpar : t.isOp .lpar with
    | false => rfl
    | true => exact absurd (e.lpar_before_name row line column t hmem hlpar) (hnot t ht hlpar)
  rw [List.drop_eq_nil_iff, length_marks] at hnil
  omega

/-- Then one more is kept aside than before, or all of them. -/
theorem min_le_of_opened {ref : NodeRef} {ds' : List Deferred}
    (h : ds' = ds ∧ ds.length = e.pairs ∨ ∃ d, ds' = ds ++ [d] ∧ d.owner = ref.path) :
    min e.pairs (ds.length + 1) ≤ ds'.length := by
  rcases h with ⟨rfl, hlength⟩ | ⟨d, rfl, -⟩
  · omega
  · simp only [List.length_append, List.length_singleton]
    omega

theorem ne_nil_of_opened {ref : NodeRef} {ds' : List Deferred} (hpos : 0 < e.pairs)
    (h : ds' = ds ∧ ds.length = e.pairs ∨ ∃ d, ds' = ds ++ [d] ∧ d.owner = ref.path) :
    ds' ≠ [] := by
  have hmin := min_le_of_opened h
  exact List.ne_nil_of_length_pos (by omega)

/-- What comes after a chain closes nothing. -/
def Plain (after : List Token) : Prop :=
  ∃ t ts, after = t :: ts ∧ t.isFiller = false ∧ t.isOp .rpar = false

theorem Plain.outside (h : Plain after) (column : Int) (depth : Nat) (base : List Deferred) :
    Outside column depth base after := by
  obtain ⟨t, ts, rfl, hfiller, hrpar⟩ := h
  exact ⟨t, ts, rfl, hfiller, fun h => by simp [hrpar] at h⟩

/-- The pair of a node closes there if it is the only one in it, or if nothing was kept aside
    before, so that the node has taken it itself. -/
theorem closes_own_pair {ref : NodeRef} {d : Deferred} {ds₁ : List Deferred}
    (hsome : e.pair.isSome = true) (hdstart : d.start = ⟨row, e.inner column⟩)
    (htaken : d :: ds₁ = ds ∧ ds.length = e.pairs ∨
      ∃ d', d :: ds₁ = ds ++ [d'] ∧ d'.owner = ref.path)
    (hds : e.pairs ≤ 1 ∨ ds = []) :
    (d.start = ⟨row, e.nameColumn column⟩ ∨ d.owner = ref.path) ∧ (e.pairs ≤ 1 ∨ ds₁ = []) := by
  rcases hds with hone | rfl
  · rw [nameColumn_eq_inner hsome hone]
    exact ⟨Or.inl hdstart, Or.inl hone⟩
  · rcases htaken with ⟨hnil, -⟩ | ⟨d', hd, howner⟩
    · cases hnil
    · obtain ⟨rfl, rfl⟩ : d = d' ∧ ds₁ = [] := by simpa using hd
      exact ⟨Or.inr howner, Or.inr rfl⟩

/-- A node of a chain is written out if its rule is, and if its own pair, if it has one, is
    the only one in it or is taken by the node itself. -/
theorem enclose_passes {ref : NodeRef} {rule : Into}
    (hplace : ref.start? = some ⟨row, e.nameColumn column⟩)
    (hready : Ready (e.marks row column) (e.tokens row line column) after base
      ref.path.steps.length ds c)
    (hplain : Plain after) (hds : e.pairs ≤ 1 ∨ ds = [] ∧ e.pair.isSome = true)
    (hrule : ∀ c ds after base, Ready (e.bareMarks row (e.inner column))
        (e.bareTokens row line (e.inner column)) after base (ref.path.steps.length + 1) ds c →
      (e.pairs ≤ 1 ∨ ds = []) → ∃ m c', rule [] c = .ok [m] c' ∧ m.content = e.bareText ∧
        Passed after base ⟨row, e.inner column + e.bareText.length⟩ c') :
    ∃ ms c', within ref (enclose ref (.ok ⟨row, e.nameColumn column⟩) rule []) c = .ok ms c' ∧
      contents ms = e.text ∧ Passed after base ⟨row, column + e.width⟩ c' := by
  obtain ⟨ds', c₁, hopen, hready, htaken⟩ := opened hplace hready
  cases hpair : e.pair with
  | none =>
    have hone : e.pairs ≤ 1 := by simpa [hpair] using hds
    obtain ⟨m, c₂, hm, htext, hpassed⟩ := hrule c₁ ds' after base (bare_of_none hpair hready)
      (Or.inl hone)
    have hclose : closesHere ref (.ok ⟨row, e.nameColumn column⟩) c₂ = .ok none c₂ :=
      closesHere_outside (by rw [hpassed.rest]; exact hplain.outside _ _ _)
    refine ⟨[m], c₂, within_ok.2 (enclose_open [] hopen hm hclose), ?_, ?_⟩
    · simp [htext, text_eq, hpair, Pair.around]
    · simpa [inner, width_eq, hpair, Pair.lead, Pair.around] using hpassed
  | some p =>
    have hsome : e.pair.isSome = true := by rw [hpair]; rfl
    obtain ⟨d, ds₁, rfl, hdtext, hdstart, hbare⟩ :=
      bare_of_some hpair hready (ne_nil_of_opened (pairs_pos_of_pair hsome) htaken)
    have hpartner := closes_own_pair hsome hdstart htaken (hds.imp_right And.left)
    obtain ⟨m, c₂, hm, htext, hrest, hdeferred, a, hcurrent, hstop⟩ :=
      hrule c₁ ds₁ _ _ hbare hpartner.2
    obtain ⟨t, ts, rfl, hfiller, -⟩ := hplain
    have hgap : a.gap (e.rpar row line column p) = Text.spaces p.right := by
      refine Token.gap_eq_spaces hstop rfl ?_
      simp only [inner, hpair, Pair.lead]
      omega
    have hwrite := enclose_closed [] hopen hm hrest rfl rfl hfiller hcurrent hdeferred hpartner.1
    refine ⟨_, _, within_ok.2 hwrite, ?_, rfl, rfl, _, rfl, ?_⟩
    · simp only [List.nil_append, contents_cons, contents_nil, content_text, htext, hdtext, hgap,
        text_eq, hpair, Pair.around, String.append_empty, String.append_assoc]
      rfl
    · rw [width_eq, hpair, length_around]
      simp only [rpar, Token.onRow, Position.mk.injEq, true_and]
      rw [show (")" : String).length = 1 from rfl]
      omega

/-- The node of an attribute of a chain, which is recorded where the name stands. -/
def memberSite (lines : List String) (path : Path) (row column : Int) (value : Chain)
    (attr ctx : String) : Site :=
  ⟨⟨path, "Attribute", [row, column]⟩, toFields lines path
    [("value", value.tree row column), ("attr", .leaf (.str attr)), ("ctx", .node ctx [] [])]⟩

theorem toPart_member (hline : Text.signedGet? lines (row - 1) = some line)
    (hascii : Text.isOneByte line = true) (path : Path) (column : Int) (pair : Option Pair)
    (value : Chain) (before after : Nat) (attr ctx : String) :
    (toPart lines path ((member pair value before after attr ctx).tree row column)).write =
      within (memberSite lines path row column value attr ctx).ref
        (enclose (memberSite lines path row column value attr ctx).ref (.ok ⟨row, column⟩)
          (attributeRule (memberSite lines path row column value attr ctx)) []) := by
  have hstart : startOfNode lines (memberSite lines path row column value attr ctx).ref
      (memberSite lines path row column value attr ctx).fields = .ok ⟨row, column⟩ :=
    start_tree hline hascii value (path.field "value") column
  exact congrArg Part.write (toPart_expression hstart rfl)

theorem fieldCls_memberSite (path : Path) (column : Int) (value : Chain) (attr ctx : String)
    (c : Cursor) :
    (memberSite lines path row column value attr ctx).fieldCls "ctx" c = .ok ctx c :=
  Site.fieldCls_ok.2 ⟨⟨_, rfl, rfl⟩, rfl⟩

/-- A chain with one pair is written out wherever the pair is, and a settled one is if none
    of its parentheses is kept aside before. -/
theorem passes (hline : Text.signedGet? lines (row - 1) = some line)
    (hascii : Text.isOneByte line = true) (e : Chain) (path : Path) (column : Int)
    (hready : Ready (e.marks row column) (e.tokens row line column) after base
      path.steps.length ds c)
    (hplain : Plain after) (hds : e.pairs ≤ 1 ∨ ds = [] ∧ e.isSettled = true) :
    ∃ ms c', (toPart lines path (e.tree row (e.nameColumn column))).write c = .ok ms c' ∧
      contents ms = e.text ∧ Passed after base ⟨row, column + e.width⟩ c' := by
  induction e generalizing path column c ds after base with
  | name pair id ctx =>
    rw [tree, toPart_expression (startOfNode_recorded hline hascii (by simp) rfl) rfl]
    have hone : (name pair id ctx).pairs ≤ 1 := by
      rw [pairs]
      split <;> omega
    refine enclose_passes rfl hready hplain (Or.inl hone) fun c ds after base hbare _ => ?_
    obtain ⟨hrest, hdeferred⟩ := hbare.rest_of_nil
    exact ⟨_, _, nameRule_ok id ctx hrest rfl, by simp [bareText], rfl, hdeferred, _, rfl, rfl⟩
  | member pair value before blanks attr ctx ih =>
    rw [toPart_member hline hascii]
    have hsettled : value.isSettled = true := by
      rcases hds with hone | ⟨-, hsettled⟩
      · exact isSettled_of_pairs_le_one (by rw [pairs] at hone; omega)
      · rw [isSettled, Bool.and_eq_true] at hsettled
        exact hsettled.2
    have hown : (member pair value before blanks attr ctx).pairs ≤ 1 ∨
        ds = [] ∧ (member pair value before blanks attr ctx).pair.isSome = true := by
      rcases hds with hone | ⟨hnil, hsettled⟩
      · exact Or.inl hone
      · cases pair with
        | none => exact Or.inl (by simpa [isSettled, pairs, ‹value.isSettled = true›] using hsettled)
        | some => exact Or.inr ⟨hnil, rfl⟩
    refine enclose_passes rfl hready hplain hown fun c ds after base hbare hinside => ?_
    obtain ⟨ms, c₁, hms, htext, hpassed⟩ := ih (path.field "value") (column + Pair.lead pair)
      (hbare.first (value.leads row line _)) ⟨_, _, rfl, rfl, rfl⟩
      (hinside.imp (fun hone => by rw [pairs] at hone; omega) fun hnil => ⟨hnil, hsettled⟩)
    obtain ⟨m, c', hm, hcontent, hpassed⟩ :=
      attributeRule_passes rfl (fieldCls_memberSite path _ value attr ctx c) hms hpassed
    refine ⟨m, c', hm, by rw [hcontent, htext, bareText], ?_⟩
    have hend : inner column (member pair value before blanks attr ctx) +
        ((member pair value before blanks attr ctx).bareText.length : Int) =
          column + Pair.lead pair + value.width + before + 1 + blanks + attr.length := by
      rw [inner, Chain.pair, length_bareText_member]
      omega
    rwa [hend]

/-- A node of a chain breaks if its rule does.  Inside there is a parenthesis kept aside, if
    there was one before or the node has none of its own. -/
theorem enclose_breaks {ref : NodeRef} {rule : Into}
    (hplace : ref.start? = some ⟨row, e.nameColumn column⟩)
    (hready : Ready (e.marks row column) (e.tokens row line column) after base
      ref.path.steps.length ds c)
    (htwo : 2 ≤ e.pairs)
    (hrule : ∀ c ds' after base, Ready (e.bareMarks row (e.inner column))
        (e.bareTokens row line (e.inner column)) after base (ref.path.steps.length + 1) ds' c →
      (ds ≠ [] ∨ e.pair = none → ds' ≠ []) → Breaks (rule []) c) :
    Breaks (within ref (enclose ref (.ok ⟨row, e.nameColumn column⟩) rule [])) c := by
  obtain ⟨ds', c₁, hopen, hready, htaken⟩ := opened hplace hready
  have hmin := min_le_of_opened htaken
  have hne := ne_nil_of_opened (by omega) htaken
  refine Breaks.within ref (Breaks.after hopen (Breaks.bind ?_ _))
  cases hpair : e.pair with
  | none => exact hrule c₁ ds' after base (bare_of_none hpair hready) fun _ => hne
  | some p =>
    obtain ⟨d, ds₁, rfl, -, -, hbare⟩ := bare_of_some hpair hready hne
    refine hrule c₁ ds₁ _ _ hbare fun h => ?_
    have hpos : 0 < ds.length := List.length_pos_iff.2 (by simpa [hpair] using h)
    rw [List.length_cons] at hmin
    exact List.ne_nil_of_length_pos (by omega)

/-- A node of a chain leaves its closing parenthesis if a node above has taken the opening
    one and the name does not stand right behind that. -/
theorem enclose_sticks {ref : NodeRef} {rule : Into} {p : Pair}
    (hplace : ref.start? = some ⟨row, e.nameColumn column⟩)
    (hready : Ready (e.marks row column) (e.tokens row line column) after base
      ref.path.steps.length ds c)
    (hpair : e.pair = some p) (hfar : e.inner column < e.nameColumn column) (hne : ds ≠ [])
    (hrule : ∀ c ds after base, Ready (e.bareMarks row (e.inner column))
        (e.bareTokens row line (e.inner column)) after base (ref.path.steps.length + 1) ds c →
      ∃ m c' stop, rule [] c = .ok [m] c' ∧ Passed after base stop c') :
    Sticks (within ref (enclose ref (.ok ⟨row, e.nameColumn column⟩) rule [])) after c := by
  have howners := hready.owners
  obtain ⟨ds', c₁, hopen, hready, htaken⟩ := opened hplace hready
  have hpos := pairs_pos_of_pair (e := e) (by rw [hpair]; rfl)
  obtain ⟨d, ds₁, rfl, -, hdstart, hbare⟩ :=
    bare_of_some hpair hready (ne_nil_of_opened hpos htaken)
  have hmem : d ∈ ds := by
    rcases htaken with ⟨rfl, -⟩ | ⟨d', hd, -⟩
    · exact List.mem_cons_self
    · obtain ⟨d₀, ds₀, rfl⟩ := List.exists_cons_of_ne_nil hne
      obtain ⟨rfl, -⟩ := List.cons.inj hd
      exact List.mem_cons_self
  obtain ⟨m, c₂, stop, hm, hrest, hdeferred, a, hcurrent, -⟩ := hrule c₁ ds₁ _ _ hbare
  have hclose : closesHere ref (.ok ⟨row, e.nameColumn column⟩) c₂ = .ok none c₂ := by
    refine closesHere_outside ⟨_, _, hrest, rfl, fun _ d' hd => ?_⟩
    obtain rfl : d = d' := by simpa [hdeferred] using hd
    exact ⟨by rw [hdstart]; exact hfar, howners d hmem⟩
  exact ⟨[m], c₂, _, a, within_ok.2 (enclose_open [] hopen hm hclose), hrest, rfl, hcurrent⟩

/-- A chain with two pairs breaks, or leaves a parenthesis on which the chain around it
    breaks, if the first of its parentheses was kept aside before.  It breaks anyway if it is
    not settled. -/
theorem breaks (hline : Text.signedGet? lines (row - 1) = some line)
    (hascii : Text.isOneByte line = true) (e : Chain) (path : Path) (column : Int)
    (hready : Ready (e.marks row column) (e.tokens row line column) after base
      path.steps.length ds c)
    (hplain : Plain after) (htwo : 2 ≤ e.pairs) (h : ds ≠ [] ∨ e.isSettled = false) :
    let write := (toPart lines path (e.tree row (e.nameColumn column))).write
    Breaks write c ∨ e.isSettled = true ∧ Sticks write after c := by
  induction e generalizing path column c ds after base with
  | name pair id ctx =>
    rw [pairs] at htwo
    split at htwo <;> omega
  | member pair value before blanks attr ctx ih =>
    rw [toPart_member hline hascii]
    by_cases hvalue : 2 ≤ value.pairs
    · -- the value breaks, or leaves what this node breaks on
      refine Or.inl (enclose_breaks rfl hready htwo fun c ds' after base hbare hinside => ?_)
      have hnext : ds' ≠ [] ∨ value.isSettled = false := by
        rcases h with hne | hnot
        · exact Or.inl (hinside (Or.inl hne))
        · cases pair with
          | none => exact Or.inl (hinside (Or.inr rfl))
          | some => exact Or.inr (by simpa [isSettled] using hnot)
      have hbroken := ih (path.field "value") (column + Pair.lead pair)
        (hbare.first (value.leads row line _)) ⟨_, _, rfl, rfl, rfl⟩ hvalue hnext
      exact attributeRule_breaks rfl (fieldCls_memberSite path _ value attr ctx c) rfl rfl
        (hbroken.symm.imp_left And.right)
    · -- the value has the other pair, and this node cannot tell its own
      have hone : value.pairs ≤ 1 := by omega
      cases pair with
      | none =>
        simp only [pairs] at htwo
        exact absurd htwo (by simpa using hvalue)
      | some p =>
        have hsettled : (member (some p) value before blanks attr ctx).isSettled = true := by
          simp [isSettled, isSettled_of_pairs_le_one hone]
        have hpos : 0 < value.pairs := by
          simp only [pairs, Option.isSome_some, if_true] at htwo
          omega
        refine Or.inr ⟨hsettled, enclose_sticks rfl hready rfl
          (lt_nameColumn_of_pairs_pos hpos _) (by simpa [hsettled] using h)
          fun c ds after base hbare => ?_⟩
        obtain ⟨ms, c₁, hms, -, hpassed⟩ := passes hline hascii value (path.field "value") _
          (hbare.first (value.leads row line _)) ⟨_, _, rfl, rfl, rfl⟩ (Or.inl hone)
        obtain ⟨m, c', hm, -, hpassed⟩ :=
          attributeRule_passes rfl (fieldCls_memberSite path _ value attr ctx c) hms hpassed
        exact ⟨m, c', _, hm, hpassed⟩

/-- **A chain of attributes in single parentheses is written out exactly if it is settled.**
    Then its markup spells its text, all of its tokens are taken and no parenthesis is kept
    aside.  Otherwise a dot is found where a name should be. -/
theorem write_chain (hline : Text.signedGet? lines (row - 1) = some line)
    (hascii : Text.isOneByte line = true) (e : Chain) (path : Path) (column : Int)
    {newline : Token} {rest : List Token} (hnewline : newline.kind = .newline)
    (hrest : c.rest = e.tokens row line column ++ newline :: rest) (hdeferred : c.deferred = []) :
    (e.isSettled = true →
      ∃ ms c', (toPart lines path (e.tree row (e.nameColumn column))).write c = .ok ms c' ∧
        contents ms = e.text ∧ c'.rest = newline :: rest ∧ c'.deferred = []) ∧
    (e.isSettled = false →
      Breaks (toPart lines path (e.tree row (e.nameColumn column))).write c) := by
  have hready : Ready (e.marks row column) (e.tokens row line column) (newline :: rest) []
      path.steps.length [] c := ⟨hrest, hdeferred, List.nil_prefix, by simp⟩
  have hplain : Plain (newline :: rest) :=
    ⟨newline, rest, rfl, by simp [Token.isFiller, hnewline], by simp [Token.isOp, Token.exact, hnewline]⟩
  constructor
  · intro hsettled
    obtain ⟨ms, c', hms, htext, hpassed⟩ :=
      passes hline hascii e path column hready hplain (Or.inr ⟨rfl, hsettled⟩)
    exact ⟨ms, c', hms, htext, hpassed.rest, hpassed.deferred⟩
  · intro hnot
    have htwo : 2 ≤ e.pairs := by
      cases hle : decide (e.pairs ≤ 1) with
      | true => simp [isSettled_of_pairs_le_one (of_decide_eq_true hle)] at hnot
      | false =>
        have hlt := of_decide_eq_false hle
        omega
    rcases breaks hline hascii e path column hready hplain htwo (Or.inr hnot) with hbreaks | hsticks
    · exact hbreaks
    · rw [hnot] at hsticks
      cases hsticks.1

end

/-- A chain alone on a line. -/
def lineOf (e : Chain) : String := e.text ++ "\n"

/-- Before a chain alone on a line. -/
def cursorOf (e : Chain) : Cursor where
  rest := e.tokens 1 e.lineOf 0 ++ [Token.onRow 1 e.lineOf e.width .newline "\n"]
  current := none
  previous := none
  deferred := []
  remarks := []

/-- `((a).b).c`: no part is in two pairs of parentheses, but the last one is in none and
    holds two parts that are in one. -/
def unsettledSample : Chain :=
  let a : Chain := .name (some ⟨0, 0⟩) "a" "Load"
  let b : Chain := .member (some ⟨0, 0⟩) a 0 0 "b" "Load"
  .member none b 0 0 "c" "Load"

/-- `( ((a) .b) . c)`, every part of which has parentheses of its own. -/
def settledSample : Chain :=
  let a : Chain := .name (some ⟨0, 0⟩) "a" "Load"
  let b : Chain := .member (some ⟨0, 0⟩) a 1 0 "b" "Load"
  .member (some ⟨1, 0⟩) b 1 1 "c" "Load"

theorem write_samples :
    (∃ ms c', (toPart [settledSample.lineOf] .root (settledSample.tree 1 4)).write
        settledSample.cursorOf = .ok ms c' ∧ Markup.contents ms = "( ((a) .b) . c)" ∧
      c'.rest.map Token.text = ["\n"] ∧ c'.deferred = []) ∧
    Breaks (toPart [unsettledSample.lineOf] .root (unsettledSample.tree 1 2)).write
      unsettledSample.cursorOf := by
  have hline (e : Chain) : Text.signedGet? [e.lineOf] (1 - 1) = some e.lineOf := rfl
  constructor
  · obtain ⟨ms, c', hwrite, htext, hrest, hdeferred⟩ :=
      (write_chain (hline settledSample) (by decide) settledSample .root 0 rfl
        (c := settledSample.cursorOf) rfl rfl).1 rfl
    exact ⟨ms, c', hwrite, htext.trans (by decide), by rw [hrest]; rfl, hdeferred⟩
  · exact (write_chain (hline unsettledSample) (by decide) unsettledSample .root 0 rfl
      (c := unsettledSample.cursorOf) rfl rfl).2 rfl

end Chain

end SourceScribe
