/-
  Several string literals in a row.

  `stringRuns` are the runs of string literals, with line breaks and comments between them.  A
  run is a literal and further ones (`mem_stringRuns`), each a `Further`: a literal after line
  breaks and comments.  The rule counts the further literals before it takes them, and
  `furtherStrings_eq` finds in the tokens ahead the ones that it counts.

  `stringRule_takes_longest_run`: this run is the longest one that the tokens begin with, the
  rule takes just that, and writes each literal as a part of its own.
-/
import SourceScribe.Proofs.Conversion.Enclosed

namespace SourceScribe

/-- Whether a piece of markup is an element. -/
def Markup.isElement (m : Markup) : Bool :=
  match m with
  | .text _ => false
  | .element _ _ _ => true

@[simp] theorem Markup.isElement_text (s : String) : (Markup.text s).isElement = false := rfl

@[simp] theorem Markup.isElement_labelled (tag s : String) :
    (Markup.labelled tag s).isElement = true := rfl

namespace Conversion

open Scan Markup
open scoped Computability

/-! ## Runs of string literals -/

/-- Whether a token is a string literal. -/
def isString (t : Token) : Bool :=
  t.kind = .string

theorem isFiller_of_isString {t : Token} (h : isString t = true) : t.isFiller = false := by
  have hkind : t.kind = .string := of_decide_eq_true h
  simp [Token.isFiller, hkind]

/-- The tokens as asked, one at a time. -/
def oneOf (p : Token → Bool) : Language Token :=
  {w | ∃ t, p t = true ∧ w = [t]}

/-- String literals in a row, with line breaks and comments between them. -/
def stringRuns : Language Token :=
  oneOf isString * ((oneOf Token.isFiller)∗ * oneOf isString)∗

/-- A string literal after line breaks and comments. -/
structure Further where
  fill : List Token
  literal : Token
  isFiller_fill : ∀ t ∈ fill, t.isFiller = true
  isString_literal : isString literal = true

namespace Further

def tokens (g : Further) : List Token :=
  g.fill ++ [g.literal]

/-- With one more line break or comment before it. -/
def behind (t : Token) (ht : t.isFiller = true) (g : Further) : Further where
  fill := t :: g.fill
  literal := g.literal
  isFiller_fill := List.forall_mem_cons.2 ⟨ht, g.isFiller_fill⟩
  isString_literal := g.isString_literal

/-- With nothing before it. -/
def bare (t : Token) (ht : isString t = true) : Further where
  fill := []
  literal := t
  isFiller_fill := List.forall_mem_nil _
  isString_literal := ht

theorem of_mem_tokens {g : Further} {t : Token} (h : t ∈ g.tokens) :
    isString t = true ∨ t.isFiller = true := by
  rcases List.mem_append.1 h with hfill | hliteral
  · exact .inr (g.isFiller_fill t hfill)
  · rw [List.mem_singleton.1 hliteral]
    exact .inl g.isString_literal

end Further

theorem mem_kstar_oneOf {p : Token → Bool} {w : List Token} :
    w ∈ (oneOf p)∗ ↔ ∀ t ∈ w, p t = true := by
  constructor
  · rintro ⟨parts, rfl, hparts⟩ t ht
    obtain ⟨part, hpart, ht⟩ := List.mem_flatten.1 ht
    obtain ⟨u, hu, rfl⟩ := hparts part hpart
    rw [List.mem_singleton.1 ht]
    exact hu
  · intro h
    refine ⟨w.map fun t => [t], (List.flatMap_singleton' w).symm, ?_⟩
    intro part hpart
    obtain ⟨t, ht, rfl⟩ := List.mem_map.1 hpart
    exact ⟨t, h t ht, rfl⟩

theorem mem_further {w : List Token} :
    w ∈ (oneOf Token.isFiller)∗ * oneOf isString ↔ w ∈ Set.range Further.tokens := by
  constructor
  · intro h
    obtain ⟨fill, hfill, _, ⟨t, ht, rfl⟩, rfl⟩ := Language.mem_mul.1 h
    exact ⟨⟨fill, t, mem_kstar_oneOf.1 hfill, ht⟩, rfl⟩
  · rintro ⟨g, rfl⟩
    exact Language.append_mem_mul (mem_kstar_oneOf.2 g.isFiller_fill)
      ⟨g.literal, g.isString_literal, rfl⟩

/-- A run is a string literal and further ones. -/
theorem mem_stringRuns {w : List Token} :
    w ∈ stringRuns ↔
      ∃ t gs, isString t = true ∧ w = t :: List.flatMap Further.tokens gs := by
  constructor
  · intro h
    obtain ⟨_, ⟨t, ht, rfl⟩, _, ⟨parts, rfl, hparts⟩, rfl⟩ := Language.mem_mul.1 h
    have hrange : parts ∈ Set.range (List.map Further.tokens) := by
      rw [Set.range_list_map]
      exact fun part hpart => mem_further.1 (hparts part hpart)
    obtain ⟨gs, rfl⟩ := hrange
    exact ⟨t, gs, ht, by rw [List.flatMap_def]; rfl⟩
  · rintro ⟨t, gs, ht, rfl⟩
    refine Language.append_mem_mul (a := [t]) ⟨t, ht, rfl⟩ ?_
    refine Language.join_mem_kstar fun part hpart => ?_
    obtain ⟨g, -, rfl⟩ := List.mem_map.1 hpart
    exact mem_further.2 ⟨g, rfl⟩

/-- A run has no other tokens than string literals, line breaks and comments. -/
theorem of_mem_stringRuns {w : List Token} (h : w ∈ stringRuns) {t : Token} (ht : t ∈ w) :
    isString t = true ∨ t.isFiller = true := by
  obtain ⟨s, gs, hs, rfl⟩ := mem_stringRuns.1 h
  rcases List.mem_cons.1 ht with rfl | ht
  · exact .inl hs
  · obtain ⟨g, -, hg⟩ := List.mem_flatMap.1 ht
    exact Further.of_mem_tokens hg

/-- A run ends with a string literal. -/
theorem exists_last_of_mem_stringRuns {w : List Token} (h : w ∈ stringRuns) :
    ∃ t, w.getLast? = some t ∧ isString t = true := by
  obtain ⟨s, gs, hs, rfl⟩ := mem_stringRuns.1 h
  rcases List.eq_nil_or_concat' gs with rfl | ⟨gs, g, rfl⟩
  · exact ⟨s, rfl, hs⟩
  · refine ⟨g.literal, ?_, g.isString_literal⟩
    rw [List.flatMap_append, List.flatMap_singleton, Further.tokens, ← List.append_assoc,
      ← List.cons_append, List.getLast?_concat]

theorem prefix_of_notMem {w ts us : List Token} {u : Token} (h : w <+: ts ++ u :: us)
    (hu : u ∉ w) : w <+: ts := by
  have hwith : ts ++ [u] <+: ts ++ u :: us := ⟨us, by simp⟩
  rcases List.prefix_or_prefix_of_prefix h hwith with hshort | hlong
  · rcases List.prefix_concat_iff.1 hshort with rfl | hts
    · exact absurd List.mem_concat_self hu
    · exact hts
  · exact absurd (hlong.subset List.mem_concat_self) hu

/-- A run that begins before some line breaks and comments ends before them. -/
theorem prefix_of_mem_stringRuns {w ts fill : List Token} (hw : w ∈ stringRuns)
    (hfill : ∀ t ∈ fill, t.isFiller = true) (h : w <+: ts ++ fill) : w <+: ts := by
  -- on the last of the fillers: a run that reached it would end with it
  induction fill using List.reverseRecOn with
  | nil => rwa [List.append_nil] at h
  | append_singleton fill x ih =>
    obtain ⟨hfill, hx⟩ := List.forall_mem_append.1 hfill
    rw [← List.append_assoc] at h
    rcases List.prefix_concat_iff.1 h with rfl | hshort
    · obtain ⟨t, hlast, ht⟩ := exists_last_of_mem_stringRuns hw
      rw [List.getLast?_concat] at hlast
      cases hlast
      exact absurd (hx x (by simp)) (by simp [isFiller_of_isString ht])
    · exact ih hfill hshort

/-- If only line breaks and comments stand between a run and another token, no longer run begins
    there. -/
theorem stringRuns_longest {run fill us : List Token} {u : Token}
    (hfill : ∀ t ∈ fill, t.isFiller = true) (hstring : isString u = false)
    (hfiller : u.isFiller = false) {w : List Token} (hw : w ∈ stringRuns)
    (h : w <+: run ++ (fill ++ u :: us)) : w <+: run := by
  have hother : u ∉ w := by
    intro hu
    rcases of_mem_stringRuns hw hu with hu | hu
    · exact absurd hu (by simp [hstring])
    · exact absurd hu (by simp [hfiller])
  rw [← List.append_assoc] at h
  exact prefix_of_mem_stringRuns hw hfill (prefix_of_notMem h hother)

/-! ## The rule -/

/-- After a token of a run, a token that is none is still to come. -/
theorem exists_other_of_cons {t : Token} {ts : List Token}
    (ht : isString t = true ∨ t.isFiller = true)
    (h : ∃ u ∈ t :: ts, isString u = false ∧ u.isFiller = false) :
    ∃ u ∈ ts, isString u = false ∧ u.isFiller = false := by
  obtain ⟨u, hu, hother⟩ := h
  rcases List.mem_cons.1 hu with rfl | hu
  · rcases ht with ht | ht <;> simp [ht] at hother
  · exact ⟨u, hu, hother⟩

/-- The tokens ahead are further literals up to another token, and the rule counts them. -/
theorem furtherStrings_eq {ts : List Token}
    (h : ∃ u ∈ ts, isString u = false ∧ u.isFiller = false) :
    ∃ gs fill u us, ts = List.flatMap Further.tokens gs ++ (fill ++ u :: us) ∧
      (∀ t ∈ fill, t.isFiller = true) ∧ isString u = false ∧ u.isFiller = false ∧
      furtherStrings ts = some gs.length := by
  induction ts with
  | nil =>
    obtain ⟨u, hu, -⟩ := h
    cases hu
  | cons t ts ih =>
    by_cases hstring : isString t = true
    · obtain ⟨gs, fill, u, us, rfl, hfill, hu, hu', hcount⟩ :=
        ih (exists_other_of_cons (.inl hstring) h)
      refine ⟨.bare t hstring :: gs, fill, u, us, by simp [Further.bare, Further.tokens], hfill,
        hu, hu', ?_⟩
      rw [furtherStrings, if_pos (of_decide_eq_true hstring), hcount]
      rfl
    have hkind : ¬ t.kind = .string := fun hkind => hstring (decide_eq_true hkind)
    by_cases hfiller : t.isFiller = true
    · obtain ⟨gs, fill, u, us, rfl, hfill, hu, hu', hcount⟩ :=
        ih (exists_other_of_cons (.inr hfiller) h)
      rw [furtherStrings, if_neg hkind, if_pos hfiller, hcount]
      cases gs with
      | nil =>
        exact ⟨[], t :: fill, u, us, rfl, List.forall_mem_cons.2 ⟨hfiller, hfill⟩, hu, hu', rfl⟩
      | cons g gs => exact ⟨g.behind t hfiller :: gs, fill, u, us, rfl, hfill, hu, hu', rfl⟩
    · refine ⟨[], [], t, ts, rfl, List.forall_mem_nil _, by simpa using hstring,
        by simpa using hfiller, ?_⟩
      rw [furtherStrings, if_neg hkind, if_neg hfiller]
      rfl

theorem absorbFrom_eq {p : Token → Bool} {c : Cursor} {a u : Token} {ts us : List Token}
    (hts : ∀ t ∈ ts, p t = true) (hu : p u = false) (ha : c.current = some a)
    (hr : c.rest = ts ++ u :: us) :
    absorbFrom p (ts ++ u :: us) c = .ok (a.spelled ts) (c.passing ts (u :: us)) := by
  induction ts generalizing c a with
  | nil =>
    rw [List.nil_append] at hr ⊢
    rw [absorbFrom, hu, Cursor.passing_nil hr]
    rfl
  | cons t ts ih =>
    obtain ⟨ht, hts⟩ := List.forall_mem_cons.1 hts
    rw [List.cons_append] at hr ⊢
    have hmore := ih hts (Cursor.after_current c t _) (Cursor.after_rest c t _)
    rw [absorbFrom, if_pos ht, bind_of_ok (take_of_rest hr),
      bind_of_ok (gapBefore_after ha t _), bind_of_ok hmore]
    rfl

/-- Tokens that are as asked are taken up to the first one that is not. -/
theorem absorb_eq {p : Token → Bool} {c : Cursor} {a u : Token} {ts us : List Token}
    (hts : ∀ t ∈ ts, p t = true) (hu : p u = false) (ha : c.current = some a)
    (hr : c.rest = ts ++ u :: us) :
    absorb p c = .ok (a.spelled ts) (c.passing ts (u :: us)) := by
  show absorbFrom p c.rest c = _
  rw [hr]
  exact absorbFrom_eq hts hu ha hr

/-- What is written for further literals after the token `a`. -/
def furtherMarkup (a : Token) : List Further → List Markup
  | [] => []
  | g :: gs =>
    text (a.spelled g.fill ++ (a.lastOf g.fill).gap g.literal) ::
      labelled "s" g.literal.text :: furtherMarkup g.literal gs

/-- The further literals are taken one after the other. -/
theorem stringTail_eq {c : Cursor} {a : Token} {left : List Token} (gs : List Further)
    (ha : c.current = some a) (hr : c.rest = gs.flatMap Further.tokens ++ left) :
    stringTail gs.length c
      = .ok (furtherMarkup a gs) (c.passing (gs.flatMap Further.tokens) left) := by
  induction gs generalizing c a with
  | nil =>
    have hleft : c.rest = left := hr
    rw [List.flatMap_nil, Cursor.passing_nil hleft]
    rfl
  | cons g gs ih =>
    have hrest : c.rest = g.fill ++ g.literal :: (gs.flatMap Further.tokens ++ left) := by
      rw [hr, List.flatMap_cons, Further.tokens, List.append_assoc, List.append_assoc]
      rfl
    have hfill := absorb_eq g.isFiller_fill (isFiller_of_isString g.isString_literal) ha hrest
    have hcurrent := Cursor.passing_current ha g.fill
      (g.literal :: (gs.flatMap Further.tokens ++ left))
    have hmore := ih (Cursor.after_current _ g.literal _) (Cursor.after_rest
      (c.passing g.fill (g.literal :: (gs.flatMap Further.tokens ++ left))) g.literal _)
    rw [List.length_cons, stringTail, bind_of_ok hfill,
      bind_of_ok (take_of_rest (Cursor.passing_rest _ _ _)),
      bind_of_ok (gapBefore_after hcurrent _ _), bind_of_ok hmore, Cursor.passing_cons,
      Cursor.passing_passing, List.flatMap_cons, Further.tokens, List.append_assoc]
    rfl

/-- The first literal is taken, and the further ones that were counted. -/
theorem stringRule_eq (n : Site) (fragment : List Markup) {c : Cursor} {t : Token}
    {left : List Token} (hstring : isString t = true) (gs : List Further)
    (hr : c.rest = t :: (gs.flatMap Further.tokens ++ left))
    (hcount : furtherStrings (gs.flatMap Further.tokens ++ left) = some gs.length) :
    stringRule n fragment c
      = .ok (fragment ++ [element n.ref.cls [] (labelled "s" t.text :: furtherMarkup t gs)])
        (c.passing (t :: gs.flatMap Further.tokens) left) := by
  let c₁ := c.after t (gs.flatMap Further.tokens ++ left)
  have hfirst : expectShown (·.kind = .string) c = .ok t c₁ :=
    expectShown_ok.2 ⟨take_of_rest hr, hstring⟩
  have hget : (get : Scan Cursor) c₁ = .ok c₁ c₁ := rfl
  have hmore : orFail .outOfTokens (furtherStrings c₁.rest) c₁ = .ok gs.length c₁ :=
    orFail_ok.2 ⟨hcount, rfl⟩
  have htail := stringTail_eq gs (Cursor.after_current c t _)
    (Cursor.after_rest c t (gs.flatMap Further.tokens ++ left))
  rw [stringRule, bind_of_ok hfirst, bind_of_ok hget, bind_of_ok hmore, bind_of_ok htail,
    Cursor.passing_cons]
  rfl

theorem contents_furtherMarkup (a : Token) (gs : List Further) :
    contents (furtherMarkup a gs) = a.spelled (gs.flatMap Further.tokens) := by
  induction gs generalizing a with
  | nil => simp [furtherMarkup, Token.spelled]
  | cons g gs ih =>
    rw [furtherMarkup, contents_cons, contents_cons, content_text, content_labelled, ih,
      List.flatMap_cons, Further.tokens, List.append_assoc, Token.spelled_append,
      List.singleton_append, Token.spelled]
    simp only [String.append_assoc]

theorem filter_tokens (g : Further) : g.tokens.filter isString = [g.literal] := by
  have hfill : g.fill.filter isString = [] := by
    rw [List.filter_eq_nil_iff]
    intro t ht hstring
    exact absurd (g.isFiller_fill t ht) (by simp [isFiller_of_isString hstring])
  rw [Further.tokens, List.filter_append, hfill, List.nil_append,
    List.filter_cons_of_pos g.isString_literal, List.filter_nil]

/-- Each further literal is a part of its own. -/
theorem filter_furtherMarkup (a : Token) (gs : List Further) :
    (furtherMarkup a gs).filter isElement
      = ((gs.flatMap Further.tokens).filter isString).map fun t => labelled "s" t.text := by
  induction gs generalizing a with
  | nil => rfl
  | cons g gs ih =>
    rw [furtherMarkup, List.filter_cons_of_neg (by simp),
      List.filter_cons_of_pos (isElement_labelled _ _), ih, List.flatMap_cons,
      List.filter_append, filter_tokens]
    rfl

/-- **String literals in a row.**  If a string literal comes next, and later some token that is
    neither a string literal nor a line break or comment, the rule succeeds.  It takes the longest
    run of literals that the tokens begin with, so no line break or comment after the last one.
    Its element has a part for every literal, with the text of the literal, in order; and the text
    of the element is that of the first literal and then of the other tokens of the run, each
    with the gap before it. -/
theorem stringRule_takes_longest_run (n : Site) (fragment : List Markup) {c : Cursor} {t : Token}
    (hnext : c.rest.head? = some t) (hstring : isString t = true)
    (hother : ∃ u ∈ c.rest, isString u = false ∧ u.isFiller = false) :
    ∃ run left parts, c.rest = (t :: run) ++ left ∧
      t :: run ∈ stringRuns ∧ (∀ w ∈ stringRuns, w <+: c.rest → w <+: t :: run) ∧
      (∃ s, (t :: run).getLast? = some s ∧ isString s = true) ∧
      stringRule n fragment c
        = .ok (fragment ++ [element n.ref.cls [] parts]) (c.passing (t :: run) left) ∧
      parts.filter isElement = ((t :: run).filter isString).map (fun s => labelled "s" s.text) ∧
      contents parts = t.text ++ t.spelled run := by
  obtain ⟨ts, hr⟩ := List.head?_eq_some_iff.1 hnext
  have hlater := exists_other_of_cons (.inl hstring) (hr ▸ hother)
  obtain ⟨gs, fill, u, us, rfl, hfill, hu, hu', hcount⟩ := furtherStrings_eq hlater
  have hrun : t :: gs.flatMap Further.tokens ∈ stringRuns := mem_stringRuns.2 ⟨t, gs, hstring, rfl⟩
  refine ⟨gs.flatMap Further.tokens, fill ++ u :: us, labelled "s" t.text :: furtherMarkup t gs,
    hr, hrun, fun w hw h => ?_, exists_last_of_mem_stringRuns hrun, ?_, ?_, ?_⟩
  · rw [hr] at h
    exact stringRuns_longest hfill hu hu' hw h
  · exact stringRule_eq n fragment hstring gs hr hcount
  · rw [List.filter_cons_of_pos (isElement_labelled _ _), filter_furtherMarkup,
      List.filter_cons_of_pos hstring]
    rfl
  · rw [contents_cons, content_labelled, contents_furtherMarkup]

/-- Two literals on two rows, with a comment between them. -/
def brokenLiterals : List Token :=
  [.onRow 1 "('a' # x\n" 1 .string "'a'", .onRow 1 "('a' # x\n" 5 .comment "# x",
   .onRow 1 "('a' # x\n" 8 .lineBreak "\n", .onRow 2 " 'b'\n" 1 .string "'b'"]

/-- A comment and a closing parenthesis after them. -/
def afterLiterals : List Token :=
  [.onRow 2 " 'b'\n" 4 .lineBreak "\n", .onRow 3 " # y\n" 1 .comment "# y",
   .onRow 3 " # y\n" 4 .lineBreak "\n", .onRow 4 ")\n" 0 .operator ")"]

theorem brokenLiterals_mem_stringRuns : brokenLiterals ∈ stringRuns :=
  mem_stringRuns.2 ⟨.onRow 1 "('a' # x\n" 1 .string "'a'",
    [⟨[.onRow 1 "('a' # x\n" 5 .comment "# x", .onRow 1 "('a' # x\n" 8 .lineBreak "\n"],
      .onRow 2 " 'b'\n" 1 .string "'b'", by decide, by decide⟩], by decide, rfl⟩

/-- The first comment is taken, and the second one is left. -/
theorem stringRule_takes_brokenLiterals :
    let c : Cursor := ⟨brokenLiterals ++ afterLiterals, none, none, [], []⟩
    ∃ parts, stringRule ⟨⟨.root, "Str", [1, 1]⟩, []⟩ [] c
        = .ok [element "Str" [] parts] (c.passing brokenLiterals afterLiterals) ∧
      parts.filter isElement = [labelled "s" "'a'", labelled "s" "'b'"] ∧
      contents parts = "'a' # x\n 'b'" := by
  intro c
  obtain ⟨run, left, parts, hr, -, hlongest, ⟨s, hlast, hs⟩, hrule, hparts, htext⟩ :=
    stringRule_takes_longest_run ⟨⟨.root, "Str", [1, 1]⟩, []⟩ [] (c := c) rfl rfl
      ⟨.onRow 4 ")\n" 0 .operator ")", by decide, by decide⟩
  have hends : ∀ w ∈ (brokenLiterals ++ afterLiterals).inits, w.getLast?.any isString = true →
      brokenLiterals <+: w → w = brokenLiterals := by decide
  have hrun := hends _ ((List.mem_inits _ _).2 ⟨left, hr.symm⟩) (by rw [hlast]; exact hs)
    (hlongest _ brokenLiterals_mem_stringRuns (List.prefix_append _ _))
  have hleft : left = afterLiterals := by
    rw [hrun] at hr
    exact (List.append_cancel_left hr).symm
  have htail : run = brokenLiterals.tail := congrArg List.tail hrun
  rw [hrun, hleft] at hrule
  rw [hrun] at hparts
  rw [htail] at htext
  exact ⟨parts, hrule, hparts, htext.trans (by decide)⟩

end Conversion

end SourceScribe
