/-
  Comments in the source of a grammar.

  A comment at the end of a line takes the line feed after it away, so its line is joined with
  the next one.  `Place` is a line of a source without a comment, and `read_commented` says
  what a comment does there, whatever it is: the source is read like the one in which the line
  is joined with the next.  Where lines can be joined (`Place.Harmless`) the same categories
  and types are read, and where both lines have an equals sign (`Place.Clash`) none at all.
-/
import SourceScribe.Proofs.Asdl.Joining

namespace SourceScribe.Asdl

open Text (beforeChars cutAfterBoundary cutAfterLineFeed unifyChars openLine ink)

/-! ## What definitions say -/

theorem clausesOf_append (ds es : List (Option String)) :
    clausesOf (ds ++ es) = clausesOf ds >>= fun cs => (clausesOf es).map (cs ++ ·) := by
  induction ds with
  | nil => exact (map_nil_append _).symm
  | cons d ds ih =>
    cases d with
    | none => rfl
    | some d =>
      rw [List.cons_append, clausesOf, clausesOf, ih]
      cases clauseOf d with
      | error f => rfl
      | ok c =>
        show ((clausesOf ds >>= fun cs => (clausesOf es).map (cs ++ ·)) >>= fun cs =>
          Except.ok (c :: cs)) = _
        cases clausesOf ds with
        | error f => rfl
        | ok cs => cases clausesOf es <;> rfl

/-- The clauses of definitions, one of which is looked at. -/
theorem clausesOf_middle {pre post : List (Option String)} {d : String} {cs : List Clause}
    (h : clausesOf (pre ++ some d :: post) = .ok cs) :
    ∃ before c behind, clausesOf pre = .ok before ∧ clauseOf d = .ok c ∧
      clausesOf post = .ok behind ∧ cs = before ++ c :: behind := by
  rw [clausesOf_append, clausesOf] at h
  cases hpre : clausesOf pre with
  | error f => rw [hpre] at h; cases h
  | ok before =>
    cases hd : clauseOf d with
    | error f => rw [hpre, hd] at h; cases h
    | ok c =>
      cases hpost : clausesOf post with
      | error f => rw [hpre, hd, hpost] at h; cases h
      | ok behind =>
        rw [hpre, hd, hpost] at h
        cases h
        exact ⟨before, c, behind, rfl, rfl, rfl, rfl⟩

/-- A definition cannot have two equals signs. -/
theorem clauseOf_clash {us vs : List Char} (hus : '=' ∈ us) (hvs : '=' ∈ vs) :
    clauseOf (String.ofList (us ++ vs)) = .error .severalEqualsSigns := by
  obtain ⟨init, rest, hinit, hrest, hsplit⟩ := Text.splitChars_mark_seam '=' us vs
  have hpieces := hsplit [] List.not_mem_nil
  rw [List.nil_append] at hpieces
  rw [clauseOf_ofList, hpieces]
  rcases init with _ | ⟨left, init⟩
  · exact absurd hus (hinit.1 rfl)
  rcases rest with _ | ⟨right, rest⟩
  · exact absurd hvs (hrest.1 rfl)
  cases init with
  | nil => rfl
  | cons more init => cases init <;> rfl

/-- Definitions that are alike say the same, but for white space in attributes. -/
theorem Alike.clausesOf {xs : List Char} {ds ds' : List (Option (List Char))} {cs : List Clause}
    (h : Alike xs ds ds') (hcs : Asdl.clausesOf (ds.map (Option.map String.ofList)) = .ok cs) :
    ∃ cs', Asdl.clausesOf (ds'.map (Option.map String.ofList)) = .ok cs' ∧
      cs'.map Clause.loose = cs.map Clause.loose ∧
      (¬ keyword <:+: ink (Text.afterLast '=' xs) → cs' = cs) := by
  rcases h with rfl | ⟨pre, d, d', post, rfl, rfl, h⟩
  · exact ⟨cs, hcs, rfl, fun _ => rfl⟩
  rw [List.map_append, List.map_cons, Option.map_some] at hcs
  obtain ⟨before, c, behind, hbefore, hc, hbehind, rfl⟩ := clausesOf_middle hcs
  obtain ⟨hloose, hsame⟩ := h.clauseOf
  rw [hc] at hloose hsame
  cases hc' : clauseOf (String.ofList d') with
  | error f => rw [hc'] at hloose; cases hloose
  | ok c' =>
    rw [hc'] at hloose hsame
    refine ⟨before ++ c' :: behind, ?_, ?_, fun hfree => ?_⟩
    · rw [List.map_append, List.map_cons, Option.map_some, clausesOf_append, Asdl.clausesOf,
        hbefore, hc', hbehind]
      rfl
    · rw [List.map_append, List.map_append, List.map_cons, List.map_cons, Except.ok.inj hloose]
    · rw [Except.ok.inj (hsame hfree)]

namespace Clause

theorem categoryEntry_loose (c : Clause) : c.loose.categoryEntry = c.categoryEntry := by
  simp [loose, categoryEntry, typeNames, NodeType.loose]

theorem typeEntries_loose (c : Clause) :
    c.loose.typeEntries = c.typeEntries.map fun e => (e.1, e.2.loose) := by
  simp [loose, typeEntries, NodeType.loose]

end Clause

/-- Clauses that differ by white space in attributes are stored as the same categories, and as
    types that differ by that. -/
theorem grammar_of_loose (pieces : List String) {cs cs' : List Clause}
    (h : cs'.map Clause.loose = cs.map Clause.loose) :
    (Outline.mk pieces cs').grammar.categories = (Outline.mk pieces cs).grammar.categories ∧
      (Outline.mk pieces cs').grammar.types.map (fun e => (e.1, e.2.loose))
        = (Outline.mk pieces cs).grammar.types.map fun e => (e.1, e.2.loose) := by
  have hcategories : ∀ cs : List Clause, (Outline.mk pieces cs).categoryEntries
      = (Outline.mk pieces (cs.map Clause.loose)).categoryEntries := by
    intro cs
    simp [Outline.categoryEntries, Function.comp_def, Clause.categoryEntry_loose]
  have htypes : ∀ cs : List Clause,
      (Outline.mk pieces cs).typeEntries.map (fun e => (e.1, e.2.loose))
        = (Outline.mk pieces (cs.map Clause.loose)).typeEntries := by
    intro cs
    simp [Outline.typeEntries, Function.comp_def, Clause.typeEntries_loose, List.map_flatMap,
      List.flatMap_map, NodeType.loose]
  refine ⟨?_, ?_⟩
  · rw [Outline.grammar_eq, Outline.grammar_eq]
    show Entries.update [] _ = Entries.update [] _
    rw [hcategories, hcategories cs, h]
  · rw [Outline.grammar_eq, Outline.grammar_eq]
    show (Entries.update [] _).map _ = (Entries.update [] _).map _
    rw [map_update, map_update, htypes, htypes, h]

/-! ## Braces -/

section

variable {ps qs w w' : List Char} (hw : '\x7b' ∉ w ∧ '\x7d' ∉ w) (hw' : '\x7b' ∉ w' ∧ '\x7d' ∉ w')

include hw hw'

/-- A seam that is not between the braces. -/
theorem bracesContent_outside (h : '\x7b' ∉ ps ∨ '\x7d' ∉ qs) :
    bracesContent (ps ++ (w ++ qs)) = bracesContent (ps ++ (w' ++ qs)) := by
  obtain ⟨init, rest, hinit, hrest, hopen⟩ := Text.splitChars_mark_seam '\x7b' ps qs
  rw [bracesContent, bracesContent, hopen w hw.1, hopen w' hw'.1]
  rcases init with _ | ⟨left, _ | ⟨more, init⟩⟩
  · -- both braces come after the seam
    rcases rest with _ | ⟨right, _ | ⟨more, rest⟩⟩ <;> rfl
  · cases rest with
    | cons more rest => rfl
    | nil =>
      -- both braces come before the seam
      have hps : ¬ '\x7b' ∉ ps := fun hno => List.cons_ne_nil _ _ (hinit.2 hno)
      rw [Text.beforeChars_eq_self (hrest.1 rfl)]
      obtain ⟨init, rest, -, hrest, hclose⟩ :=
        Text.splitChars_mark_seam '\x7d' (Text.afterLast '\x7b' ps) qs
      obtain rfl := hrest.2 (h.resolve_left hps)
      simp only [List.cons_append, List.nil_append, hclose w hw.2, hclose w' hw'.2]
      rcases init with _ | ⟨content, _ | ⟨more, _ | ⟨most, init⟩⟩⟩ <;> rfl
  · cases init <;> rfl

/-- A seam between the braces. -/
theorem bracesContent_inside {content : List Char} (hps : '\x7b' ∈ ps) (hqs : '\x7d' ∈ qs)
    (h : bracesContent (ps ++ (w ++ qs)) = .ok content) :
    content = Text.afterLast '\x7b' ps ++ (w ++ beforeChars ['\x7d'] qs) ∧
      bracesContent (ps ++ (w' ++ qs))
        = .ok (Text.afterLast '\x7b' ps ++ (w' ++ beforeChars ['\x7d'] qs)) := by
  obtain ⟨init, rest, hinit, hrest, hopen⟩ := Text.splitChars_mark_seam '\x7b' ps qs
  rw [bracesContent, hopen w hw.1] at h
  rw [bracesContent, hopen w' hw'.1]
  rcases init with _ | ⟨left, _ | ⟨more, init⟩⟩
  · exact absurd hps (hinit.1 rfl)
  · cases rest with
    | cons more rest => cases h
    | nil =>
      rw [Text.beforeChars_eq_self (hrest.1 rfl)] at h ⊢
      obtain ⟨init, rest, hinit, hrest, hclose⟩ :=
        Text.splitChars_mark_seam '\x7d' (Text.afterLast '\x7b' ps) qs
      simp only [List.cons_append, List.nil_append, hclose w hw.2, hclose w' hw'.2] at h ⊢
      rcases init with _ | ⟨before, init⟩
      · rw [Text.afterLast_eq_self (hinit.1 rfl)] at h ⊢
        rcases rest with _ | ⟨behind, _ | ⟨more, rest⟩⟩
        · exact absurd hqs (hrest.1 rfl)
        · cases h
          exact ⟨rfl, rfl⟩
        · cases h
      · rcases rest with _ | ⟨behind, rest⟩
        · exact absurd hqs (hrest.1 rfl)
        · rcases init with _ | ⟨more, _ | ⟨most, init⟩⟩ <;> cases h
  · cases init <;> cases h

end

/-! ## Lines with a comment -/

/-- A line without a hyphen at its end. -/
def trimHyphen (line : List Char) : List Char :=
  if line.getLast? = some '-' then line.dropLast else line

theorem isPrefix_trimHyphen (line : List Char) : trimHyphen line <+: line := by
  unfold trimHyphen
  split_ifs
  · exact List.dropLast_prefix line
  · exact List.prefix_refl line

/-- Before a comment, a line loses a hyphen at its end. -/
theorem exists_trimHyphen {line : List Char} (h : ¬ ['-', '-'] <:+: line) :
    (trimHyphen line).getLast? ≠ some '-' ∧
      ∃ hyphen, line = trimHyphen line ++ hyphen ∧ (hyphen = [] ∨ hyphen = ['-']) := by
  unfold trimHyphen
  split_ifs with hlast
  · obtain ⟨front, rfl⟩ := List.getLast?_eq_some_iff.1 hlast
    rw [List.dropLast_concat]
    refine ⟨fun hfront => h ?_, ['-'], rfl, .inr rfl⟩
    obtain ⟨front, rfl⟩ := List.getLast?_eq_some_iff.1 hfront
    exact ⟨front, [], by simp⟩
  · exact ⟨hlast, [], (List.append_nil line).symm, .inl rfl⟩

/-- Two hyphens do not lie across the end of a line without a hyphen there. -/
theorem apart_hyphens {xs : List Char} (h : xs.getLast? ≠ some '-') (ys : List Char) :
    Text.Apart ['-', '-'] xs ys := by
  refine Text.Parted.apart (.inl fun c hc hmem => h ?_)
  have hhyphen : c = '-' := by simpa using hmem
  rw [← hhyphen]
  exact hc

/-- What is left of a line with a comment. -/
theorem beforeChars_comment {line : List Char} (h : ¬ ['-', '-'] <:+: line) (comment : List Char) :
    beforeChars ['-', '-'] (line ++ '-' :: '-' :: comment) = trimHyphen line := by
  obtain ⟨hlast, hyphen, hline, hhyphen⟩ := exists_trimHyphen h
  have hfree : ¬ ['-', '-'] <:+: trimHyphen line :=
    fun hinside => h (hinside.trans (isPrefix_trimHyphen line).isInfix)
  have hstart : ∃ more, line ++ '-' :: '-' :: comment = trimHyphen line ++ '-' :: '-' :: more := by
    rcases hhyphen with rfl | rfl
    · exact ⟨comment, by conv_lhs => rw [hline, List.append_nil]⟩
    · exact ⟨'-' :: comment, by conv_lhs => rw [hline]; simp⟩
  obtain ⟨more, hmore⟩ := hstart
  rw [hmore, Text.beforeChars_append_of_apart (List.cons_ne_nil _ _) hfree (apart_hyphens hlast _)]
  simp [beforeChars]

/-- A text before the lines of another one, if neither line feeds nor two hyphens are in it or
    at its end. -/
theorem uncomment_append {xs : List Char} (hfeed : '\n' ∉ xs) (hfree : ¬ ['-', '-'] <:+: xs)
    (hlast : xs.getLast? ≠ some '-') (ys : List Char) :
    uncomment (cutAfterLineFeed (xs ++ ys)) = xs ++ uncomment (cutAfterLineFeed ys) := by
  have hbefore : ∀ l, beforeChars ['-', '-'] (xs ++ l) = xs ++ beforeChars ['-', '-'] l :=
    fun l => Text.beforeChars_append_of_apart (List.cons_ne_nil _ _) hfree (apart_hyphens hlast l)
  rw [Text.cutAfterLineFeed_open hfeed]
  cases cutAfterLineFeed ys with
  | nil =>
    have hall : beforeChars ['-', '-'] xs = xs := by simpa [beforeChars] using hbefore []
    by_cases hnil : xs = [] <;> simp [uncomment, hnil, hall]
  | cons l ls => simp [uncomment, hbefore]

theorem mem_of_mem_uncomment {c : Char} {ls : List (List Char)} (h : c ∈ uncomment ls) :
    c ∈ ls.flatten := by
  obtain ⟨l, hl, hc⟩ := List.mem_flatMap.1 h
  exact List.mem_flatten.2 ⟨l, hl, (Text.isPrefix_beforeChars (List.cons_ne_nil _ _) l).subset hc⟩

/-- An outline from a first line and the text of all lines without comments. -/
def outlineFrom (first cs : List Char) : Except Fault Outline := do
  let content ← bracesContent cs
  let ds ← gatherChars none (cutAfterBoundary content)
  let clauses ← clausesOf (ds.map (Option.map String.ofList))
  return ⟨Text.splitOn "," (String.ofList first), clauses⟩

theorem outline_eq_outlineFrom {s : String} {first : List Char} {rest : List (List Char)}
    (h : cutAfterLineFeed (unifyChars s.toList) = first :: rest) :
    outline s = outlineFrom first (uncomment (cutAfterLineFeed (unifyChars s.toList))) := by
  rw [outline_eq, outlineFrom]
  simp only [h, definitionChars]
  cases bracesContent (uncomment (first :: rest)) <;> rfl

theorem exists_of_outlineFrom {first cs : List Char} {o : Outline}
    (h : outlineFrom first cs = .ok o) :
    ∃ content ds clauses, bracesContent cs = .ok content ∧
      gatherChars none (cutAfterBoundary content) = .ok ds ∧
      clausesOf (ds.map (Option.map String.ofList)) = .ok clauses ∧
      o = ⟨Text.splitOn "," (String.ofList first), clauses⟩ := by
  rw [outlineFrom] at h
  cases hcontent : bracesContent cs with
  | error f => rw [hcontent] at h; cases h
  | ok content =>
    cases hds : gatherChars none (cutAfterBoundary content) with
    | error f => simp only [hcontent, bind, Except.bind, hds] at h; cases h
    | ok ds =>
      cases hclauses : clausesOf (ds.map (Option.map String.ofList)) with
      | error f => simp only [hcontent, bind, Except.bind, hds, hclauses] at h; cases h
      | ok clauses =>
        simp only [hcontent, bind, Except.bind, hds, hclauses] at h
        cases h
        exact ⟨content, ds, clauses, rfl, hds, hclauses, rfl⟩

/-! ## Places for comments -/

/-- A line of a source, not the first one, that has no comment. -/
structure Place where
  /-- The lines above. -/
  above : List Char
  line : List Char
  /-- The end of the line, and the lines below. -/
  below : List Char
  after : above.getLast? = some '\n' ∨ above.getLast? = some '\r'
  unbroken : '\n' ∉ line ∧ '\r' ∉ line
  bare : ¬ ['-', '-'] <:+: line
  ended : below.head? = some '\n' ∨ below.head? = some '\r'
  /-- An empty line is not in the middle of the end of a line. -/
  whole : line = [] → above.getLast? = some '\r' → below.head? ≠ some '\n'

namespace Place

variable (p : Place)

/-- The source. -/
def text : String := String.ofList (p.above ++ (p.line ++ p.below))

/-- The source with a comment at the end of the line. -/
def commented (comment : List Char) : String :=
  String.ofList (p.above ++ (p.line ++ ('-' :: '-' :: comment ++ p.below)))

/-- The lines below. -/
def later : List Char := (unifyChars p.below).tail

/-- The source in which the line goes on in the next one.  A hyphen at its end is lost. -/
def joined : String := String.ofList (unifyChars p.above ++ (trimHyphen p.line ++ p.later))

/-- All up to the end of the line, without comments. -/
def head : List Char := uncomment (cutAfterLineFeed (unifyChars p.above)) ++ p.line

/-- The lines below, without comments. -/
def tail : List Char := uncomment (cutAfterLineFeed p.later)

/-- All up to the end of the line without a hyphen there. -/
def stem : List Char := uncomment (cutAfterLineFeed (unifyChars p.above)) ++ trimHyphen p.line

theorem unifyChars_below : unifyChars p.below = '\n' :: p.later := by
  obtain ⟨rest, hrest⟩ := Text.exists_unifyChars_cons p.ended
  rw [later, hrest]
  rfl

theorem getLast?_above : (unifyChars p.above).getLast? = some '\n' := by
  rw [Text.getLast?_unifyChars]
  rcases p.after with h | h <;> rw [h] <;> rfl

theorem unifyChars_line {ys : List Char}
    (h : p.line = [] → p.above.getLast? = some '\r' → ys.head? ≠ some '\n') :
    unifyChars (p.above ++ (p.line ++ ys)) = unifyChars p.above ++ (p.line ++ unifyChars ys) := by
  have hline : unifyChars (p.line ++ ys) = p.line ++ unifyChars ys := by
    rw [Text.unifyChars_append fun hlast => absurd (List.mem_of_getLast? hlast) p.unbroken.2,
      Text.unifyChars_eq p.unbroken.2]
  rw [Text.unifyChars_append, hline]
  intro hlast
  cases hnil : p.line with
  | nil => exact h hnil hlast
  | cons c cs =>
    rintro ⟨⟩
    exact p.unbroken.1 (hnil ▸ List.mem_cons_self)

theorem unifyChars_text :
    unifyChars p.text.toList = unifyChars p.above ++ (p.line ++ '\n' :: p.later) := by
  rw [text, String.toList_ofList, p.unifyChars_line p.whole, p.unifyChars_below]

theorem unifyChars_commented {comment : List Char} (h : '\n' ∉ comment ∧ '\r' ∉ comment) :
    unifyChars (p.commented comment).toList
      = unifyChars p.above ++ (p.line ++ ('-' :: '-' :: comment ++ '\n' :: p.later)) := by
  have hreturn : '\r' ∉ '-' :: '-' :: comment := by simpa using h.2
  rw [commented, String.toList_ofList, p.unifyChars_line (by simp),
    Text.unifyChars_append fun hlast => absurd (List.mem_of_getLast? hlast) hreturn,
    Text.unifyChars_eq hreturn, p.unifyChars_below]

theorem not_mem_later : '\r' ∉ p.later := by
  have hbelow := Text.not_mem_unifyChars p.below
  rw [p.unifyChars_below] at hbelow
  exact fun hc => hbelow (List.mem_cons_of_mem _ hc)

theorem unifyChars_joined :
    unifyChars p.joined.toList = unifyChars p.above ++ (trimHyphen p.line ++ p.later) := by
  rw [joined, String.toList_ofList]
  apply Text.unifyChars_eq
  simp only [List.mem_append, not_or]
  exact ⟨Text.not_mem_unifyChars _,
    fun hc => p.unbroken.2 ((isPrefix_trimHyphen _).subset hc), p.not_mem_later⟩

theorem cut_above (ys : List Char) : cutAfterLineFeed (unifyChars p.above ++ ys)
    = cutAfterLineFeed (unifyChars p.above) ++ cutAfterLineFeed ys := by
  refine Text.cutAfterLineFeed_append_lines (fun c hc => ?_) ys
  rw [p.getLast?_above] at hc
  cases hc
  rfl

theorem uncomment_text : uncomment (cutAfterLineFeed (unifyChars p.text.toList))
    = p.head ++ '\n' :: p.tail := by
  have hline : beforeChars ['-', '-'] (p.line ++ ['\n']) = p.line ++ ['\n'] :=
    Text.beforeChars_append_of_apart (List.cons_ne_nil _ _) p.bare
      (Text.Parted.apart (.inr (by simp)))
  rw [p.unifyChars_text, p.cut_above, Text.cutAfterLineFeed_append p.unbroken.1, head, tail]
  simp [uncomment, hline]

theorem uncomment_commented {comment : List Char} (h : '\n' ∉ comment ∧ '\r' ∉ comment) :
    uncomment (cutAfterLineFeed (unifyChars (p.commented comment).toList)) = p.stem ++ p.tail := by
  have hfeed : '\n' ∉ p.line ++ '-' :: '-' :: comment := by
    simpa [not_or] using ⟨p.unbroken.1, h.1⟩
  have hline : beforeChars ['-', '-'] (p.line ++ '-' :: '-' :: comment ++ ['\n'])
      = trimHyphen p.line := by
    rw [List.append_assoc]
    exact beforeChars_comment p.bare (comment ++ ['\n'])
  have hcut := Text.cutAfterLineFeed_append hfeed p.later
  rw [List.append_assoc] at hcut
  rw [p.unifyChars_commented h, p.cut_above, hcut, uncomment, List.flatMap_append,
    List.flatMap_cons, hline, ← List.append_assoc]
  rfl

theorem uncomment_joined :
    uncomment (cutAfterLineFeed (unifyChars p.joined.toList)) = p.stem ++ p.tail := by
  have hbegin := isPrefix_trimHyphen p.line
  have hlast := (exists_trimHyphen p.bare).1
  have hline := uncomment_append (fun hc => p.unbroken.1 (hbegin.subset hc))
    (fun hinside => p.bare (hinside.trans hbegin.isInfix)) hlast p.later
  rw [p.unifyChars_joined, p.cut_above, stem, tail, List.append_assoc, ← hline]
  simp only [uncomment, List.flatMap_append]

/-- The first line does not depend on what comes at the place. -/
theorem exists_first : ∃ first, ∀ ys, ∃ rest,
    cutAfterLineFeed (unifyChars p.above ++ ys) = first :: rest := by
  cases hlines : cutAfterLineFeed (unifyChars p.above) with
  | nil =>
    have hflatten := Text.cutAfterLineFeed_flatten (unifyChars p.above)
    have hlast := p.getLast?_above
    rw [← hflatten, hlines] at hlast
    cases hlast
  | cons first rest => exact ⟨first, fun ys => ⟨_, by rw [p.cut_above, hlines]; rfl⟩⟩

/-- The outlines of the three sources. -/
theorem exists_outlines {comment : List Char} (h : '\n' ∉ comment ∧ '\r' ∉ comment) :
    ∃ first, outline p.text = outlineFrom first (p.head ++ '\n' :: p.tail) ∧
      outline (p.commented comment) = outlineFrom first (p.stem ++ p.tail) ∧
      outline p.joined = outlineFrom first (p.stem ++ p.tail) := by
  obtain ⟨first, hfirst⟩ := p.exists_first
  refine ⟨first, ?_, ?_, ?_⟩
  · obtain ⟨rest, hrest⟩ := hfirst (p.line ++ '\n' :: p.later)
    rw [← p.unifyChars_text] at hrest
    rw [outline_eq_outlineFrom hrest, p.uncomment_text]
  · obtain ⟨rest, hrest⟩ := hfirst (p.line ++ ('-' :: '-' :: comment ++ '\n' :: p.later))
    rw [← p.unifyChars_commented h] at hrest
    rw [outline_eq_outlineFrom hrest, p.uncomment_commented h]
  · obtain ⟨rest, hrest⟩ := hfirst (trimHyphen p.line ++ p.later)
    rw [← p.unifyChars_joined] at hrest
    rw [outline_eq_outlineFrom hrest, p.uncomment_joined]

/-! ## What a comment does -/

/-- The place is not between the braces. -/
def Outside : Prop := '\x7b' ∉ p.head ∨ '\x7d' ∉ p.tail

/-- The definitions up to the end of the line. -/
def before : List Char := Text.afterLast '\x7b' p.head

/-- The definitions on the lines below. -/
def behind : List Char := beforeChars ['\x7d'] p.tail

/-- A comment does no harm: the place is not between the braces, or the line has no hyphen at
    its end and can be joined with the next one. -/
def Harmless : Prop := p.Outside ∨ p.line.getLast? ≠ some '-' ∧ Fits p.before p.behind

/-- A comment before which the attributes of its definition have not begun. -/
def BeforeAttributes : Prop :=
  p.Outside ∨ ¬ keyword <:+: ink (Text.afterLast '=' p.before)

/-- A comment between two lines on which definitions begin. -/
def Clash : Prop :=
  ¬ p.Outside ∧ p.line.getLast? ≠ some '-' ∧ '=' ∈ openLine p.before ∧
    ∃ b ∈ (cutAfterBoundary p.behind).head?, '=' ∈ b

theorem not_mem_before : '\r' ∉ p.before := by
  intro hc
  rcases List.mem_append.1 ((Text.isSuffix_afterLast _ _).subset hc) with hc | hc
  · have hmem := mem_of_mem_uncomment hc
    rw [Text.cutAfterLineFeed_flatten] at hmem
    exact Text.not_mem_unifyChars _ hmem
  · exact p.unbroken.2 hc

theorem stem_eq_head (h : p.line.getLast? ≠ some '-') : p.stem = p.head := by
  rw [stem, head, trimHyphen, if_neg h]

/-- Not between the braces, a comment changes nothing. -/
theorem outlineFrom_outside (h : p.Outside) (first : List Char) :
    outlineFrom first (p.stem ++ p.tail) = outlineFrom first (p.head ++ '\n' :: p.tail) := by
  obtain ⟨-, hyphen, hline, hhyphen⟩ := exists_trimHyphen p.bare
  have hhead : p.head = p.stem ++ hyphen := by
    rw [head, stem, List.append_assoc, ← hline]
  have hcontent : bracesContent (p.stem ++ ([] ++ p.tail))
      = bracesContent (p.stem ++ ((hyphen ++ ['\n']) ++ p.tail)) := by
    refine bracesContent_outside ⟨List.not_mem_nil, List.not_mem_nil⟩ ?_ ?_
    · rcases hhyphen with rfl | rfl <;> decide
    · exact h.imp_left fun hno hc => hno (hhead ▸ List.mem_append_left _ hc)
  rw [outlineFrom, outlineFrom, hhead]
  simp only [List.nil_append, List.append_assoc, List.singleton_append] at hcontent ⊢
  rw [hcontent]

/-- Between the braces, the text of the definitions loses a line feed. -/
theorem exists_of_inside (h : ¬ p.Outside) (hline : p.line.getLast? ≠ some '-') {first : List Char}
    {o : Outline} (ho : outlineFrom first (p.head ++ '\n' :: p.tail) = .ok o) :
    ∃ ds clauses, gatherChars none (cutAfterBoundary (p.before ++ '\n' :: p.behind)) = .ok ds ∧
      clausesOf (ds.map (Option.map String.ofList)) = .ok clauses ∧
      o = ⟨Text.splitOn "," (String.ofList first), clauses⟩ ∧
      bracesContent (p.stem ++ p.tail) = .ok (p.before ++ p.behind) := by
  obtain ⟨content, ds, clauses, hcontent, hds, hclauses, rfl⟩ := exists_of_outlineFrom ho
  rw [Outside, not_or, not_not, not_not] at h
  have hfeed : '\x7b' ∉ ['\n'] ∧ '\x7d' ∉ ['\n'] := by decide
  obtain ⟨rfl, hjoined⟩ := bracesContent_inside hfeed ⟨List.not_mem_nil, List.not_mem_nil⟩ h.1 h.2
    hcontent
  rw [p.stem_eq_head hline]
  exact ⟨ds, clauses, hds, hclauses, rfl, hjoined⟩

/-- A harmless comment changes at most white space in attributes. -/
theorem outlineFrom_harmless (h : p.Harmless) {first : List Char} {o : Outline}
    (ho : outlineFrom first (p.head ++ '\n' :: p.tail) = .ok o) :
    ∃ clauses, outlineFrom first (p.stem ++ p.tail) = .ok ⟨o.pieces, clauses⟩ ∧
      clauses.map Clause.loose = o.clauses.map Clause.loose ∧
      (p.BeforeAttributes → clauses = o.clauses) := by
  by_cases hout : p.Outside
  · exact ⟨o.clauses, by rw [p.outlineFrom_outside hout, ho], rfl, fun _ => rfl⟩
  obtain ⟨hline, hfits⟩ := h.resolve_left hout
  obtain ⟨ds, clauses, hds, hclauses, rfl, hcontent⟩ := p.exists_of_inside hout hline ho
  obtain ⟨ds', hds', halike⟩ := gatherChars_joined p.not_mem_before hfits hds
  obtain ⟨clauses', hclauses', hloose, hsame⟩ := halike.clausesOf hclauses
  refine ⟨clauses', ?_, hloose, fun hbefore => hsame (hbefore.resolve_left hout)⟩
  rw [outlineFrom, hcontent]
  simp only [bind, Except.bind, hds', hclauses']
  rfl

/-- Two definitions that become one have two equals signs. -/
theorem outlineFrom_clash (h : p.Clash) {first : List Char} {o : Outline}
    (ho : outlineFrom first (p.head ++ '\n' :: p.tail) = .ok o) :
    outlineFrom first (p.stem ++ p.tail) = .error .severalEqualsSigns := by
  obtain ⟨hout, hline, hxs, b, hb, hequals⟩ := h
  obtain ⟨bs, hbs⟩ := List.head?_eq_some_iff.1 hb
  obtain ⟨ds, clauses, hds, hclauses, rfl, hcontent⟩ := p.exists_of_inside hout hline ho
  obtain ⟨pre, more, post, rfl, hds'⟩ := gatherChars_clash p.not_mem_before hxs hbs hequals hds
  rw [List.map_append, List.map_cons, Option.map_some] at hclauses
  obtain ⟨before, -, -, hpre, -⟩ := clausesOf_middle hclauses
  have herror : clausesOf ((pre ++ some (openLine p.before ++ b ++ more) :: post).map
      (Option.map String.ofList)) = .error .severalEqualsSigns := by
    rw [List.map_append, List.map_cons, Option.map_some, clausesOf_append, hpre, clausesOf,
      List.append_assoc, clauseOf_clash hxs (List.mem_append_left more hequals)]
    rfl
  rw [outlineFrom, hcontent]
  simp only [bind, Except.bind, hds', herror]

end Place

/-- **What a comment does.**  A source with a comment at the end of a line is read like the
    source in which that line goes on in the next one.  If the source without the comment can
    be read and the comment is harmless, the same categories and the same types are read from
    the source with it, but for white space in attributes, and just the same grammar if the
    attributes of the definition have not begun.  If definitions begin on that line and on the
    next one, the source with the comment cannot be read. -/
theorem read_commented (p : Place) {comment : List Char} {g : Grammar}
    (hcomment : '\n' ∉ comment ∧ '\r' ∉ comment) (hread : Grammar.read p.text = .ok g) :
    Grammar.read (p.commented comment) = Grammar.read p.joined ∧
      (p.Harmless → ∃ g', Grammar.read (p.commented comment) = .ok g' ∧
        g'.categories = g.categories ∧
        g'.types.map (fun t => (t.1, t.2.loose)) = g.types.map (fun t => (t.1, t.2.loose)) ∧
        (p.BeforeAttributes → g' = g)) ∧
      (p.Clash → Grammar.read (p.commented comment) = .error .severalEqualsSigns) := by
  obtain ⟨first, htext, hcommented, hjoined⟩ := p.exists_outlines hcomment
  rw [read_eq_outline, htext] at hread
  cases ho : outlineFrom first (p.head ++ '\n' :: p.tail) with
  | error f => rw [ho] at hread; cases hread
  | ok o =>
    rw [ho] at hread
    cases hread
    refine ⟨?_, fun hharmless => ?_, fun hclash => ?_⟩
    · rw [read_eq_outline, read_eq_outline, hcommented, hjoined]
    · obtain ⟨clauses, hclauses, hloose, hsame⟩ := p.outlineFrom_harmless hharmless ho
      obtain ⟨hcategories, htypes⟩ := grammar_of_loose o.pieces hloose
      refine ⟨_, by rw [read_eq_outline, hcommented, hclauses]; rfl, hcategories, htypes, ?_⟩
      intro hbefore
      rw [hsame hbefore]
    · rw [read_eq_outline, hcommented, p.outlineFrom_clash hclash ho]
      rfl

/-- A line before one that begins with a bar. -/
def barPlace : Place where
  above := "-- are b\n\x7b\n".toList
  line := "x = A".toList
  below := "\n| B(b n)\ny = C\nz = D\n\x7d\n".toList
  after := by decide
  unbroken := by decide
  bare := by decide
  ended := by decide
  whole := by decide

/-- A line of the same source before one on which a definition begins. -/
def equalsPlace : Place where
  above := "-- are b\n\x7b\nx = A\n| B(b n)\n".toList
  line := "y = C".toList
  below := "\nz = D\n\x7d\n".toList
  after := by decide
  unbroken := by decide
  bare := by decide
  ended := by decide
  whole := by decide

/-- What their source says. -/
def placesOutline : Outline :=
  ⟨["-- are b\n"],
    [⟨"x", [⟨"A", "x", [], []⟩, ⟨"B", "x", [⟨"n", "b", ""⟩], []⟩]⟩,
     ⟨"y", [⟨"C", "y", [], []⟩]⟩, ⟨"z", [⟨"D", "z", [], []⟩]⟩]⟩

theorem outline_barPlace : outline barPlace.text = .ok placesOutline := by
  rw [outline_eq]
  cbv

theorem harmless_barPlace : barPlace.Harmless := by
  unfold Place.Harmless Fits
  exact .inr (by decide +kernel)

theorem clash_equalsPlace : equalsPlace.Clash := by
  unfold Place.Clash Place.Outside
  decide +kernel

/-- A comment on the first line does nothing, one on the other makes the source unreadable. -/
theorem read_commented_places :
    barPlace.text = equalsPlace.text ∧ barPlace.Harmless ∧ equalsPlace.Clash ∧
      ∃ g, Grammar.read barPlace.text = .ok g ∧
        Grammar.read (barPlace.commented " c".toList) = .ok g ∧
        Grammar.read (equalsPlace.commented " c".toList) = .error .severalEqualsSigns := by
  have htext : barPlace.text = equalsPlace.text := by decide +kernel
  have hcomment : '\n' ∉ " c".toList ∧ '\r' ∉ " c".toList := by decide
  have hread : Grammar.read barPlace.text = .ok placesOutline.grammar := by
    rw [read_eq_outline, outline_barPlace]
    rfl
  obtain ⟨-, hharmless, -⟩ := read_commented barPlace hcomment hread
  obtain ⟨g, hg, -, -, hsame⟩ := hharmless harmless_barPlace
  obtain ⟨-, -, hclash⟩ := read_commented equalsPlace hcomment (htext ▸ hread)
  refine ⟨htext, harmless_barPlace, clash_equalsPlace, _, hread, ?_, hclash clash_equalsPlace⟩
  rw [hg, hsame (.inr (by decide +kernel))]

end SourceScribe.Asdl
