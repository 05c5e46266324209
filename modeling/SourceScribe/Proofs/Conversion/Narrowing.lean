/-
  Wide characters in literals and comments.

  The tree counts columns in bytes and the tokens count them in characters.  A source and
  its twin, which has an `a` in place of every wide character and all its columns in
  characters, are converted in step as long as no column in bytes is taken for one in
  characters.  That happens in two places: an opening parenthesis is compared with the
  recorded place of an expression, and the place of a binary operation is compared with the
  start of its left operand.

  `convertSource_twin`: with that left out, both conversions succeed or both fail, and what
  they write differs only in the characters replaced.
-/
import SourceScribe.Conversion.Source
import SourceScribe.Proofs.Conversion.InStep.Trees
import SourceScribe.Proofs.Text.Narrow
import SourceScribe.Proofs.Token.Spelling

namespace SourceScribe

open Text

/-! ## Characters and places -/

/-- The second text has, character by character, the same as the first, or an `a` in place
    of a wide character. -/
def Text.Narrowed (s s' : String) : Prop :=
  List.Forall₂ (fun c c' => c' = c ∨ c' = narrowChar c) s.toList s'.toList

theorem Text.narrowed_narrow (s : String) : Narrowed s (narrow s) := by
  rw [Narrowed, toList_narrow]
  exact List.forall₂_map_right_iff.2 (List.forall₂_same.2 fun _ _ => .inr rfl)

/-- Where the character at a place in bytes stands. -/
def Position.Counts (lines : List String) (p p' : Position) : Prop :=
  ∃ line k, signedGet? lines (p.row - 1) = some line ∧ k < line.toList.length ∧
    p.column = bytesBefore line.toList k ∧ p' = ⟨p.row, k⟩

/-- Places in bytes match places in characters, and a wide character matches `a`. -/
def narrowing (lines : List String) : Likeness where
  letter c c' := c' = c ∨ c' = narrowChar c
  place := Position.Counts lines
  refl _ := .inl rfl
  place_lt := by
    rintro p _ q _ ⟨line, j, hline, hj, hp, rfl⟩ ⟨line', k, hline', hk, hq, rfl⟩
    rw [Position.lt_iff, Position.lt_iff, hp, hq]
    refine or_congr Iff.rfl (and_congr_right fun hrow => ?_)
    rw [hrow, hline'] at hline
    cases hline
    rw [Int.ofNat_lt, Int.ofNat_lt, bytesBefore_lt_iff (Nat.le_of_lt hj) (Nat.le_of_lt hk)]

theorem signedGet?_map {α β : Type} (f : α → β) (xs : List α) (i : Int) :
    signedGet? (xs.map f) i = (signedGet? xs i).map f := by
  simp only [signedGet?, List.length_map, List.getElem?_map]
  split
  · rfl
  · split <;> rfl

theorem keepsMarks_narrowing (lines : List String) : Markup.KeepsMarks (narrowing lines) := by
  intro c c' h
  by_cases hc : c.utf8Size = 1
  · obtain rfl | rfl := h
    · exact .inl rfl
    · exact .inl (narrowChar_of_oneByte hc).symm
  · have hplain (d : Char) (hd : d ∉ ['"', '&', '<', '>']) :
        Markup.escapeValueChar d = [d] ∧ Markup.escapeTextChar d = [d] := by
      simp only [List.mem_cons, List.not_mem_nil, or_false, not_or] at hd
      simp [Markup.escapeValueChar, Markup.escapeTextChar, hd]
    have hwide : c ∉ ['"', '&', '<', '>'] := by
      intro hmem
      simp only [List.mem_cons, List.not_mem_nil, or_false] at hmem
      rcases hmem with rfl | rfl | rfl | rfl <;> exact hc rfl
    have hletter : c' ∉ ['"', '&', '<', '>'] := by
      obtain rfl | rfl := h
      · exact hwide
      · rw [narrowChar, if_neg hc]
        decide
    obtain ⟨hvalue, htext⟩ := hplain c hwide
    obtain ⟨hvalue', htext'⟩ := hplain c' hletter
    exact .inr ⟨hvalue, hvalue', htext, htext'⟩

theorem keepsMarks_same : Markup.KeepsMarks .same := fun _ _ h => .inl h

theorem Text.Matches.eq {s s' : String} (h : Text.Matches .same s s') : s = s' := by
  have hlist : List.Forall₂ (· = ·) s.toList s'.toList := h
  rw [List.forall₂_eq_eq_eq] at hlist
  exact String.toList_inj.1 hlist

/-! ## Tokens -/

namespace Token

/-- The token with an `a` in place of every wide character. -/
def narrow (t : Token) : Token := { t with text := Text.narrow t.text, line := Text.narrow t.line }

/-- Whether the token has wide characters only if it is a literal or a comment, and shows by
    a quote or a hash that it is one. -/
def isLegible (t : Token) : Bool :=
  if t.kind = .string ∨ t.kind = .comment then !isWord t.text else isOneByte t.text

theorem isWord_narrow (s : String) : isWord (Text.narrow s) = isWord s := by
  rw [isWord, isWord, toList_narrow, List.all_map]
  refine List.all_congr rfl fun c => decide_eq_decide.2 (not_congr ?_)
  simp only [List.mem_cons, List.not_mem_nil, or_false]
  rw [narrowChar_eq_iff (m := '#') rfl (by decide), narrowChar_eq_iff (m := '\'') rfl (by decide),
    narrowChar_eq_iff (m := '"') rfl (by decide)]

theorem matches_narrow {lines : List String} {t : Token} (h : t.isLegible = true) :
    t.Matches (narrowing lines) t.narrow := by
  suffices hsame : t.exact = t.narrow.exact ∧
      ∀ w, isWord w = true → (t.text = w ↔ t.narrow.text = w) from
    ⟨rfl, hsame.1, rfl, rfl, narrowed_narrow _, narrowed_narrow _, hsame.2⟩
  rw [isLegible] at h
  by_cases hkind : t.kind = .string ∨ t.kind = .comment
  · -- no operator, and no word: neither text is one
    rw [if_pos hkind, Bool.not_eq_true'] at h
    have hoperator : t.kind ≠ .operator := by rcases hkind with hkind | hkind <;> simp [hkind]
    refine ⟨?_, fun w hw => ⟨?_, ?_⟩⟩
    · have hsame : t.narrow.kind = t.kind := rfl
      rw [exact, exact, hsame, if_neg hoperator, if_neg hoperator]
    · rintro rfl
      rw [h] at hw
      cases hw
    · rintro rfl
      rw [narrow, isWord_narrow, h] at hw
      cases hw
  · rw [if_neg hkind] at h
    have htext : t.narrow.text = t.text := narrow_of_isOneByte h
    refine ⟨?_, fun w _ => by rw [htext]⟩
    rw [exact, exact, htext]
    rfl

end Token

namespace Conversion

/-! ## Starts -/

variable {lines lines' : List String}

section
variable {r r' : NodeRef} (h : Option.Rel (narrowing lines).place r.start? r'.start?)
include h

/-- A place in bytes and the place of its character are read as the same place. -/
theorem recordedStart_cases :
    (r.start? = none ∧ r'.start? = none ∧ recordedStart lines r = .error .noPosition ∧
      recordedStart (lines.map narrow) r' = .error .noPosition) ∨
    ∃ p', r'.start? = some p' ∧ recordedStart lines r = .ok p' ∧
      recordedStart (lines.map narrow) r' = .ok p' := by
  simp only [recordedStart]
  generalize r.start? = o, r'.start? = o' at h
  cases h with
  | none => exact .inl ⟨rfl, rfl, rfl, rfl⟩
  | some h =>
    obtain ⟨line, k, hline, hk, hcolumn, rfl⟩ := h
    refine .inr ⟨_, rfl, ?_, ?_⟩
    · simp only [hline, hcolumn, characterColumn?_bytesBefore hk]
    · simp only [signedGet?_map, hline, Option.map_some, characterColumn?, isOneByte_narrow,
        if_true]

theorem recordedStart_twin : recordedStart lines r = recordedStart (lines.map narrow) r' := by
  obtain ⟨-, -, hr, hr'⟩ | ⟨p', -, hr, hr'⟩ := recordedStart_cases h
  · rw [hr, hr']
  · rw [hr, hr']

theorem toOption_recordedStart_twin : (recordedStart lines r).toOption = r'.start? := by
  obtain ⟨-, hnone, hr, -⟩ | ⟨p', hsome, hr, -⟩ := recordedStart_cases h
  · rw [hr, hnone]
    rfl
  · rw [hr, hsome]
    rfl

theorem start?_inCharacters_twin : (inCharacters lines r).start? = r'.start? := by
  rw [inCharacters]
  obtain ⟨hnone, hnone', hr, -⟩ | ⟨p', hsome, hr, -⟩ := recordedStart_cases h
  · simp only [hr]
    rw [hnone, hnone']
  · simp only [hr]
    rw [hsome]
    rfl

end

theorem cls_inCharacters (lines : List String) (r : NodeRef) :
    (inCharacters lines r).cls = r.cls := by
  rw [inCharacters]
  split <;> rfl

/-- The start of a node is told by its place and by the starts of its fields. -/
theorem startOfNode_congr {r r' : NodeRef} {fields fields' : List (String × Part)}
    (hcls : r.cls = r'.cls) (hbinary : r.cls = "BinOp" → r.start? = r'.start?)
    (hother : r.cls ≠ "BinOp" → recordedStart lines r = recordedStart lines' r')
    (hfields : ∀ name, Option.Rel (fun p q => p.start = q.start) (fields.lookup name)
      (fields'.lookup name)) :
    startOfNode lines r fields = startOfNode lines' r' fields' := by
  have hfield (name : String) : startOfField fields name = startOfField fields' name := by
    have h := hfields name
    rw [startOfField, startOfField]
    generalize fields.lookup name = o, fields'.lookup name = o' at h
    cases h with
    | none => rfl
    | some h => exact h
  rw [startOfNode, startOfNode, ← hcls, hfield, hfield]
  split
  · rfl
  split
  · rfl
  split
  · rename_i hcls
    have hleft := hfields "left"
    rw [hbinary hcls]
    generalize fields.lookup "left" = o, fields'.lookup "left" = o' at hleft
    cases hleft with
    | none => rfl
    | some hleft =>
      cases r'.start? with
      | none => rfl
      | some p => simp only [hleft]
  · rename_i hcls
    exact hother hcls

/-- Trees that are the same start at the same place. -/
theorem start_toPart_same {t t' : Tree} (h : t.Matches .same t') (path : Path) :
    (toPart lines path t).start = (toPart lines path t').start := by
  refine Tree.Matches.inductionOn
    (P := fun t t' => ∀ path, (toPart lines path t).start = (toPart lines path t').start)
    ?_ ?_ ?_ h path
  · intro v v' _ path
    rw [toPart, toPart]
    rfl
  · intro items items' _ path
    rw [toPart, toPart]
    rfl
  · intro cls places places' fields fields' h ih path
    cases h with
    | node _ hplace _ _ =>
      have hsame : Tree.startOf? places = Tree.startOf? places' := eq_of_rel hplace
      rw [toPart, toPart]
      refine startOfNode_congr rfl (fun _ => hsame) (fun _ => ?_) fun name => ?_
      · rw [recordedStart, recordedStart, NodeRef.start?, NodeRef.start?, hsame]
      · rw [lookup_toFields, lookup_toFields]
        exact rel_map (lookup_rel ih name) fun _ _ ht => ht _

/-- A tree starts, with all columns in characters, where its twin does. -/
theorem start_watched {t t' : Tree} (h : t.Matches (narrowing lines) t') (path : Path) :
    (watched lines path t).start = (toPart (lines.map narrow) path t').start := by
  refine Tree.Matches.inductionOn (P := fun t t' => ∀ path,
    (watched lines path t).start = (toPart (lines.map narrow) path t').start) ?_ ?_ ?_ h path
  · intro v v' _ path
    rw [watched, toPart]
    rfl
  · intro items items' _ path
    rw [watched, toPart]
    rfl
  · intro cls places places' fields fields' h ih path
    cases h with
    | node _ hplace _ _ =>
      have hfields (name : String) : Option.Rel (fun p q => p.start = q.start)
          ((watchedFields lines path fields).lookup name)
          ((toFields (lines.map narrow) path fields').lookup name) := by
        rw [lookup_watchedFields, lookup_toFields]
        exact rel_map (lookup_rel ih name) fun _ _ ht => ht _
      rw [watched, toPart]
      show startInCharacters _ _ _ = _
      rw [startInCharacters]
      by_cases hcls : cls = "BinOp"
      · rw [if_pos hcls]
        exact startOfNode_congr (cls_inCharacters _ _) (fun _ => start?_inCharacters_twin hplace)
          (fun hnot => absurd ((cls_inCharacters _ _).trans hcls) hnot) hfields
      · rw [if_neg hcls]
        exact startOfNode_congr rfl (fun h => absurd h hcls) (fun _ => recordedStart_twin hplace)
          hfields

/-! ## Sources and their twins -/

/-- The twin of a source: an `a` stands for every wide character, all of which are in
    literals and comments, and the places of the tree are in characters. -/
structure Parsed.Twin (o : Origin) (x x' : Parsed) : Prop where
  text : x'.text = narrow x.text
  tree : x.tree.Matches (narrowing (o.lines x.text)) x'.tree
  tokens : x'.tokens = x.tokens.map Token.narrow
  legible : ∀ t ∈ x.tokens, t.isLegible = true

/-- Whether the conversion of a source comes to no expression at which a place in bytes
    makes a difference. -/
def Parsed.ignoresWidth (o : Origin) (x : Parsed) : Bool :=
  match Cursor.start? x.tokens with
  | none => true
  | some c =>
    match rootRule (watched (o.lines x.text) .root x.tree) c with
    | .error f _ => f.cause ≠ .rowWithoutColumn
    | .ok .. => true

theorem Origin.lines_narrow (o : Origin) (s : String) :
    o.lines (narrow s) = (o.lines s).map narrow := by
  cases o with
  | memory => exact physicalLines_narrow s
  | file =>
    rw [Origin.lines, Origin.lines, unifyNewlines_narrow]
    exact physicalLines_narrow _

/-- The watched conversion of a source goes in step with the conversion of its twin. -/
theorem watched_twin {t t' : Tree} (h : t.Matches (narrowing lines) t') :
    (watched lines .root t).Matches (narrowing lines) (toPart (lines.map narrow) .root t') := by
  refine watched_matches (fun r r' c hplace hside => ?_) (fun path t t' h hstart => ?_) h .root
  · rwa [toOption_recordedStart_twin hplace] at hside
  · rw [hstart, start_watched h]

/-- The watched conversion of a source goes in step with the conversion of the source. -/
theorem watched_same (lines : List String) {σ : Likeness} {t t' : Tree} (h : t.Matches σ t') :
    (watched lines .root t).Matches .same (toPart lines .root t) := by
  refine watched_matches (fun r r' c hplace _ => ?_) (fun path t t' h _ => ?_) h.same .root
  · rw [← eq_of_rel hplace]
    exact .refl c _
  · exact start_toPart_same h path

/-- What a watched run that does not halt tells of the run it watches and of one in step. -/
theorem written_of_watched {w p p' : EStateM.Result Failure Cursor Markup}
    (hp : Outcome .same (Markup.Matches .same) w p)
    (hp' : Outcome (narrowing lines) (Markup.Matches (narrowing lines)) w p')
    (hw : ∀ f c, w = .error f c → f.cause ≠ .rowWithoutColumn) :
    (∃ m c m' c', p = .ok m c ∧ p' = .ok m' c' ∧ Narrowed m.render m'.render) ∨
      ∃ f c f' c', p = .error f c ∧ p' = .error f' c' := by
  cases hp with
  | halt hf => exact absurd hf (hw _ _ rfl)
  | fail =>
    cases hp' with
    | halt hf => exact absurd hf (hw _ _ rfl)
    | fail => exact .inr ⟨_, _, _, _, rfl, rfl⟩
  | ok hm =>
    cases hp' with
    | ok hm' =>
      refine .inl ⟨_, _, _, _, rfl, rfl, ?_⟩
      rw [← (Markup.render_match keepsMarks_same hm).eq]
      exact Markup.render_match (keepsMarks_narrowing lines) hm'

theorem start?_rel {σ : Likeness} {tokens tokens' : List Token}
    (h : List.Forall₂ (Token.Matches σ) tokens tokens') :
    Option.Rel (Cursor.Matches σ) (Cursor.start? tokens) (Cursor.start? tokens') := by
  cases h with
  | nil => exact .none
  | cons ht hts => exact .some ⟨hts, .some ht, .none, .nil⟩

theorem convert_twin {t t' : Tree} {tokens tokens' : List Token}
    (ht : t.Matches (narrowing lines) t')
    (htokens : List.Forall₂ (Token.Matches (narrowing lines)) tokens tokens')
    (hwidth : ∀ c₀ f c, Cursor.start? tokens = some c₀ →
      rootRule (watched lines .root t) c₀ = .error f c → f.cause ≠ .rowWithoutColumn) :
    Option.Rel Narrowed ((convert lines t tokens).toOption.map Markup.render)
      ((convert (lines.map narrow) t' tokens').toOption.map Markup.render) := by
  rw [convert, convert, run, run, ht.isPlaced]
  split
  · exact .none
  have hstart := start?_rel htokens
  generalize hc : Cursor.start? tokens = o, Cursor.start? tokens' = o' at hstart
  cases hstart with
  | none => exact .none
  | @some c c' hcursor =>
    have hsame := rootRule_inStep (watched_same lines ht) c c (.refl c)
    have hstep := rootRule_inStep (watched_twin ht) c c' hcursor
    obtain ⟨m, _, m', _, hp, hp', hnarrowed⟩ | ⟨f, _, f', _, hp, hp'⟩ :=
      written_of_watched hsame hstep fun f c₁ hw => hwidth c f c₁ hc hw
    · simp only [hp, hp']
      exact .some hnarrowed
    · simp only [hp, hp']
      exact .none

/-- **Wide characters do not disturb a conversion** in which no place in bytes makes a
    difference: it succeeds if and only if that of the twin does, and what both write
    differs only in the wide characters. -/
theorem convertSource_twin {o : Origin} {x x' : Parsed} (h : x.Twin o x')
    (hwidth : x.ignoresWidth o = true) (version : List String) :
    Option.Rel Narrowed ((convertSource version o x).toOption.map Markup.render)
      ((convertSource version o x').toOption.map Markup.render) := by
  rw [convertSource, convertSource]
  split
  · exact .none
  rw [h.text, Origin.lines_narrow, h.tokens]
  refine convert_twin h.tree ?_ ?_
  · rw [List.forall₂_map_right_iff]
    exact List.forall₂_same.2 fun t ht => Token.matches_narrow (h.legible t ht)
  · intro c₀ f c hstart hw
    simpa [Parsed.ignoresWidth, hstart, hw] using hwidth

/-- A literal and a name between parentheses, in a tuple; `column` is that of the name. -/
def pairTree (literal : String) (column : Int) : Tree :=
  let load : Tree := .node "Load" [] []
  .node "Module" [] [("body", .list [.node "Expr" [1, 0] [("value", .node "Tuple" [1, 1]
    [("elts", .list [.node "Str" [1, 1] [("s", .leaf (.str literal))],
      .node "Name" [1, column] [("id", .leaf (.str "x")), ("ctx", load)]]), ("ctx", load)])]])]

/-- The tokens of that tuple and of a comment, on one line. -/
def pairTokens (line literal comment : String) : List Token :=
  let t := Token.onRow 1 line
  [⟨.encoding, "utf-8", ⟨0, 0⟩, ⟨0, 0⟩, ""⟩, t 0 .operator "(", t 1 .string literal,
    t 4 .operator ",", t 6 .operator "(", t 7 .name "x", t 8 .operator ")", t 9 .operator ")",
    t 11 .comment comment, t 14 .newline "\n", Token.onRow 2 "" 0 .endMarker ""]

def wideLine : String := "('é', (x)) # ü\n"

/-- The tuple and the comment with wide characters. -/
def widePair : Parsed := ⟨wideLine, pairTree "é" 8, pairTokens wideLine "'é'" "# ü"⟩

/-- The same with narrow ones. -/
def narrowPair : Parsed :=
  ⟨"('a', (x)) # a\n", pairTree "a" 7, pairTokens "('a', (x)) # a\n" "'a'" "# a"⟩

theorem twin_widePair : widePair.Twin .memory narrowPair where
  text := by decide +kernel
  tokens := by decide +kernel
  legible := by decide +kernel
  tree := by
    have hlines : Origin.memory.lines widePair.text = [wideLine] := by decide +kernel
    have hload : Tree.Matches (narrowing [wideLine]) (.node "Load" [] []) (.node "Load" [] []) :=
      .node rfl .none (fun h => absurd h (by decide)) .nil
    have hnode {cls : String} {column : Int} {fields fields' : List (String × Tree)}
        (hcls : cls ≠ "ImportFrom") (k : Nat) (hk : k < wideLine.toList.length)
        (hcolumn : column = bytesBefore wideLine.toList k)
        (hfields : List.Forall₂ (Field.Matches (narrowing [wideLine])) fields fields') :
        Tree.Matches (narrowing [wideLine]) (.node cls [1, column] fields)
          (.node cls [1, k] fields') :=
      .node rfl (.some ⟨wideLine, k, rfl, hk, hcolumn, rfl⟩) (fun h => absurd h hcls) hfields
    rw [hlines]
    refine .node rfl .none (fun h => absurd h (by decide))
      (.cons (.mk (.list (.cons ?_ .nil))) .nil)
    refine hnode (by decide) 0 (by decide +kernel) (by decide +kernel) (.cons (.mk ?_) .nil)
    refine hnode (by decide) 1 (by decide +kernel) (by decide +kernel)
      (.cons (.mk (.list (.cons ?_ (.cons ?_ .nil)))) (.cons (.mk hload) .nil))
    · exact hnode (by decide) 1 (by decide +kernel) (by decide +kernel)
        (.cons (.mk (.leaf (.str (narrowed_narrow "é")))) .nil)
    · exact hnode (by decide) 7 (by decide +kernel) (by decide +kernel)
        (.cons (.mk (.leaf (.refl _))) (.cons (.mk hload) .nil))

/-- The parenthesis before `x` is before its place in bytes and before that in characters. -/
theorem convertSource_widePair : widePair.Twin .memory narrowPair ∧
    widePair.ignoresWidth .memory = true ∧
    (convertSource ["3", "4"] .memory widePair).toOption.isSome = true ∧
    Option.Rel Narrowed ((convertSource ["3", "4"] .memory widePair).toOption.map Markup.render)
      ((convertSource ["3", "4"] .memory narrowPair).toOption.map Markup.render) := by
  have hwidth : widePair.ignoresWidth .memory = true := by decide +kernel
  have hconverts : (convertSource ["3", "4"] .memory widePair).toOption.isSome = true := by
    decide +kernel
  exact ⟨twin_widePair, hwidth, hconverts, convertSource_twin twin_widePair hwidth ["3", "4"]⟩

/-- A literal and an empty tuple, whose column is `column`. -/
def emptyPair (literal : String) (column : Int) : Parsed :=
  let load : Tree := .node "Load" [] []
  let line := "'" ++ literal ++ "', ()\n"
  let t := Token.onRow 1 line
  ⟨line, .node "Module" [] [("body", .list [.node "Expr" [1, 0] [("value", .node "Tuple" [1, 0]
      [("elts", .list [.node "Str" [1, 0] [("s", .leaf (.str literal))],
        .node "Tuple" [1, column] [("elts", .list []), ("ctx", load)]]), ("ctx", load)])]])],
    [⟨.encoding, "utf-8", ⟨0, 0⟩, ⟨0, 0⟩, ""⟩, t 0 .string ("'" ++ literal ++ "'"),
      t 3 .operator ",", t 5 .operator "(", t 6 .operator ")", t 7 .newline "\n",
      Token.onRow 2 "" 0 .endMarker ""]⟩

/-- An empty tuple starts with its parenthesis.  After a wide character the parenthesis is
    before the place in bytes, so it is taken for one around the tuple. -/
example : (convertSource ["3", "4"] .memory (emptyPair "a" 5)).toOption.isSome = true ∧
    (convertSource ["3", "4"] .memory (emptyPair "é" 6)).toOption.isSome = false := by
  decide +kernel

end Conversion

end SourceScribe
