/-
  The text that tokens spell.

  `Token.spelled` puts the texts of tokens together, each with the gap before it.
  Tokens are faithful to a source (`isFaithful`) if they cut it into pieces in the way
  that a tokenizer does: every token has the text between its two positions, and what
  is left between two tokens can be told from the positions and the line of the first.

  `upTo_spelled`: the tokens after `a` spell the source from the end of `a` to the end of
  the last one.  `spelled_of_isFaithful`: faithful tokens spell their source.
  `gaps_restore_source` says so of the tokens between an encoding and an end marker, with
  one condition for each thing that a tokenizer promises.
-/
import Mathlib.Data.List.Chain
import SourceScribe.Text.Lines
import SourceScribe.Token.Basic

namespace SourceScribe

/-! ## Spelling -/

namespace Token

/-- The text of the tokens after `a`, each with the gap before it. -/
def spelled (a : Token) : List Token → String
  | [] => ""
  | t :: ts => a.gap t ++ t.text ++ t.spelled ts

/-- The last of `a` and the tokens after it. -/
def lastOf (a : Token) : List Token → Token
  | [] => a
  | t :: ts => t.lastOf ts

theorem lastOf_append (a : Token) (ts us : List Token) :
    a.lastOf (ts ++ us) = (a.lastOf ts).lastOf us := by
  induction ts generalizing a with
  | nil => rfl
  | cons t ts ih => exact ih t

theorem spelled_append (a : Token) (ts us : List Token) :
    a.spelled (ts ++ us) = a.spelled ts ++ (a.lastOf ts).spelled us := by
  induction ts generalizing a with
  | nil => simp [spelled, lastOf]
  | cons t ts ih => simp [spelled, lastOf, ih, String.append_assoc]

/-- A token that stands on one row. -/
def onRow (row : Int) (line : String) (column : Int) (kind : TokenKind) (text : String) : Token where
  kind := kind
  text := text
  start := ⟨row, column⟩
  stop := ⟨row, column + text.length⟩
  line := line

end Token

/-! ## Rows of a source -/

namespace Text

/-- A row of a text: one of its physical lines.  Row zero, before the first one, is
    empty. -/
def row (s : String) (r : Int) : List Char :=
  if r ≤ 0 then [] else ((cutAfterLineFeed s.toList)[r.toNat - 1]?).getD []

/-- The characters of a text before a position. -/
def upTo (s : String) (p : Position) : List Char :=
  ((cutAfterLineFeed s.toList).take (p.row.toNat - 1)).flatten ++ (row s p.row).take p.column.toNat

theorem upTo_origin (s : String) : upTo s ⟨0, 0⟩ = [] := by
  simp [upTo]

/-- A position further on in the same row. -/
theorem upTo_sameRow (s : String) {r p q : Int} (hp : 0 ≤ p) (hpq : p ≤ q) :
    upTo s ⟨r, q⟩ = upTo s ⟨r, p⟩ ++ ((row s r).drop p.toNat).take (q - p).toNat := by
  have hsplit : q.toNat = p.toNat + (q - p).toNat := by omega
  simp only [upTo, hsplit, List.take_add, List.append_assoc]

/-- A position in the next row: the rest of the row comes first. -/
theorem upTo_nextRow (s : String) {r p q : Int} (hr : 0 ≤ r) :
    upTo s ⟨r + 1, q⟩ =
      upTo s ⟨r, p⟩ ++ (row s r).drop p.toNat ++ (row s (r + 1)).take q.toNat := by
  have hrows : ((cutAfterLineFeed s.toList).take r.toNat).flatten =
      ((cutAfterLineFeed s.toList).take (r.toNat - 1)).flatten ++ row s r := by
    rw [row]
    split
    · rw [show r.toNat = 0 by omega]; simp
    · rw [show r.toNat = r.toNat - 1 + 1 by omega, List.take_add_one]
      cases h : (cutAfterLineFeed s.toList)[r.toNat - 1]? <;> simp [h]
  rw [upTo, upTo, show (r + 1).toNat - 1 = r.toNat by omega, hrows]
  simp only [List.append_assoc, List.append_cancel_left_eq]
  rw [← List.append_assoc, List.take_append_drop]

end Text

/-! ## Faithful tokens -/

namespace Token

open Text (row upTo)

/-- `b` stands after `a` on the row where `a` ends, with blanks between them. -/
def isBeside (s : String) (a b : Token) : Bool :=
  let width := (b.start.column - a.stop.column).toNat
  a.stop.row = b.start.row && 0 ≤ a.stop.column && a.stop.column ≤ b.start.column &&
    ((row s a.stop.row).drop a.stop.column.toNat).take width = List.replicate width ' '

/-- `b` stands on the row after that of `a`, whose line it knows, with blanks before
    it. -/
def isBelow (s : String) (a b : Token) : Bool :=
  let width := b.start.column.toNat
  b.start.row = a.stop.row + 1 && 0 ≤ a.stop.row && 0 ≤ a.stop.column &&
    a.line.toList = row s a.stop.row && (row s b.start.row).take width = List.replicate width ' '

/-- The token has the text between its positions. -/
def isQuoted (s : String) (t : Token) : Bool :=
  upTo s t.start ++ t.text.toList = upTo s t.stop

/-- The end marker comes after `a`, and nothing of the source after that. -/
def isLast (s : String) (a e : Token) : Bool :=
  e.kind = .endMarker &&
    if a.stop.row = e.start.row then a.isBeside s e && upTo s e.start = s.toList
    else upTo s a.stop = s.toList

/-- The tokens after `a` cut up the rest of the source, up to the end marker. -/
def isFollowed (s : String) (a : Token) : List Token → Bool
  | [] => false
  | [e] => a.isLast s e
  | t :: u :: ts =>
    t.kind ≠ .endMarker && (a.isBeside s t || a.isBelow s t) && t.isQuoted s &&
      t.isFollowed s (u :: ts)

/-- The tokens cut up the source: first comes one that names the encoding and stands
    nowhere. -/
def isFaithful (s : String) : List Token → Bool
  | [] => false
  | t :: ts =>
    t.kind = .encoding && t.start = ⟨0, 0⟩ && t.stop = ⟨0, 0⟩ && t.line = "" && t.isFollowed s ts

variable {s : String} {a b t e : Token}

theorem upTo_gap_of_isBeside (h : a.isBeside s b = true) :
    upTo s a.stop ++ (a.gap b).toList = upTo s b.start := by
  simp only [isBeside, Bool.and_eq_true, decide_eq_true_eq] at h
  obtain ⟨⟨⟨hrow, h₀⟩, hle⟩, hblank⟩ := h
  rw [gap_sameRow hrow, Text.toList_spaces, ← hblank]
  have hnext := Text.upTo_sameRow s (r := a.stop.row) h₀ hle
  rw [← hnext, hrow]

theorem upTo_gap_of_isBelow (hb : b.kind ≠ .endMarker) (h : a.isBelow s b = true) :
    upTo s a.stop ++ (a.gap b).toList = upTo s b.start := by
  simp only [isBelow, Bool.and_eq_true, decide_eq_true_eq] at h
  obtain ⟨⟨⟨⟨hrow, hr⟩, h₀⟩, hline⟩, hblank⟩ := h
  rw [gap_nextRow (by omega) hb, String.toList_append, Text.toList_spaces, ← hblank]
  have hnext := Text.upTo_nextRow s (p := a.stop.column) (q := b.start.column) hr
  rw [← hrow] at hnext
  rw [hnext]
  simp [Text.dropSigned, h₀, hline]

theorem upTo_gap (hb : b.kind ≠ .endMarker) (h : (a.isBeside s b || a.isBelow s b) = true) :
    upTo s a.stop ++ (a.gap b).toList = upTo s b.start := by
  rcases Bool.or_eq_true _ _ ▸ h with h | h
  · exact upTo_gap_of_isBeside h
  · exact upTo_gap_of_isBelow hb h

/-- Tokens that stand one after the other spell the source from the end of `a` to the end
    of the last one. -/
theorem upTo_spelled {ts : List Token} (hkind : ∀ t ∈ ts, t.kind ≠ .endMarker)
    (hquoted : ∀ t ∈ ts, t.isQuoted s = true)
    (hplaced : (a :: ts).IsChain fun b t => (b.isBeside s t || b.isBelow s t) = true) :
    upTo s a.stop ++ (a.spelled ts).toList = upTo s (a.lastOf ts).stop := by
  induction ts generalizing a with
  | nil => simp [spelled, lastOf]
  | cons t ts ih =>
    rw [List.isChain_cons_cons] at hplaced
    have hgap := upTo_gap (hkind t List.mem_cons_self) hplaced.1
    have htext : upTo s t.start ++ t.text.toList = upTo s t.stop := by
      simpa [isQuoted] using hquoted t List.mem_cons_self
    have hrest := ih (fun u hu => hkind u (List.mem_cons_of_mem t hu))
      (fun u hu => hquoted u (List.mem_cons_of_mem t hu)) hplaced.2
    calc upTo s a.stop ++ (a.spelled (t :: ts)).toList
        = upTo s a.stop ++ (a.gap t).toList ++ t.text.toList ++ (t.spelled ts).toList := by
          simp [spelled, List.append_assoc]
      _ = upTo s t.stop ++ (t.spelled ts).toList := by rw [hgap, htext]
      _ = upTo s (a.lastOf (t :: ts)).stop := hrest

/-- The tokens up to the end marker, and the end marker. -/
theorem isFollowed_append {ts : List Token} (h : a.isFollowed s (ts ++ [e]) = true) :
    (∀ t ∈ ts, t.kind ≠ .endMarker) ∧ (∀ t ∈ ts, t.isQuoted s = true) ∧
    ((a :: ts).IsChain fun b t => (b.isBeside s t || b.isBelow s t) = true) ∧
    (a.lastOf ts).isLast s e = true := by
  induction ts generalizing a with
  | nil => exact ⟨by simp, by simp, List.isChain_singleton a, h⟩
  | cons t ts ih =>
    have hts : ts ++ [e] ≠ [] := by simp
    obtain ⟨u, us, hus⟩ := List.exists_cons_of_ne_nil hts
    rw [List.cons_append, hus, isFollowed, ← hus] at h
    simp only [Bool.and_eq_true, decide_eq_true_eq] at h
    obtain ⟨⟨⟨hkind, hplace⟩, hquoted⟩, hrest⟩ := h
    obtain ⟨hkinds, hquotes, hplaces, hlast⟩ := ih hrest
    exact ⟨List.forall_mem_cons.2 ⟨hkind, hkinds⟩, List.forall_mem_cons.2 ⟨hquoted, hquotes⟩,
      List.isChain_cons_cons.2 ⟨hplace, hplaces⟩, hlast⟩

theorem upTo_gap_of_isLast (h : a.isLast s e = true) :
    upTo s a.stop ++ (a.gap e).toList = s.toList := by
  simp only [isLast, Bool.and_eq_true, decide_eq_true_eq] at h
  obtain ⟨hkind, h⟩ := h
  split at h
  · rw [Bool.and_eq_true, decide_eq_true_eq] at h
    rw [upTo_gap_of_isBeside h.1, h.2]
  · rename_i hrow
    rw [gap_endMarker hrow hkind]
    simpa using h

/-- Faithful tokens after `a` spell the rest of the source. -/
theorem spelled_of_isFollowed {ts : List Token} (h : a.isFollowed s (ts ++ [e]) = true) :
    upTo s a.stop ++ (a.spelled ts ++ (a.lastOf ts).gap e).toList = s.toList := by
  obtain ⟨hkind, hquoted, hplaced, hlast⟩ := isFollowed_append h
  rw [String.toList_append, ← List.append_assoc, upTo_spelled hkind hquoted hplaced,
    upTo_gap_of_isLast hlast]

/-- **Faithful tokens spell their source.** -/
theorem spelled_of_isFaithful {ts : List Token} (h : isFaithful s (a :: ts ++ [e]) = true) :
    a.spelled ts ++ (a.lastOf ts).gap e = s := by
  simp only [List.cons_append, isFaithful, Bool.and_eq_true, decide_eq_true_eq] at h
  obtain ⟨⟨⟨⟨-, -⟩, hstop⟩, -⟩, h⟩ := h
  have hs := spelled_of_isFollowed h
  rw [hstop, Text.upTo_origin, List.nil_append] at hs
  exact String.toList_inj.1 hs

/-! ## Tokens between an encoding and an end marker -/

/-- What a tokenizer promises of the tokens `ts` of a source, which stand between a token
    `a` for the encoding and an end marker `e`.  A token may reach over several rows if
    what follows it stands on its last row. -/
structure IsCutFrom (s : String) (a : Token) (ts : List Token) (e : Token) : Prop where
  opens : a.kind = .encoding ∧ a.start = ⟨0, 0⟩ ∧ a.stop = ⟨0, 0⟩ ∧ a.line = ""
  inner : ∀ t ∈ ts, t.kind ≠ .endMarker
  quoted : ∀ t ∈ ts, t.isQuoted s = true
  placed : (a :: ts).IsChain fun b t =>
    if b.stop.row = t.start.row then b.isBeside s t = true else b.isBelow s t = true
  whole : upTo s (a.lastOf ts).stop = s.toList
  closes : e.kind = .endMarker ∧
    ((a.lastOf ts).stop.row < e.start.row ∨ e.start = (a.lastOf ts).stop)

/-- Before the end marker stands nothing: it is on a later row, or where `a` ends. -/
theorem gap_atEnd (he : e.kind = .endMarker)
    (h : a.stop.row < e.start.row ∨ e.start = a.stop) : a.gap e = "" := by
  rcases h with hlater | hsame
  · exact gap_endMarker (by omega) he
  · rw [gap_sameRow (by rw [hsame]), hsame, Int.sub_self]
    rfl

/-- **The tokens of a source and the gaps between them are the source**, whatever its
    layout: strings over several rows, continued lines, indents and dedents. -/
theorem gaps_restore_source {ts : List Token} (h : IsCutFrom s a ts e) :
    a.spelled ts ++ (a.lastOf ts).gap e = s := by
  have hplaced : (a :: ts).IsChain fun b t => (b.isBeside s t || b.isBelow s t) = true := by
    refine h.placed.imp fun b t hbt => ?_
    split at hbt <;> simp [hbt]
  have hspelled := upTo_spelled h.inner h.quoted hplaced
  rw [h.opens.2.2.1, Text.upTo_origin, List.nil_append, h.whole] at hspelled
  rw [gap_atEnd h.closes.1 h.closes.2, String.append_empty]
  exact String.toList_inj.1 hspelled

/-- A string over two rows, a continued line with a comment at its end, and a block. -/
def layoutSource : String :=
  "x = \"\"\"a\n b\"\"\" +  \\\n   1 # c\nif x :\n  y\n\nz\n"

/-- The tokens of `layoutSource`. -/
def layoutTokens : List Token :=
  [onRow 1 "x = \"\"\"a\n" 0 .name "x",
   onRow 1 "x = \"\"\"a\n" 2 .operator "=",
   ⟨.string, "\"\"\"a\n b\"\"\"", ⟨1, 4⟩, ⟨2, 5⟩, "x = \"\"\"a\n b\"\"\" +  \\\n"⟩,
   onRow 2 " b\"\"\" +  \\\n" 6 .operator "+",
   onRow 3 "   1 # c\n" 3 .number "1",
   onRow 3 "   1 # c\n" 5 .comment "# c",
   onRow 3 "   1 # c\n" 8 .newline "\n",
   onRow 4 "if x :\n" 0 .name "if",
   onRow 4 "if x :\n" 3 .name "x",
   onRow 4 "if x :\n" 5 .operator ":",
   onRow 4 "if x :\n" 6 .newline "\n",
   onRow 5 "  y\n" 0 .indent "  ",
   onRow 5 "  y\n" 2 .name "y",
   onRow 5 "  y\n" 3 .newline "\n",
   onRow 6 "\n" 0 .lineBreak "\n",
   onRow 7 "z\n" 0 .dedent "",
   onRow 7 "z\n" 0 .name "z",
   onRow 7 "z\n" 1 .newline "\n"]

/-- All of it is restored. -/
theorem layout_gaps_restore_source :
    IsCutFrom layoutSource ⟨.encoding, "utf-8", ⟨0, 0⟩, ⟨0, 0⟩, ""⟩ layoutTokens
      (onRow 8 "" 0 .endMarker "") ∧
    spelled ⟨.encoding, "utf-8", ⟨0, 0⟩, ⟨0, 0⟩, ""⟩ layoutTokens ++
      (lastOf ⟨.encoding, "utf-8", ⟨0, 0⟩, ⟨0, 0⟩, ""⟩ layoutTokens).gap
        (onRow 8 "" 0 .endMarker "") = layoutSource := by
  have hcut : IsCutFrom layoutSource ⟨.encoding, "utf-8", ⟨0, 0⟩, ⟨0, 0⟩, ""⟩ layoutTokens
      (onRow 8 "" 0 .endMarker "") :=
    { opens := by decide
      inner := by decide
      quoted := by decide +kernel
      placed := by decide +kernel
      whole := by decide +kernel
      closes := by decide }
  exact ⟨hcut, gaps_restore_source hcut⟩

end Token

end SourceScribe
