/-
  Continued rows.

  A backslash at the end of a row continues it on the next one.  Two tokens have then blanks,
  the backslash with the line feed, and the blanks of the next row between them
  (`continuation`), and the gap should be just that.

  The gap is told from the line of the first token, which has all rows that the token stands
  on, and from the column where it ends, which counts on the last of them.  `gap_continued`
  says what comes of it.  After a token on one row the gap is right.  After one over several
  rows it begins with characters that were written already: as many as there are on the rows
  above the last one, and these are the last ones up to the end of the token.  Nothing of the
  continued row is in the gap if the token ends the row before it, as a line break does.
-/
import Mathlib.Data.List.TakeDrop
import SourceScribe.Proofs.Text.Split
import SourceScribe.Proofs.Token.Spelling

namespace SourceScribe

/-! ## Rows end with line feeds -/

namespace Text

theorem not_mem_dropLast_of_mem_cutAfterLineFeed (cs : List Char) :
    ∀ l ∈ cutAfterLineFeed cs, l ≠ [] ∧ '\n' ∉ l.dropLast := by
  induction hn : cs.length using Nat.strong_induction_on generalizing cs with
  | _ n ih =>
    intro l hl
    by_cases hfeed : '\n' ∈ cs
    · obtain ⟨xs, ys, rfl, hxs⟩ := List.eq_append_cons_of_mem hfeed
      rw [cutAfterLineFeed_append hxs, List.mem_cons] at hl
      rcases hl with rfl | hl
      · exact ⟨by simp, by simpa using hxs⟩
      · have hlt : ys.length < n := by simp at hn; omega
        exact ih _ hlt ys rfl l hl
    · rw [cutAfterLineFeed_eq hfeed] at hl
      split at hl
      · cases hl
      · rename_i hne
        obtain rfl := List.mem_singleton.1 hl
        exact ⟨hne, fun hc => hfeed (List.dropLast_subset _ hc)⟩

/-- The rows above an existing row end with a line feed. -/
theorem getLast?_flatten_take_cutAfterLineFeed (cs : List Char) {k : Nat}
    (hk : k < (cutAfterLineFeed cs).length) :
    ∀ c ∈ (((cutAfterLineFeed cs).take k).flatten).getLast?, c = '\n' := by
  induction k generalizing cs with
  | zero => intro c hc; simp at hc
  | succ k ih =>
    intro c hc
    by_cases hfeed : '\n' ∈ cs
    · obtain ⟨xs, ys, rfl, hxs⟩ := List.eq_append_cons_of_mem hfeed
      rw [cutAfterLineFeed_append hxs] at hk hc
      rw [List.take_succ_cons, List.flatten_cons] at hc
      by_cases hnil : ((cutAfterLineFeed ys).take k).flatten = []
      · rw [hnil] at hc
        simpa [eq_comm] using hc
      · rw [List.getLast?_append_of_ne_nil _ hnil] at hc
        exact ih ys (by simpa using hk) c hc
    · rw [cutAfterLineFeed_eq hfeed] at hk
      split at hk <;> simp at hk

theorem row_of_pos (s : String) {r : Int} (hr : 0 < r) :
    row s r = ((cutAfterLineFeed s.toList)[r.toNat - 1]?).getD [] :=
  if_neg (by omega)

theorem flatten_take_succ (rows : List (List Char)) (k : Nat) :
    (rows.take (k + 1)).flatten = (rows.take k).flatten ++ (rows[k]?).getD [] := by
  rw [List.take_add_one, List.flatten_append]
  cases rows[k]? <;> simp

theorem row_eq_nil_or (s : String) (r : Int) :
    row s r = [] ∨ 0 < r ∧ r.toNat - 1 < (cutAfterLineFeed s.toList).length ∧
      row s r ∈ cutAfterLineFeed s.toList := by
  unfold row
  split_ifs with hr
  · exact .inl rfl
  · cases hget : (cutAfterLineFeed s.toList)[r.toNat - 1]? with
    | none => exact .inl rfl
    | some l =>
      obtain ⟨hlt, rfl⟩ := List.getElem?_eq_some_iff.1 hget
      exact .inr ⟨by omega, hlt, List.getElem_mem hlt⟩

/-- There is no line feed in a row but at its end. -/
theorem not_mem_dropLast_row (s : String) (r : Int) : '\n' ∉ (row s r).dropLast := by
  rcases row_eq_nil_or s r with hnil | ⟨-, -, hmem⟩
  · rw [hnil]; exact List.not_mem_nil
  · exact (not_mem_dropLast_of_mem_cutAfterLineFeed _ _ hmem).2

/-- A row with others below it ends with a line feed. -/
theorem getLast?_row {s : String} {r : Int}
    (hbelow : ((cutAfterLineFeed s.toList).drop r.toNat).flatten ≠ []) :
    ∀ c ∈ (row s r).getLast?, c = '\n' := by
  intro c hc
  rcases row_eq_nil_or s r with hnil | ⟨hr, hlt, -⟩
  · rw [hnil] at hc; cases hc
  · have hmore : r.toNat < (cutAfterLineFeed s.toList).length := by
      by_contra hge
      rw [List.drop_eq_nil_of_le (by omega)] at hbelow
      exact hbelow rfl
    refine getLast?_flatten_take_cutAfterLineFeed s.toList hmore c ?_
    have hrow : ((cutAfterLineFeed s.toList).take r.toNat).flatten
        = ((cutAfterLineFeed s.toList).take (r.toNat - 1)).flatten ++ row s r := by
      have htake := flatten_take_succ (cutAfterLineFeed s.toList) (r.toNat - 1)
      rwa [show r.toNat - 1 + 1 = r.toNat by omega, ← row_of_pos s hr] at htake
    have hne : row s r ≠ [] := by
      rintro hnil
      rw [hnil] at hc; cases hc
    rw [hrow, List.getLast?_append_of_ne_nil _ hne]
    exact hc

/-- What comes after a position: the rest of its row, and the rows below. -/
theorem upTo_append_rest (s : String) (p : Position) :
    upTo s p ++ ((row s p.row).drop p.column.toNat ++
      ((cutAfterLineFeed s.toList).drop p.row.toNat).flatten) = s.toList := by
  rw [upTo, List.append_assoc, ← List.append_assoc (List.take _ _), List.take_append_drop, row]
  split_ifs with hr
  · rw [show p.row.toNat = 0 by omega]
    simp [cutAfterLineFeed_flatten]
  · have htake := flatten_take_succ (cutAfterLineFeed s.toList) (p.row.toNat - 1)
    rw [show p.row.toNat - 1 + 1 = p.row.toNat by omega] at htake
    rw [← List.append_assoc, ← htake, ← List.flatten_append, List.take_append_drop,
      cutAfterLineFeed_flatten]

/-- Blanks, a backslash at the end of the row, and the blanks of the next row. -/
def continuation (m n : Nat) : List Char :=
  List.replicate m ' ' ++ '\\' :: '\n' :: List.replicate n ' '

/-- A continuation with something before it, and perhaps without the last blanks, is the
    continuation only if nothing is added or missing. -/
theorem append_eq_continuation_iff {again : List Char} {m n : Nat} {p : Prop} [Decidable p] :
    again ++ (List.replicate m ' ' ++ ['\\', '\n'] ++ if p then [] else List.replicate n ' ')
      = continuation m n ↔ again = [] ∧ (¬ p ∨ n = 0) := by
  constructor
  · intro h
    have hlength := congrArg List.length h
    by_cases hp : p
    · rw [if_pos hp] at h hlength
      have hn : n = 0 := by
        cases n with
        | zero => rfl
        | succ n =>
          have hconcat : continuation m (n + 1) = continuation m n ++ [' '] := by
            simp [continuation, List.replicate_succ']
          have hlast := congrArg List.getLast? h
          rw [hconcat] at hlast
          simp at hlast
      exact ⟨by simpa [continuation, hn] using hlength, .inr hn⟩
    · rw [if_neg hp] at hlength
      exact ⟨by simpa [continuation] using hlength, .inl hp⟩
  · rintro ⟨rfl, hp | rfl⟩
    · simp [continuation, hp]
    · simp [continuation]

theorem not_mem_replicate_blank (n : Nat) : '\n' ∉ List.replicate n ' ' := by
  intro hc
  exact absurd (List.eq_of_mem_replicate hc) (by decide)

/-- What stands before the first line feed. -/
theorem eq_of_append_feed {xs xs' ys ys' : List Char} (hxs : '\n' ∉ xs) (hxs' : '\n' ∉ xs')
    (h : xs ++ '\n' :: ys = xs' ++ '\n' :: ys') : xs = xs' := by
  have htake : ∀ {xs ys : List Char}, '\n' ∉ xs →
      (xs ++ '\n' :: ys).takeWhile (· ≠ '\n') = xs := by
    intro xs ys hxs
    rw [List.takeWhile_append_of_pos fun c hc => decide_eq_true (ne_of_mem_of_not_mem hc hxs)]
    simp
  calc xs = (xs ++ '\n' :: ys).takeWhile (· ≠ '\n') := (htake hxs).symm
    _ = (xs' ++ '\n' :: ys').takeWhile (· ≠ '\n') := by rw [h]
    _ = xs' := htake hxs'

/-- What stands after the last line feed. -/
theorem eq_of_feed_append {xs xs' ys ys' : List Char} (hys : '\n' ∉ ys) (hys' : '\n' ∉ ys')
    (h : xs ++ '\n' :: ys = xs' ++ '\n' :: ys') : ys = ys' := by
  have hreverse := congrArg List.reverse h
  simp only [List.reverse_append, List.reverse_cons, List.append_assoc,
    List.singleton_append] at hreverse
  exact List.reverse_injective
    (eq_of_append_feed (by simpa using hys) (by simpa using hys') hreverse)

end Text

/-! ## The gap over a continued row -/

namespace Token

open Text (row upTo cutAfterLineFeed continuation)

/-- The rows that a token begins on and passes, without the one it ends on. -/
def passed (s : String) (t : Token) : List Char :=
  (((cutAfterLineFeed s.toList).take (t.stop.row.toNat - 1)).drop (t.start.row.toNat - 1)).flatten

/-- The token ends where its row does, behind the line feed; what names the encoding ends
    the empty row before the first one. -/
def endsRow (s : String) (t : Token) : Bool :=
  t.stop.column = (row s t.stop.row).length

/-- What a tokenizer promises of the tokens `a` and `b` of a source that follow each other,
    with a continued row between them. -/
structure IsContinued (s : String) (a b : Token) (m n : Nat) : Prop where
  /-- `a` stands on one row, or goes from a row to a later one. -/
  rows : a.start.row = a.stop.row ∨ 0 < a.start.row ∧ a.start.row < a.stop.row
  /-- It knows all of these. -/
  line : a.line.toList = a.passed s ++ row s a.stop.row
  stop : 0 ≤ a.stop.column ∧ a.stop.column ≤ (row s a.stop.row).length
  /-- `b` begins on its row, not behind the line feed of the row. -/
  start : 0 ≤ b.start.column ∧ b.start.column ≤ (row s b.start.row).length ∧
    '\n' ∉ (row s b.start.row).take b.start.column.toNat
  between : upTo s a.stop ++ continuation m n = upTo s b.start

namespace IsContinued

variable {s : String} {a b : Token} {m n : Nat}

/-- `b` is on another row: there is a line feed before it that is not before the end of
    `a`. -/
theorem row_ne (h : IsContinued s a b m n) : a.stop.row ≠ b.start.row := by
  intro hrow
  have hbetween := h.between
  rw [upTo, upTo, hrow, List.append_assoc, List.append_cancel_left_eq] at hbetween
  apply h.start.2.2
  rw [← hbetween]
  simp [continuation]

/-- The blanks before `b` are those of the continuation; there are none if `b` stands behind
    the last row. -/
theorem column_eq (h : IsContinued s a b m n) :
    b.start.column = if row s b.start.row = [] then 0 else (n : Int) := by
  obtain ⟨hpos, hle, hfeed⟩ := h.start
  rcases Text.row_eq_nil_or s b.start.row with hnil | ⟨hrow, hlt, hmem⟩
  · rw [if_pos hnil]
    rw [hnil] at hle
    simp at hle
    omega
  · have hne := (Text.not_mem_dropLast_of_mem_cutAfterLineFeed _ _ hmem).1
    rw [if_neg hne]
    have hlast := Text.getLast?_flatten_take_cutAfterLineFeed s.toList hlt
    have hbetween : upTo s a.stop ++ continuation m n
        = (List.take (b.start.row.toNat - 1) (cutAfterLineFeed s.toList)).flatten
          ++ (row s b.start.row).take b.start.column.toNat := h.between
    generalize (List.take (b.start.row.toNat - 1) (cutAfterLineFeed s.toList)).flatten = above
      at hlast hbetween
    rcases List.eq_nil_or_concat' above with rfl | ⟨front, c, rfl⟩
    · refine absurd ?_ hfeed
      rw [List.nil_append] at hbetween
      rw [← hbetween]
      simp [continuation]
    · obtain rfl : c = '\n' := hlast c (by simp)
      have hfeeds : upTo s a.stop ++ List.replicate m ' ' ++ ['\\'] ++
          '\n' :: List.replicate n ' '
            = front ++ '\n' :: (row s b.start.row).take b.start.column.toNat := by
        simpa [continuation] using hbetween
      have hblanks := Text.eq_of_feed_append (Text.not_mem_replicate_blank n) hfeed hfeeds
      have hlength := congrArg List.length hblanks
      rw [List.length_take, List.length_replicate] at hlength
      omega

/-- The rest of the row on which `a` ends: all up to the line feed of the continuation. -/
theorem rest_eq (h : IsContinued s a b m n) :
    (row s a.stop.row).drop a.stop.column.toNat
      = if a.endsRow s then [] else List.replicate m ' ' ++ ['\\', '\n'] := by
  obtain ⟨hpos, hle⟩ := h.stop
  by_cases hends : a.endsRow s = true
  · rw [if_pos hends]
    simp only [endsRow, decide_eq_true_eq] at hends
    rw [List.drop_eq_nil_iff]
    omega
  · rw [if_neg hends]
    simp only [endsRow, decide_eq_true_eq] at hends
    have hsource := (Text.upTo_append_rest s a.stop).trans (Text.upTo_append_rest s b.start).symm
    rw [← h.between, List.append_assoc, List.append_cancel_left_eq] at hsource
    have hne : (row s a.stop.row).drop a.stop.column.toNat ≠ [] := by
      rw [ne_eq, List.drop_eq_nil_iff]
      omega
    have hfeed : '\n' ∉ ((row s a.stop.row).drop a.stop.column.toNat).dropLast := by
      intro hc
      rw [List.dropLast_drop_eq_drop_dropLast] at hc
      exact Text.not_mem_dropLast_row s a.stop.row (List.mem_of_mem_drop hc)
    obtain ⟨front, c, hrest⟩ := (List.eq_nil_or_concat' _).resolve_left hne
    rw [hrest] at hsource hfeed ⊢
    rw [List.dropLast_concat] at hfeed
    -- there is a line feed in the rest, and it comes last
    have hc : c = '\n' := by
      by_cases hbelow : ((cutAfterLineFeed s.toList).drop a.stop.row.toNat).flatten = []
      · have hmem : '\n' ∈ front ++ [c] := by
          rw [hbelow, List.append_nil] at hsource
          rw [hsource]
          simp [continuation]
        simpa [hfeed, eq_comm] using hmem
      · refine Text.getLast?_row hbelow c ?_
        have hlast : (front ++ [c]).getLast? = some c := by simp
        rwa [← hrest, List.getLast?_drop, if_neg (by omega)] at hlast
    subst hc
    have hfront : front = List.replicate m ' ' ++ ['\\'] := by
      simp only [continuation, List.append_assoc, List.cons_append, List.nil_append] at hsource
      refine Text.eq_of_append_feed hfeed ?_ (hsource.trans (List.append_cons _ _ _))
      simp
    simp [hfront]

/-- The column where `a` ends is too small by what stands on the rows above, so as many
    characters before the end of `a` are taken for what comes after it. -/
theorem drop_line (h : IsContinued s a b m n) :
    ∃ again, again <:+ upTo s a.stop ∧ again.length = (a.passed s).length ∧
      a.line.toList.drop a.stop.column.toNat
        = again ++ (row s a.stop.row).drop a.stop.column.toNat := by
  obtain ⟨hpos, hle⟩ := h.stop
  have htake : ((row s a.stop.row).take a.stop.column.toNat).length = a.stop.column.toNat := by
    rw [List.length_take]
    omega
  refine ⟨(a.passed s ++ (row s a.stop.row).take a.stop.column.toNat).drop a.stop.column.toNat,
    ?_, ?_, ?_⟩
  · refine (List.drop_suffix _ _).trans ?_
    refine ⟨((cutAfterLineFeed s.toList).take (a.stop.row.toNat - 1)
      |>.take (a.start.row.toNat - 1)).flatten, ?_⟩
    rw [upTo, passed, ← List.append_assoc, ← List.flatten_append, List.take_append_drop]
  · rw [List.length_drop, List.length_append, htake]
    omega
  · rw [h.line]
    conv_lhs => rw [← List.take_append_drop a.stop.column.toNat (row s a.stop.row)]
    rw [← List.append_assoc, List.drop_append_of_le_length]
    rw [List.length_append, htake]
    omega

/-- Rows have characters, so only a token on one row passes none. -/
theorem passed_eq_nil_iff (h : IsContinued s a b m n) (hends : a.endsRow s = false) :
    a.passed s = [] ↔ a.start.row = a.stop.row := by
  constructor
  · intro hnil
    rcases h.rows with hrow | ⟨hpos, hlt⟩
    · exact hrow
    · exfalso
      rcases Text.row_eq_nil_or s a.stop.row with hrow | ⟨-, hrow, -⟩
      · simp [endsRow, hrow] at hends
        have := h.stop
        simp [hrow] at this
        omega
      · have hne : ((cutAfterLineFeed s.toList).take (a.stop.row.toNat - 1)).drop
            (a.start.row.toNat - 1) ≠ [] := by
          rw [ne_eq, List.drop_eq_nil_iff, List.length_take]
          omega
        obtain ⟨l, hl⟩ := List.exists_mem_of_ne_nil _ hne
        have hmem := List.mem_of_mem_take (List.mem_of_mem_drop hl)
        exact (Text.not_mem_dropLast_of_mem_cutAfterLineFeed _ l hmem).1
          (List.flatten_eq_nil_iff.1 hnil l hl)
  · intro hrow
    rw [passed, hrow, List.drop_eq_nil_of_le, List.flatten_nil]
    rw [List.length_take]
    omega

end IsContinued

/-- **The gap over a continued row.**  It has the blanks, the backslash and the line feed
    after `a` if `a` does not end its row, and the blanks before `b` if `b` is on a row.  Before
    them stand, once more, the last characters up to the end of `a`, as many as `a` has on the
    rows above.  So, if `a` does not end its row, the gap is the continuation just if `a` is on
    that row only and `b`, which is not the end marker, is on a row or has no blanks before
    it. -/
theorem gap_continued {s : String} {a b : Token} {m n : Nat} (h : IsContinued s a b m n) :
    (∃ again, again <:+ upTo s a.stop ∧ again.length = (a.passed s).length ∧
      a.gap b = if b.kind = .endMarker then "" else String.ofList (again ++
        ((if a.endsRow s then [] else List.replicate m ' ' ++ ['\\', '\n']) ++
          if row s b.start.row = [] then [] else List.replicate n ' '))) ∧
    (a.endsRow s = false → (a.gap b = String.ofList (continuation m n) ↔
      a.start.row = a.stop.row ∧ b.kind ≠ .endMarker ∧ (row s b.start.row ≠ [] ∨ n = 0))) := by
  obtain ⟨again, hsuffix, hlength, hdrop⟩ := h.drop_line
  have hgap : a.gap b = if b.kind = .endMarker then "" else String.ofList (again ++
        ((if a.endsRow s then [] else List.replicate m ' ' ++ ['\\', '\n']) ++
          if row s b.start.row = [] then [] else List.replicate n ' ')) := by
    by_cases hb : b.kind = .endMarker
    · rw [if_pos hb, gap_endMarker h.row_ne hb]
    · rw [if_neg hb, gap_nextRow h.row_ne hb, Text.dropSigned, if_pos h.stop.1, hdrop, h.rest_eq,
        Text.spaces, ← String.ofList_append, List.append_assoc, h.column_eq]
      split_ifs <;> simp
  refine ⟨⟨again, hsuffix, hlength, hgap⟩, fun hends => ?_⟩
  rw [hgap]
  have hagain : again = [] ↔ a.start.row = a.stop.row := by
    rw [← h.passed_eq_nil_iff hends, ← List.length_eq_zero_iff, hlength, List.length_eq_zero_iff]
  by_cases hb : b.kind = .endMarker
  · rw [if_pos hb]
    refine iff_of_false (fun hempty => ?_) fun hright => hright.2.1 hb
    have hnil : [] = continuation m n := String.ofList_injective hempty
    simp [continuation] at hnil
  · rw [if_neg hb, hends, String.ofList_inj, if_neg Bool.false_ne_true,
      Text.append_eq_continuation_iff, hagain]
    exact and_congr_right fun _ => (and_iff_right hb).symm

/-- A string over two rows, and one after it on a continued row. -/
def joinedSource : String := "'''a\nb''' \\\n 'c'\n"

/-- The first string of `joinedSource`. -/
def joinedFirst : Token :=
  ⟨.string, "'''a\nb'''", ⟨1, 0⟩, ⟨2, 4⟩, "'''a\nb''' \\\n"⟩

/-- The second string of `joinedSource`. -/
def joinedSecond : Token := onRow 3 " 'c'\n" 1 .string "'c'"

/-- The second row of the first string is written again, with the line feed before it. -/
theorem joined_gap_continued :
    IsContinued joinedSource joinedFirst joinedSecond 1 1 ∧
    joinedFirst.gap joinedSecond = "\nb''' \\\n " ∧
    (∃ again, again <:+ upTo joinedSource joinedFirst.stop ∧ again.length = 5 ∧
      joinedFirst.gap joinedSecond = String.ofList (again ++ continuation 1 1)) ∧
    joinedFirst.gap joinedSecond ≠ String.ofList (continuation 1 1) := by
  have hcontinued : IsContinued joinedSource joinedFirst joinedSecond 1 1 :=
    { rows := by decide
      line := by decide +kernel
      stop := by decide +kernel
      start := by decide +kernel
      between := by decide +kernel }
  obtain ⟨⟨again, hsuffix, hlength, hgap⟩, hright⟩ := gap_continued hcontinued
  have hpassed : (joinedFirst.passed joinedSource).length = 5 := by decide +kernel
  have hends : joinedFirst.endsRow joinedSource = false := by decide +kernel
  have hrow : row joinedSource joinedSecond.start.row ≠ [] := by decide +kernel
  rw [if_neg (by decide), if_neg hrow, hends] at hgap
  refine ⟨hcontinued, by decide +kernel, ⟨again, hsuffix, hlength.trans hpassed, hgap⟩, ?_⟩
  intro hsame
  exact absurd ((hright hends).1 hsame).1 (by decide)

end Token

end SourceScribe
