/-
  Splitting texts that were put together, and cutting them into lines.

  * `split_induction`: a text is empty, or begins with a separator, or with a character at
    which none begins; `splitChars_nil`, `splitChars_sep` and `splitChars_cons` say how it is
    split in each case.
  * `splitChars_intercalate`: texts put together with a character that is in none of them
    are what splitting at that character gives.
  * `splitChars_append`: a text in which a separator does not occur is split off before that
    separator, if its first character comes only once in it.
  * `cutAfterBoundary_append`: lines are cut one part after the other if the first part ends
    with a line.
-/
import SourceScribe.Text.Basic
import SourceScribe.Text.Lines

namespace SourceScribe.Text

/-! ## Separators -/

theorem splitChars_nil (sep : List Char) : splitChars sep [] = [[]] := by
  rw [splitChars]

theorem splitChars_ne_nil (sep cs : List Char) : splitChars sep cs ≠ [] := by
  cases cs with
  | nil => rw [splitChars_nil]; exact List.cons_ne_nil _ _
  | cons c cs =>
    rw [splitChars]
    split
    · exact List.cons_ne_nil _ _
    · split <;> exact List.cons_ne_nil _ _

/-- A separator ends an empty piece. -/
theorem splitChars_sep {sep : List Char} (hsep : sep ≠ []) (cs : List Char) :
    splitChars sep (sep ++ cs) = [] :: splitChars sep cs := by
  obtain ⟨s, rest, rfl⟩ := List.exists_cons_of_ne_nil hsep
  have hprefix : (s :: rest).isPrefixOf (s :: (rest ++ cs)) = true :=
    List.isPrefixOf_iff_prefix.2 (List.prefix_append (s :: rest) cs)
  rw [List.cons_append, splitChars, if_pos hprefix]
  simp

/-- A character at which no separator begins goes to the first piece. -/
theorem splitChars_cons {sep cs : List Char} {c : Char} (h : ¬ sep <+: c :: cs) :
    splitChars sep (c :: cs) = (splitChars sep cs).modifyHead (c :: ·) := by
  obtain ⟨p, ps, hp⟩ := List.exists_cons_of_ne_nil (splitChars_ne_nil sep cs)
  rw [splitChars, if_neg (by rwa [List.isPrefixOf_iff_prefix]), hp]
  rfl

/-- Induction along a text that is split: a separator at its beginning is taken off whole. -/
theorem split_induction {sep : List Char} (hsep : sep ≠ []) {motive : List Char → Prop}
    (nil : motive []) (mark : ∀ cs, motive cs → motive (sep ++ cs))
    (char : ∀ c cs, ¬ sep <+: c :: cs → motive cs → motive (c :: cs)) : ∀ cs, motive cs
  | [] => nil
  | c :: cs => by
    by_cases hbegin : sep <+: c :: cs
    · obtain ⟨more, hmore⟩ := hbegin
      have hpos := List.length_pos_iff.2 hsep
      have hlength : sep.length + more.length = (c :: cs).length := by
        rw [← hmore, List.length_append]
      rw [← hmore]
      exact mark more (split_induction hsep nil mark char more)
    · exact char c cs hbegin (split_induction hsep nil mark char cs)
termination_by cs => cs.length
decreasing_by
  · omega
  · simp

theorem splitChars_singleton (s : Char) (cs : List Char) : splitChars [s] cs = cs.splitOn s := by
  induction cs with
  | nil => rw [splitChars_nil, List.splitOn_nil]
  | cons c cs ih =>
    rw [List.splitOn, List.splitOnP_cons_eq_if_modifyHead, ← List.splitOn, ← ih]
    split
    · rename_i hc
      rw [eq_of_beq hc]
      exact splitChars_sep (List.cons_ne_nil s []) cs
    · rename_i hc
      exact splitChars_cons fun h => hc (beq_iff_eq.2 (List.cons_prefix_cons.1 h).1.symm)

theorem mem_intercalate {α : Type} {s x : α} :
    ∀ {groups : List (List α)}, x ∈ [s].intercalate groups → x = s ∨ ∃ g ∈ groups, x ∈ g
  | [], h => absurd h List.not_mem_nil
  | [g], h => by
    rw [List.intercalate_singleton] at h
    exact .inr ⟨g, List.mem_cons_self, h⟩
  | g :: g' :: groups, h => by
    rw [List.intercalate_cons_cons, List.mem_append, List.mem_append, List.mem_singleton] at h
    rcases h with (h | h) | h
    · exact .inr ⟨g, List.mem_cons_self, h⟩
    · exact .inl h
    · exact (mem_intercalate h).imp_right fun ⟨k, hk, hx⟩ => ⟨k, List.mem_cons_of_mem g hk, hx⟩

theorem splitChars_intercalate {s : Char} {pieces : List (List Char)} (hne : pieces ≠ [])
    (h : ∀ p ∈ pieces, s ∉ p) : splitChars [s] ([s].intercalate pieces) = pieces := by
  rw [splitChars_singleton]
  exact List.splitOn_intercalate s h hne

theorem beforeChars_eq_headD (sep cs : List Char) :
    beforeChars sep cs = (splitChars sep cs).headD [] := by
  induction cs with
  | nil => rw [splitChars_nil]; rfl
  | cons c cs ih =>
    rw [beforeChars, splitChars]
    split
    · rfl
    · rw [ih]
      cases splitChars sep cs <;> rfl

/-- A text without the separator in it. -/
theorem splitChars_eq_singleton {sep xs : List Char} (h : ¬ sep <:+: xs) :
    splitChars sep xs = [xs] := by
  induction xs with
  | nil => exact splitChars_nil sep
  | cons c xs ih =>
    have hxs : ¬ sep <:+: xs := fun hi => h (hi.trans (List.suffix_cons c xs).isInfix)
    rw [splitChars_cons fun hp => h hp.isInfix, ih hxs]
    rfl

/-- The separator after a text without it: an occurrence that begins in the text would reach
    into the separator, whose first character it would then have twice. -/
theorem splitChars_append {s : Char} {rest xs ys : List Char} (hs : s ∉ rest)
    (h : ¬ s :: rest <:+: xs) :
    splitChars (s :: rest) (xs ++ s :: rest ++ ys) = xs :: splitChars (s :: rest) ys := by
  induction xs with
  | nil => exact splitChars_sep (List.cons_ne_nil s rest) ys
  | cons c xs ih =>
    have hxs : ¬ s :: rest <:+: xs := fun hi => h (hi.trans (List.suffix_cons c xs).isInfix)
    have hprefix : ¬ s :: rest <+: c :: (xs ++ s :: rest ++ ys) := by
      rw [List.append_assoc, ← List.cons_append]
      rintro ⟨zs, hzs⟩
      rcases List.append_eq_append_iff.1 hzs with ⟨as, hlong, _⟩ | ⟨bs, hshort, hover⟩
      · exact h ⟨[], as, by rw [hlong]; rfl⟩
      · cases bs with
        | nil => exact h ⟨[], [], by simpa using hshort⟩
        | cons b bs =>
          obtain ⟨rfl, hrest⟩ := List.cons.inj hshort
          obtain rfl : s = b := (List.cons.inj hover).1
          exact hs (hrest ▸ List.mem_append_right xs List.mem_cons_self)
    rw [List.cons_append, List.cons_append, splitChars_cons hprefix, ih hxs]
    rfl

/-- The text before a separator whose first character is not in it. -/
theorem beforeChars_append {s : Char} {rest xs : List Char} (h : s ∉ xs) (ys : List Char) :
    beforeChars (s :: rest) (xs ++ s :: rest ++ ys) = xs := by
  induction xs with
  | nil =>
    have hprefix : (s :: rest).isPrefixOf (s :: (rest ++ ys)) = true :=
      List.isPrefixOf_iff_prefix.2 (List.prefix_append (s :: rest) ys)
    rw [List.nil_append, List.cons_append, beforeChars, if_pos hprefix]
  | cons c xs ih =>
    simp only [List.mem_cons, not_or] at h
    have hprefix : ¬ (s :: rest).isPrefixOf (c :: (xs ++ s :: rest ++ ys)) = true := by
      rw [List.isPrefixOf_cons_cons, Bool.and_eq_true, beq_iff_eq]
      exact fun hp => h.1 hp.1
    rw [List.cons_append, List.cons_append, beforeChars, if_neg hprefix, ih h.2]

theorem beforeChars_eq_self {s : Char} {rest xs : List Char} (h : s ∉ xs) :
    beforeChars (s :: rest) xs = xs := by
  rw [beforeChars_eq_headD, splitChars_eq_singleton fun hi => h (hi.subset List.mem_cons_self)]
  rfl

/-! ## Lines -/

theorem unifyChars_eq {cs : List Char} (h : '\r' ∉ cs) : unifyChars cs = cs := by
  induction cs with
  | nil => rfl
  | cons c cs ih =>
    simp only [List.mem_cons, not_or] at h
    rw [unifyChars, if_neg (Ne.symm h.1), ih h.2]
    exact fun _ hc => absurd hc (Ne.symm h.1)

theorem cutAfterLineFeed_append {xs : List Char} (h : '\n' ∉ xs) (ys : List Char) :
    cutAfterLineFeed (xs ++ '\n' :: ys) = (xs ++ ['\n']) :: cutAfterLineFeed ys := by
  induction xs with
  | nil => rfl
  | cons c xs ih =>
    simp only [List.mem_cons, not_or] at h
    rw [List.cons_append, cutAfterLineFeed, if_neg (Ne.symm h.1), ih h.2]
    rfl

theorem cutAfterLineFeed_eq {xs : List Char} (h : '\n' ∉ xs) :
    cutAfterLineFeed xs = if xs = [] then [] else [xs] := by
  induction xs with
  | nil => rfl
  | cons c xs ih =>
    simp only [List.mem_cons, not_or] at h
    rw [cutAfterLineFeed, if_neg (Ne.symm h.1), ih h.2]
    cases xs <;> rfl

theorem ne_return_of_not_isLineBoundary {c : Char} (h : isLineBoundary c = false) : c ≠ '\r' := by
  rintro rfl
  exact absurd h (by decide)

theorem isBlank_of_isLineBoundary {c : Char} (h : isLineBoundary c = true) : isBlank c = true := by
  simp only [isLineBoundary, decide_eq_true_eq, List.mem_cons, List.not_mem_nil, or_false] at h
  rw [isBlank]
  rcases h with h | h | h | h | h | h | h | h | h | h <;> rw [h] <;> rfl

theorem cutAfterBoundary_cons {c : Char} (hc : c ≠ '\r') (cs : List Char) :
    cutAfterBoundary (c :: cs) = if isLineBoundary c then [c] :: cutAfterBoundary cs
      else match cutAfterBoundary cs with
        | [] => [[c]]
        | l :: ls => (c :: l) :: ls :=
  cutAfterBoundary.eq_3 c cs fun _ h => absurd h hc

theorem cutAfterBoundary_ne_nil (c : Char) (cs : List Char) : cutAfterBoundary (c :: cs) ≠ [] := by
  intro h
  have hflatten := cutAfterBoundary_flatten (c :: cs)
  rw [h] at hflatten
  cases hflatten

/-- Characters that do not end a line go before the first line. -/
theorem exists_cutAfterBoundary_append {xs : List Char} (hne : xs ≠ [])
    (h : ∀ c ∈ xs, isLineBoundary c = false) (ys : List Char) :
    ∃ l ls, cutAfterBoundary (xs ++ ys) = (xs ++ l) :: ls ∧ l ++ ls.flatten = ys := by
  induction xs with
  | nil => exact absurd rfl hne
  | cons c xs ih =>
    obtain ⟨hc, hxs⟩ := List.forall_mem_cons.1 h
    rw [List.cons_append, cutAfterBoundary_cons (ne_return_of_not_isLineBoundary hc), hc]
    cases xs with
    | nil =>
      have hflatten := cutAfterBoundary_flatten ys
      cases hys : cutAfterBoundary ys with
      | nil => exact ⟨[], [], by simp [hys], by simpa [hys] using hflatten⟩
      | cons l ls => exact ⟨l, ls, by simp [hys], by simpa [hys] using hflatten⟩
    | cons d xs =>
      obtain ⟨l, ls, hcut, hflatten⟩ := ih (List.cons_ne_nil _ _) hxs
      exact ⟨l, ls, by rw [hcut]; rfl, hflatten⟩

/-- Lines are cut one part after the other if the first part is whole lines. -/
theorem cutAfterBoundary_append {xs : List Char} (hreturn : '\r' ∉ xs)
    (h : ∀ c ∈ xs.getLast?, isLineBoundary c = true) (ys : List Char) :
    cutAfterBoundary (xs ++ ys) = cutAfterBoundary xs ++ cutAfterBoundary ys := by
  induction xs with
  | nil => rfl
  | cons c xs ih =>
    have hc : c ≠ '\r' := fun hc => hreturn (hc ▸ List.mem_cons_self)
    rw [List.cons_append, cutAfterBoundary_cons hc, cutAfterBoundary_cons hc]
    cases xs with
    | nil =>
      rw [h c rfl]
      rfl
    | cons d xs =>
      have hcut := ih (fun hr => hreturn (List.mem_cons_of_mem c hr)) h
      rw [hcut]
      cases hd : cutAfterBoundary (d :: xs) with
      | nil => exact absurd hd (cutAfterBoundary_ne_nil d xs)
      | cons l ls => split <;> rfl

end SourceScribe.Text
