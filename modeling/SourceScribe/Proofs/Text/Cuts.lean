/-
  Where a text is cut.

  * `isCutAt_beforeChars`: what stands before a separator is the text up to the first place at
    which the separator stands.
  * `splitChars_of_count_eq_one`: a text with one separator has one piece on each side of it.
  * `cutAfterBoundary_flatten_of_wholeLines`: lines of a text can be taken out of it, one after
    the other or not, and are then the lines of the text they make.  Only a carriage return at
    the end of a line and a line feed at the start of the next could become one boundary, and a
    line that begins with a line feed is blank.
-/
import Mathlib
import SourceScribe.Proofs.Text.Trail

namespace SourceScribe.Text

/-! ## The first separator -/

/-- `cut` is the text up to the first place at which `sep` stands, or all of it if there is
    none. -/
structure IsCutAt (sep cs cut : List Char) : Prop where
  rest : cs = cut ∨ ∃ more, cs = cut ++ (sep ++ more)
  first : ∀ i < cut.length, ¬ sep <+: cs.drop i

theorem isCutAt_beforeChars (sep cs : List Char) : IsCutAt sep cs (beforeChars sep cs) := by
  induction cs with
  | nil => exact ⟨.inl rfl, fun i hi => absurd hi (Nat.not_lt_zero i)⟩
  | cons c cs ih =>
    rw [beforeChars]
    split
    · rename_i hprefix
      obtain ⟨more, hmore⟩ := List.isPrefixOf_iff_prefix.1 hprefix
      exact ⟨.inr ⟨more, hmore.symm⟩, fun i hi => absurd hi (Nat.not_lt_zero i)⟩
    · rename_i hprefix
      refine ⟨?_, fun i hi => ?_⟩
      · rcases ih.rest with hall | ⟨more, hmore⟩
        · exact .inl (congrArg (c :: ·) hall)
        · exact .inr ⟨more, congrArg (c :: ·) hmore⟩
      · cases i with
        | zero => rwa [List.drop_zero, ← List.isPrefixOf_iff_prefix]
        | succ i => exact ih.first i (Nat.lt_of_succ_lt_succ hi)

/-! ## Pieces -/

theorem length_splitChars (m : Char) (cs : List Char) :
    (splitChars [m] cs).length = cs.count m + 1 := by
  induction cs with
  | nil => rw [splitChars_nil]; rfl
  | cons c cs ih =>
    rw [splitChars_singleton] at ih ⊢
    rw [List.splitOn, List.splitOnP_cons_eq_if_modifyHead, ← List.splitOn, List.count_cons]
    split
    · rw [List.length_cons, ih]
    · rw [List.length_modifyHead, ih]

/-- What stands after the first `m`. -/
def afterFirst (m : Char) (cs : List Char) : List Char :=
  (cs.dropWhile (· ≠ m)).tail

theorem splitChars_of_mem {m : Char} {cs : List Char} (h : m ∈ cs) :
    splitChars [m] cs = cs.takeWhile (· ≠ m) :: splitChars [m] (afterFirst m cs) := by
  obtain ⟨xs, ys, rfl, hxs⟩ := List.eq_append_cons_of_mem h
  have hne : ∀ c ∈ xs, decide (c ≠ m) = true := fun c hc => by
    rw [decide_eq_true_eq]
    rintro rfl
    exact hxs hc
  have htake : (xs ++ m :: ys).takeWhile (· ≠ m) = xs := by
    rw [List.takeWhile_append_of_pos hne, List.takeWhile_cons_of_neg (by simp), List.append_nil]
  have hafter : afterFirst m (xs ++ m :: ys) = ys := by
    rw [afterFirst, List.dropWhile_append_of_pos hne, List.dropWhile_cons_of_neg (by simp),
      List.tail_cons]
  have hinfix : ¬ [m] <:+: xs := fun hi => hxs (hi.subset List.mem_cons_self)
  have hsplit : splitChars [m] (xs ++ [m] ++ ys) = xs :: splitChars [m] ys :=
    splitChars_append List.not_mem_nil hinfix
  rw [List.append_assoc, List.singleton_append] at hsplit
  rw [htake, hafter, hsplit]

/-- A text with one separator in it. -/
theorem splitChars_of_count_eq_one {m : Char} {cs : List Char} (h : cs.count m = 1) :
    splitChars [m] cs = [cs.takeWhile (· ≠ m), afterFirst m cs] := by
  have hmem : m ∈ cs := List.count_pos_iff.1 (by omega)
  have hpieces := length_splitChars m cs
  rw [splitChars_of_mem hmem, List.length_cons, length_splitChars] at hpieces
  have hafter : m ∉ afterFirst m cs := List.count_eq_zero.1 (by omega)
  have hinfix : ¬ [m] <:+: afterFirst m cs := fun hi => hafter (hi.subset List.mem_cons_self)
  rw [splitChars_of_mem hmem, splitChars_eq_singleton hinfix]

/-! ## Whole lines -/

/-- A line that is cut off from whatever comes after it, if that does not begin with a line
    feed. -/
def IsWhole (l : List Char) : Prop :=
  ∀ ys, ys.head? ≠ some '\n' → cutAfterBoundary (l ++ ys) = l :: cutAfterBoundary ys

/-- Whole lines, and perhaps one at the end that no boundary ends. -/
inductive WholeLines : List (List Char) → Prop
  | nil : WholeLines []
  | last {l : List Char} : cutAfterBoundary l = [l] → WholeLines [l]
  | cons {l : List Char} {ls : List (List Char)} : IsWhole l → WholeLines ls → WholeLines (l :: ls)

theorem IsWhole.cutAfterBoundary_eq {l : List Char} (h : IsWhole l) :
    cutAfterBoundary l = [l] := by
  have hend := h [] (by simp)
  rwa [List.append_nil] at hend

theorem isWhole_return_feed : IsWhole ['\r', '\n'] := fun _ _ => rfl

theorem isWhole_boundary {c : Char} (h : isLineBoundary c = true) : IsWhole [c] := by
  intro ys hys
  rw [List.singleton_append, cutAfterBoundary, if_pos h]
  rintro cs - rfl
  exact hys rfl

/-- A line gets longer by a character that ends no line. -/
theorem IsWhole.cons {c : Char} {l : List Char} (hc : isLineBoundary c = false) (h : IsWhole l) :
    IsWhole (c :: l) := by
  intro ys hys
  rw [List.cons_append, cutAfterBoundary_cons (ne_return_of_not_isLineBoundary hc), hc, h ys hys]
  rfl

theorem cutAfterBoundary_cons_last {c : Char} {l : List Char} (hc : isLineBoundary c = false)
    (h : cutAfterBoundary l = [l]) : cutAfterBoundary (c :: l) = [c :: l] := by
  rw [cutAfterBoundary_cons (ne_return_of_not_isLineBoundary hc), hc, h]
  rfl

/-- The lines of a text are whole but for the last. -/
theorem wholeLines_cutAfterBoundary (cs : List Char) : WholeLines (cutAfterBoundary cs) := by
  fun_induction cutAfterBoundary cs with
  | case1 => exact .nil
  | case2 cs ih => exact .cons isWhole_return_feed ih
  | case3 c cs _ hc ih => exact .cons (isWhole_boundary hc) ih
  | case4 c cs _ hc hcs ih =>
    obtain rfl : cs = [] := by
      have hflatten := cutAfterBoundary_flatten cs
      rw [hcs] at hflatten
      exact hflatten.symm
    refine .last ?_
    rw [cutAfterBoundary_cons (ne_return_of_not_isLineBoundary (Bool.eq_false_iff.2 hc)),
      if_neg hc]
    rfl
  | case5 c cs _ hc l ls hcs ih =>
    have hc := Bool.eq_false_iff.2 hc
    rw [hcs] at ih
    cases ih with
    | last hl => exact .last (cutAfterBoundary_cons_last hc hl)
    | cons hl hls => exact .cons (hl.cons hc) hls

theorem WholeLines.filter {ls : List (List Char)} (h : WholeLines ls) (p : List Char → Bool) :
    WholeLines (ls.filter p) := by
  induction h with
  | nil => exact .nil
  | @last l hl =>
    rw [List.filter_singleton]
    cases p l with
    | false => exact .nil
    | true => exact .last hl
  | @cons l ls hl _ ih =>
    rw [List.filter_cons]
    split
    · exact .cons hl ih
    · exact ih

/-- Lines one after the other, cut into two parts. -/
theorem WholeLines.of_append {ls ms : List (List Char)} (h : WholeLines (ls ++ ms)) :
    WholeLines ls ∧ WholeLines ms := by
  induction ls with
  | nil => exact ⟨.nil, h⟩
  | cons l ls ih =>
    rw [List.cons_append] at h
    generalize hrest : ls ++ ms = rest at h
    cases h with
    | last hl =>
      obtain ⟨rfl, rfl⟩ := List.append_eq_nil_iff.1 hrest
      exact ⟨.last hl, .nil⟩
    | cons hl hmore =>
      obtain ⟨hls, hms⟩ := ih (hrest ▸ hmore)
      exact ⟨.cons hl hls, hms⟩

/-- A line that begins with a line feed has nothing else. -/
theorem head?_ne_feed {l : List Char} (hcut : cutAfterBoundary l = [l])
    (hblank : isBlankLine l = false) : l.head? ≠ some '\n' := by
  intro hhead
  obtain ⟨more, rfl⟩ := List.head?_eq_some_iff.1 hhead
  rw [cutAfterBoundary_cons (by decide), if_pos (by decide)] at hcut
  obtain rfl : [] = more := (List.cons.inj (List.cons.inj hcut).1).2
  exact Bool.noConfusion hblank

theorem WholeLines.cutAfterBoundary_of_mem {ls : List (List Char)} (h : WholeLines ls) :
    ∀ l ∈ ls, cutAfterBoundary l = [l] := by
  induction h with
  | nil =>
    intro l hl
    cases hl
  | last hl =>
    intro l hmem
    rwa [List.mem_singleton.1 hmem]
  | cons hl _ ih =>
    intro l' hmem
    rcases List.mem_cons.1 hmem with rfl | hmem
    · exact hl.cutAfterBoundary_eq
    · exact ih l' hmem

/-- Whole lines without blank ones do not begin with a line feed. -/
theorem WholeLines.head?_flatten {ls : List (List Char)} (h : WholeLines ls)
    (hblank : ∀ l ∈ ls, isBlankLine l = false) : ls.flatten.head? ≠ some '\n' := by
  cases ls with
  | nil => simp
  | cons l ls =>
    have hl := head?_ne_feed (h.cutAfterBoundary_of_mem l List.mem_cons_self)
      (hblank l List.mem_cons_self)
    have hne : l ≠ [] := by
      rintro rfl
      exact Bool.noConfusion (hblank [] List.mem_cons_self)
    rwa [List.flatten_cons, List.head?_append_of_ne_nil l hne]

/-- Whole lines that are not blank are the lines of the text they make. -/
theorem cutAfterBoundary_flatten_of_wholeLines {ls : List (List Char)} (h : WholeLines ls)
    (hblank : ∀ l ∈ ls, isBlankLine l = false) : cutAfterBoundary ls.flatten = ls := by
  induction h with
  | nil => rfl
  | last hl => rwa [List.flatten_singleton]
  | cons hl hls ih =>
    have hrest := fun l hl => hblank l (List.mem_cons_of_mem _ hl)
    rw [List.flatten_cons, hl _ (hls.head?_flatten hrest), ih hrest]

end SourceScribe.Text
