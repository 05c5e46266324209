/-
  Splitting two texts that stand side by side.

  Where no separator lies across the seam of two texts (`Apart`), the pieces of both together
  are those of the first and those of the second, with the last piece of the one and the first
  piece of the other put together (`splitChars_append_of_apart`).  What else stands between the
  two texts only goes into that piece (`splitChars_seam`).

  The ink of a text is what is left of it without white space.  Splitting a text at a mark
  splits its ink (`splitChars_ink`).

  The last line of a text may be open: then it goes on in what comes next
  (`cutAfterBoundary_open`).
-/
import SourceScribe.Proofs.Text.Trail

namespace SourceScribe.Text

/-- No separator begins in `xs` and ends in `ys`. -/
def Apart (sep xs ys : List Char) : Prop :=
  ∀ a b, a ≠ [] → b ≠ [] → sep = a ++ b → a <:+ xs → ¬ b <+: ys

/-- A single character lies on one side. -/
theorem apart_singleton (s : Char) (xs ys : List Char) : Apart [s] xs ys := by
  intro a b ha hb hsep
  cases a with
  | nil => exact absurd rfl ha
  | cons c a =>
    cases b with
    | nil => exact absurd rfl hb
    | cons d b =>
      have hlength := congrArg List.length hsep
      simp at hlength

/-- Texts are apart if one of the characters at their seam is not the separator's. -/
theorem Parted.apart {sep xs ys : List Char} (h : Parted sep xs ys) : Apart sep xs ys := by
  rintro a b ha hb rfl hend hbegin
  rcases h with hlast | hhead
  · obtain ⟨front, c, rfl⟩ := (List.eq_nil_or_concat' a).resolve_left ha
    obtain ⟨t, rfl⟩ := hend
    exact hlast c (by simp) (by simp)
  · cases b with
    | nil => exact hb rfl
    | cons d b =>
      obtain ⟨t, rfl⟩ := hbegin
      exact hhead d (by simp) (by simp)

/-- A separator that stands behind the seam does not let another one across it, if its
    first character comes only once in it. -/
theorem apart_of_prefix {s : Char} {rest xs ys : List Char} (hs : s ∉ rest)
    (h : s :: rest <+: ys) : Apart (s :: rest) xs ys := by
  rintro a b ha hb hsep - hbegin
  cases a with
  | nil => exact ha rfl
  | cons c a =>
    cases b with
    | nil => exact hb rfl
    | cons d b =>
      obtain ⟨t, rfl⟩ := h
      obtain ⟨u, hu⟩ := hbegin
      obtain ⟨rfl, -⟩ := List.cons.inj hu
      obtain ⟨-, hrest⟩ := List.cons.inj hsep
      exact hs (hrest ▸ by simp)

theorem Apart.of_suffix {sep xs xs' ys : List Char} (h : Apart sep xs ys) (hxs : xs' <:+ xs) :
    Apart sep xs' ys :=
  fun a b ha hb hsep hend => h a b ha hb hsep (hend.trans hxs)

/-- No separator begins in the first text and reaches over the seam. -/
theorem Apart.not_prefix_append {sep xs ys : List Char} (h : Apart sep xs ys) (hne : xs ≠ [])
    (hxs : ¬ sep <+: xs) : ¬ sep <+: xs ++ ys := by
  rintro ⟨t, ht⟩
  rcases List.append_eq_append_iff.1 ht with ⟨more, hshort, -⟩ | ⟨b, hlong, rfl⟩
  · exact hxs ⟨more, hshort.symm⟩
  · by_cases hb : b = []
    · exact hxs ⟨[], by rw [hlong, hb]; simp⟩
    · exact h xs b hne hb hlong (List.suffix_refl _) (List.prefix_append b t)

/-- The pieces of two texts side by side. -/
theorem splitChars_append_of_apart {sep xs ys : List Char} (hsep : sep ≠ [])
    (h : Apart sep xs ys) :
    ∃ init last first rest, splitChars sep xs = init ++ [last] ∧
      splitChars sep ys = first :: rest ∧
      splitChars sep (xs ++ ys) = init ++ (last ++ first) :: rest := by
  induction xs using split_induction hsep with
  | nil =>
    obtain ⟨first, rest, hys⟩ := List.exists_cons_of_ne_nil (splitChars_ne_nil sep ys)
    exact ⟨[], [], first, rest, splitChars_nil sep, hys, hys⟩
  | mark xs ih =>
    obtain ⟨init, last, first, rest, hxs, hys, hboth⟩ :=
      ih (h.of_suffix (List.suffix_append sep xs))
    refine ⟨[] :: init, last, first, rest, ?_, hys, ?_⟩
    · rw [splitChars_sep hsep, hxs]
      rfl
    · rw [List.append_assoc, splitChars_sep hsep, hboth]
      rfl
  | char c xs hbegin ih =>
    obtain ⟨init, last, first, rest, hxs, hys, hboth⟩ :=
      ih (h.of_suffix (List.suffix_cons c xs))
    have hlong : ¬ sep <+: c :: (xs ++ ys) := h.not_prefix_append (List.cons_ne_nil c xs) hbegin
    rw [splitChars_cons hbegin, List.cons_append, splitChars_cons hlong, hxs, hboth]
    cases init with
    | nil => exact ⟨[], c :: last, first, rest, rfl, hys, rfl⟩
    | cons p init => exact ⟨(c :: p) :: init, last, first, rest, rfl, hys, rfl⟩

/-! ## Texts with others between them -/

theorem splitChars_of_not_mem {sep xs : List Char} (hsep : sep ≠ []) (h : ∀ c ∈ xs, c ∉ sep) :
    splitChars sep xs = [xs] := by
  obtain ⟨c, hc⟩ := List.exists_mem_of_ne_nil sep hsep
  exact splitChars_eq_singleton fun hinside => h c (hinside.subset hc) hc

/-- The pieces of two texts with another one between them. -/
theorem splitChars_seam {sep xs ys : List Char} (hsep : sep ≠ []) (h : Apart sep xs ys) :
    ∃ init last first rest, splitChars sep xs = init ++ [last] ∧
      splitChars sep ys = first :: rest ∧
      ∀ w, (∀ c ∈ w, c ∉ sep) →
        splitChars sep (xs ++ (w ++ ys)) = init ++ (last ++ (w ++ first)) :: rest := by
  obtain ⟨init, last, first, rest, hxs, hys, hboth⟩ := splitChars_append_of_apart hsep h
  refine ⟨init, last, first, rest, hxs, hys, fun w hw => ?_⟩
  by_cases hnil : w = []
  · rw [hnil]
    exact hboth
  have hhead : Parted sep xs (w ++ ys) := by
    refine .inr fun c hc => hw c ?_
    obtain ⟨d, w, rfl⟩ := List.exists_cons_of_ne_nil hnil
    cases hc
    exact List.mem_cons_self
  have hlast : Parted sep w ys := .inl fun c hc => hw c (List.mem_of_getLast? hc)
  obtain ⟨init₁, last₁, first₁, rest₁, hw₁, hys₁, hwys⟩ :=
    splitChars_append_of_apart hsep hlast.apart
  obtain ⟨init₂, last₂, first₂, rest₂, hxs₂, hwys₂, hall⟩ :=
    splitChars_append_of_apart hsep hhead.apart
  rw [splitChars_of_not_mem hsep hw] at hw₁
  obtain ⟨rfl, hw₁⟩ := List.append_inj' (show [] ++ [w] = init₁ ++ [last₁] from hw₁) rfl
  cases hw₁
  obtain ⟨rfl, hlast₂⟩ := List.append_inj' (hxs.symm.trans hxs₂) rfl
  cases hlast₂
  cases hys.symm.trans hys₁
  cases hwys.symm.trans hwys₂
  exact hall

/-- The pieces put together again. -/
theorem intercalate_splitChars {sep : List Char} (hsep : sep ≠ []) (cs : List Char) :
    sep.intercalate (splitChars sep cs) = cs := by
  induction cs using split_induction hsep with
  | nil => rw [splitChars_nil, List.intercalate_singleton]
  | mark cs ih =>
    obtain ⟨p, ps, hp⟩ := List.exists_cons_of_ne_nil (splitChars_ne_nil sep cs)
    rw [hp] at ih
    rw [splitChars_sep hsep, hp, List.intercalate_cons_cons, ih, List.nil_append]
  | char c cs hbegin ih =>
    obtain ⟨p, ps, hp⟩ := List.exists_cons_of_ne_nil (splitChars_ne_nil sep cs)
    rw [hp] at ih
    rw [splitChars_cons hbegin, hp, List.modifyHead_cons]
    cases ps with
    | nil =>
      rw [List.intercalate_singleton] at ih ⊢
      rw [ih]
    | cons q ps =>
      rw [List.intercalate_cons_cons] at ih ⊢
      rw [← ih]
      simp

/-- The first piece is the beginning of a text. -/
theorem prefix_of_splitChars {sep cs first : List Char} {rest : List (List Char)}
    (hsep : sep ≠ []) (h : splitChars sep cs = first :: rest) : first <+: cs := by
  have hcs := intercalate_splitChars hsep cs
  rw [h] at hcs
  cases rest with
  | nil => exact ⟨[], by simpa using hcs⟩
  | cons p rest =>
    rw [List.intercalate_cons_cons, List.append_assoc] at hcs
    exact ⟨_, hcs⟩

/-- The last piece is the end of a text, and unless it is the only one there is a separator
    before it. -/
theorem suffix_of_splitChars {sep cs last : List Char} {init : List (List Char)}
    (hsep : sep ≠ []) (h : splitChars sep cs = init ++ [last]) :
    (init = [] ∧ last = cs) ∨ sep ++ last <:+ cs := by
  have hcs := intercalate_splitChars hsep cs
  rw [h] at hcs
  rw [← hcs]
  clear hcs h
  induction init with
  | nil => exact .inl ⟨rfl, by rw [List.nil_append, List.intercalate_singleton]⟩
  | cons p init ih =>
    obtain ⟨q, rest, hq⟩ := List.exists_cons_of_ne_nil (l := init ++ [last]) (by simp)
    rw [hq] at ih
    rw [List.cons_append, hq, List.intercalate_cons_cons, List.append_assoc]
    rcases ih with ⟨-, hlast⟩ | hend
    · rw [← hlast]
      exact .inr (List.suffix_append _ _)
    · exact .inr (hend.trans ((List.suffix_append _ _).trans (List.suffix_append _ _)))

/-- A piece that is the only one is the whole text. -/
theorem eq_of_splitChars {sep cs piece : List Char} (hsep : sep ≠ [])
    (h : splitChars sep cs = [piece]) : piece = cs := by
  have hcs := intercalate_splitChars hsep cs
  rwa [h, List.intercalate_singleton] at hcs

theorem not_mem_of_mem_splitChars {m : Char} {cs p : List Char} (h : p ∈ splitChars [m] cs) :
    m ∉ p := by
  induction cs using split_induction (List.cons_ne_nil m []) generalizing p with
  | nil =>
    rw [splitChars_nil, List.mem_singleton] at h
    rw [h]
    exact List.not_mem_nil
  | mark cs ih =>
    rw [splitChars_sep (List.cons_ne_nil m [])] at h
    rcases List.mem_cons.1 h with rfl | h
    · exact List.not_mem_nil
    · exact ih h
  | char c cs hbegin ih =>
    have hc : m ≠ c := fun hc => hbegin (hc ▸ List.prefix_append [m] cs)
    obtain ⟨q, qs, hq⟩ := List.exists_cons_of_ne_nil (splitChars_ne_nil [m] cs)
    rw [splitChars_cons hbegin, hq, List.modifyHead_cons] at h
    rw [hq] at ih
    rcases List.mem_cons.1 h with rfl | h
    · rw [List.mem_cons, not_or]
      exact ⟨hc, ih List.mem_cons_self⟩
    · exact ih (List.mem_cons_of_mem _ h)

/-- What stands after the last mark in a text; all if there is none. -/
def afterLast (m : Char) (cs : List Char) : List Char := (splitChars [m] cs).getLastD []

theorem exists_splitChars_eq (m : Char) (cs : List Char) :
    ∃ init, splitChars [m] cs = init ++ [afterLast m cs] := by
  obtain hnil | ⟨init, last, h⟩ := List.eq_nil_or_concat' (splitChars [m] cs)
  · exact absurd hnil (splitChars_ne_nil _ _)
  · exact ⟨init, by simp [afterLast, h]⟩

theorem afterLast_cases (m : Char) (cs : List Char) :
    afterLast m cs = cs ∨ m :: afterLast m cs <:+ cs := by
  obtain ⟨init, h⟩ := exists_splitChars_eq m cs
  exact (suffix_of_splitChars (List.cons_ne_nil m []) h).imp_left And.right

theorem isSuffix_afterLast (m : Char) (cs : List Char) : afterLast m cs <:+ cs := by
  rcases afterLast_cases m cs with h | h
  · simp [h]
  · exact (List.suffix_cons m _).trans h

theorem not_mem_afterLast (m : Char) (cs : List Char) : m ∉ afterLast m cs := by
  obtain ⟨init, h⟩ := exists_splitChars_eq m cs
  exact not_mem_of_mem_splitChars (show afterLast m cs ∈ splitChars [m] cs by simp [h])

theorem splitChars_mark_of_not_mem {m : Char} {cs : List Char} (h : m ∉ cs) :
    splitChars [m] cs = [cs] :=
  splitChars_of_not_mem (List.cons_ne_nil m []) fun _ hc hmem =>
    h (List.mem_singleton.1 hmem ▸ hc)

theorem afterLast_eq_self {m : Char} {cs : List Char} (h : m ∉ cs) : afterLast m cs = cs := by
  rw [afterLast, splitChars_mark_of_not_mem h]
  rfl

theorem exists_splitChars_cons (sep cs : List Char) :
    ∃ rest, splitChars sep cs = beforeChars sep cs :: rest := by
  obtain ⟨first, rest, h⟩ := List.exists_cons_of_ne_nil (splitChars_ne_nil sep cs)
  exact ⟨rest, by rw [beforeChars_eq_headD, h]; rfl⟩

theorem isPrefix_beforeChars {sep : List Char} (hsep : sep ≠ []) (cs : List Char) :
    beforeChars sep cs <+: cs := by
  obtain ⟨rest, h⟩ := exists_splitChars_cons sep cs
  exact prefix_of_splitChars hsep h

theorem not_mem_beforeChars (m : Char) (cs : List Char) : m ∉ beforeChars [m] cs := by
  obtain ⟨rest, h⟩ := exists_splitChars_cons [m] cs
  exact not_mem_of_mem_splitChars (h ▸ List.mem_cons_self)

/-- Two texts with another one between them, split at a mark that is not in that one: what
    stands after the last mark of the first text, what is between, and what stands before the
    first mark of the second text are one piece. -/
theorem splitChars_mark_seam (m : Char) (us vs : List Char) :
    ∃ init rest, (init = [] ↔ m ∉ us) ∧ (rest = [] ↔ m ∉ vs) ∧
      ∀ w, m ∉ w → splitChars [m] (us ++ (w ++ vs))
        = init ++ (afterLast m us ++ (w ++ beforeChars [m] vs)) :: rest := by
  have hm : [m] ≠ [] := List.cons_ne_nil m []
  obtain ⟨init, last, first, rest, hus, hvs, hboth⟩ :=
    splitChars_seam hm (apart_singleton m us vs)
  obtain ⟨init', hinit⟩ := exists_splitChars_eq m us
  obtain ⟨rest', hrest⟩ := exists_splitChars_cons [m] vs
  obtain ⟨rfl, hlast⟩ := List.append_inj' (hus.symm.trans hinit) rfl
  cases hlast
  cases hvs.symm.trans hrest
  refine ⟨init, rest, ⟨?_, fun h => ?_⟩, ⟨?_, fun h => ?_⟩, ?_⟩
  · rintro rfl
    exact eq_of_splitChars hm hus ▸ not_mem_afterLast m us
  · rw [splitChars_mark_of_not_mem h] at hus
    exact (List.append_inj' (show [] ++ [us] = init ++ [_] from hus) rfl).1.symm
  · rintro rfl
    exact eq_of_splitChars hm hvs ▸ not_mem_beforeChars m vs
  · rw [splitChars_mark_of_not_mem h] at hvs
    exact (List.cons.inj hvs).2.symm
  · intro w hw
    exact hboth w fun c hc hmem => hw (List.mem_singleton.1 hmem ▸ hc)

/-! ## Ink -/

theorem IsGap.of_subset {gap cs : List Char} (h : IsGap cs) (hsub : gap ⊆ cs) : IsGap gap :=
  fun c hc => h c (hsub hc)

/-- A mark is not in white space. -/
theorem IsGap.not_mem {gap : List Char} (h : IsGap gap) {m : Char} (hm : isBlank m = false) :
    m ∉ gap :=
  fun hc => Bool.noConfusion ((h m hc).symm.trans hm)

/-- A text without its white space. -/
def ink (cs : List Char) : List Char := cs.filter fun c => !isBlank c

theorem ink_append (xs ys : List Char) : ink (xs ++ ys) = ink xs ++ ink ys :=
  List.filter_append xs ys

theorem ink_eq_nil_iff {cs : List Char} : ink cs = [] ↔ IsGap cs := by
  simp [ink, IsGap]

theorem mem_ink_iff {c : Char} {cs : List Char} (hc : isBlank c = false) :
    c ∈ ink cs ↔ c ∈ cs := by
  simp [ink, hc]

/-- Splitting a text at a mark splits its ink. -/
theorem splitChars_ink {m : Char} (hm : isBlank m = false) (cs : List Char) :
    splitChars [m] (ink cs) = (splitChars [m] cs).map ink := by
  have hsep : [m] ≠ [] := List.cons_ne_nil m []
  induction cs using split_induction hsep with
  | nil =>
    show splitChars [m] [] = (splitChars [m] []).map ink
    rw [splitChars_nil]
    rfl
  | mark cs ih =>
    have hink : ink [m] = [m] := by simp [ink, hm]
    rw [ink_append, hink, splitChars_sep hsep, splitChars_sep hsep, ih]
    rfl
  | char c cs hbegin ih =>
    obtain ⟨q, qs, hq⟩ := List.exists_cons_of_ne_nil (splitChars_ne_nil [m] cs)
    rw [splitChars_cons hbegin]
    cases hblank : isBlank c
    · have hink : ∀ ds, ink (c :: ds) = c :: ink ds := fun ds => by simp [ink, hblank]
      have hbegin' : ¬ [m] <+: c :: ink cs := fun h => hbegin (by simpa using h)
      rw [hink, splitChars_cons hbegin', ih, hq]
      simp [hink]
    · have hink : ∀ ds, ink (c :: ds) = ink ds := fun ds => by simp [ink, hblank]
      rw [hink, ih, hq]
      simp [hink]

/-- The beginning of a text has the first ink of the text, if it has any. -/
theorem head?_ink_of_prefix {xs ys : List Char} (h : xs <+: ys) :
    IsGap xs ∨ (ink xs).head? = (ink ys).head? := by
  obtain ⟨rest, rfl⟩ := h
  by_cases hgap : ink xs = []
  · exact .inl (ink_eq_nil_iff.1 hgap)
  · rw [ink_append, List.head?_append_of_ne_nil _ hgap]
    exact .inr rfl

/-- The end of a text has the last ink of the text, if it has any. -/
theorem getLast?_ink_of_suffix {xs ys : List Char} (h : xs <:+ ys) :
    IsGap xs ∨ (ink xs).getLast? = (ink ys).getLast? := by
  obtain ⟨rest, rfl⟩ := h
  by_cases hgap : ink xs = []
  · exact .inl (ink_eq_nil_iff.1 hgap)
  · rw [ink_append, List.getLast?_append_of_ne_nil _ hgap]
    exact .inr rfl

theorem head?_dropWhile_isBlank (cs : List Char) :
    (cs.dropWhile isBlank).head? = (ink cs).head? := by
  induction cs with
  | nil => rfl
  | cons c cs ih =>
    cases hc : isBlank c
    · simp [ink, hc]
    · simpa [ink, hc] using ih

/-- A character that is not white space is the first ink if it is the first of all. -/
theorem head?_ink {cs : List Char} {c : Char} (h : cs.head? = some c) (hc : isBlank c = false) :
    (ink cs).head? = some c := by
  rw [← head?_dropWhile_isBlank]
  obtain ⟨cs, rfl⟩ := List.head?_eq_some_iff.1 h
  rw [List.dropWhile_cons_of_neg (by simp [hc])]
  rfl

/-- And it is the last ink if it is the last of all. -/
theorem getLast?_ink {cs : List Char} {c : Char} (h : cs.getLast? = some c)
    (hc : isBlank c = false) : (ink cs).getLast? = some c := by
  obtain ⟨cs, rfl⟩ := List.getLast?_eq_some_iff.1 h
  rw [ink_append]
  simp [ink, hc]

/-- The last ink of a text is a mark, or the last ink after that mark. -/
theorem getLast?_ink_afterLast {m c : Char} {cs : List Char} (hm : isBlank m = false)
    (hc : (ink cs).getLast? = some c) : c = m ∨ (ink (afterLast m cs)).getLast? = some c := by
  rcases afterLast_cases m cs with hall | hsuffix
  · rw [hall]
    exact .inr hc
  rcases getLast?_ink_of_suffix hsuffix with hgap | hlast
  · exact absurd hm (by simp [hgap m List.mem_cons_self])
  rw [hc, ink, List.filter_cons_of_pos (by simp [hm]), List.getLast?_cons] at hlast
  rw [ink]
  cases hrest : (List.filter (fun c => !isBlank c) (afterLast m cs)).getLast? with
  | none =>
    rw [hrest] at hlast
    exact .inl (Option.some.inj hlast).symm
  | some d =>
    rw [hrest] at hlast
    exact .inr hlast

/-- White space at the beginning makes no difference without it. -/
theorem stripChars_gap_append {gap : List Char} (h : IsGap gap) (cs : List Char) :
    stripChars (gap ++ cs) = stripChars cs := by
  rw [stripChars, stripChars, List.dropWhile_append_of_pos h]

/-- Nor does white space at the end. -/
theorem stripChars_append_gap {gap : List Char} (h : IsGap gap) (cs : List Char) :
    stripChars (cs ++ gap) = stripChars cs := by
  by_cases hcs : IsGap cs
  · rw [stripChars_gap (hcs.append h), stripChars_gap hcs]
  · have hne : ¬ (cs.dropWhile isBlank).isEmpty = true := by
      rwa [List.isEmpty_iff, List.dropWhile_eq_nil_iff]
    rw [stripChars, stripChars, List.dropWhile_append, if_neg hne, List.reverse_append,
      List.dropWhile_append_of_pos h.reverse]

/-- A text is what is left of it, with white space before and behind. -/
theorem exists_gap_stripChars (cs : List Char) :
    ∃ gap gap', IsGap gap ∧ IsGap gap' ∧ cs = gap ++ (stripChars cs ++ gap') := by
  refine ⟨cs.takeWhile isBlank, ((cs.dropWhile isBlank).reverse.takeWhile isBlank).reverse,
    fun c hc => List.mem_takeWhile_imp hc, IsGap.reverse fun c hc => List.mem_takeWhile_imp hc, ?_⟩
  rw [stripChars, ← List.reverse_append, List.takeWhile_append_dropWhile, List.reverse_reverse,
    List.takeWhile_append_dropWhile]

/-! ## Lines -/

/-- What stands after the last line boundary. -/
def openLine (cs : List Char) : List Char :=
  (cs.reverse.takeWhile fun c => !isLineBoundary c).reverse

theorem isLineBoundary_of_mem_openLine {c : Char} {cs : List Char} (h : c ∈ openLine cs) :
    isLineBoundary c = false := by
  simpa using List.mem_takeWhile_imp (List.mem_reverse.1 h)

/-- A text is whole lines and the open line after them. -/
theorem exists_append_openLine (cs : List Char) :
    ∃ closed, cs = closed ++ openLine cs ∧ ∀ c ∈ closed.getLast?, isLineBoundary c = true := by
  refine ⟨(cs.reverse.dropWhile fun c => !isLineBoundary c).reverse, ?_, fun c hc => ?_⟩
  · rw [openLine, ← List.reverse_append, List.takeWhile_append_dropWhile, List.reverse_reverse]
  · rw [List.getLast?_reverse] at hc
    have hhead := List.head?_dropWhile_not (fun c => !isLineBoundary c) cs.reverse
    rw [Option.mem_def.1 hc] at hhead
    simpa using hhead

/-- A line feed ends an open line. -/
theorem cutAfterBoundary_feed {xs : List Char} (h : ∀ c ∈ xs, isLineBoundary c = false)
    (ys : List Char) : cutAfterBoundary (xs ++ '\n' :: ys) = (xs ++ ['\n']) :: cutAfterBoundary ys := by
  induction xs with
  | nil => rfl
  | cons c xs ih =>
    obtain ⟨hc, hxs⟩ := List.forall_mem_cons.1 h
    rw [List.cons_append, cutAfterBoundary_cons (ne_return_of_not_isLineBoundary hc), hc, ih hxs]
    rfl

/-- An open line goes on in the first line of what comes next. -/
theorem cutAfterBoundary_open {xs : List Char} (h : ∀ c ∈ xs, isLineBoundary c = false)
    (ys : List Char) : cutAfterBoundary (xs ++ ys) = match cutAfterBoundary ys with
      | [] => if xs = [] then [] else [xs]
      | l :: ls => (xs ++ l) :: ls := by
  induction xs with
  | nil => cases hys : cutAfterBoundary ys <;> simp [hys]
  | cons c xs ih =>
    obtain ⟨hc, hxs⟩ := List.forall_mem_cons.1 h
    rw [List.cons_append, cutAfterBoundary_cons (ne_return_of_not_isLineBoundary hc), hc, ih hxs]
    cases cutAfterBoundary ys with
    | nil => cases xs <;> rfl
    | cons l ls => rfl

/-- Newlines are unified in one part after the other, if none lies across the seam. -/
theorem unifyChars_append {xs ys : List Char}
    (h : xs.getLast? = some '\r' → ys.head? ≠ some '\n') :
    unifyChars (xs ++ ys) = unifyChars xs ++ unifyChars ys := by
  fun_induction unifyChars xs with
  | case1 => rfl
  | case2 xs ih =>
    show '\n' :: unifyChars (xs ++ ys) = _
    rw [ih fun hlast => h (by simp [List.getLast?_cons, hlast])]
    rfl
  | case3 c xs hfeed ih =>
    have htail : xs.getLast? = some '\r' → ys.head? ≠ some '\n' :=
      fun hlast => h (by simp [List.getLast?_cons, hlast])
    rw [List.cons_append, unifyChars, ih htail]
    · rfl
    · rintro cs rfl hcs
      cases xs with
      | nil => exact h rfl (by rw [show ys = '\n' :: cs from hcs]; rfl)
      | cons d xs =>
        obtain ⟨rfl, -⟩ := List.cons.inj hcs
        exact hfeed xs rfl rfl

theorem getLast?_unifyChars (xs : List Char) :
    (unifyChars xs).getLast? = xs.getLast?.map fun c => if c = '\r' then '\n' else c := by
  fun_induction unifyChars xs with
  | case1 => rfl
  | case2 xs ih =>
    rw [List.getLast?_cons, ih, List.getLast?_cons, List.getLast?_cons]
    cases xs.getLast? <;> rfl
  | case3 c xs _ ih =>
    rw [List.getLast?_cons, ih, List.getLast?_cons]
    cases xs.getLast? <;> rfl

/-- Any end of a line is read as a line feed. -/
theorem exists_unifyChars_cons {cs : List Char}
    (h : cs.head? = some '\n' ∨ cs.head? = some '\r') :
    ∃ rest, unifyChars cs = '\n' :: rest := by
  fun_cases unifyChars cs with
  | case1 => simp at h
  | case2 cs => exact ⟨unifyChars cs, rfl⟩
  | case3 c cs =>
    have hc : c = '\n' ∨ c = '\r' := by simpa using h
    refine ⟨unifyChars cs, ?_⟩
    rcases hc with rfl | rfl <;> rfl

theorem not_mem_unifyChars (xs : List Char) : '\r' ∉ unifyChars xs := by
  fun_induction unifyChars xs with
  | case1 => exact List.not_mem_nil
  | case2 xs ih => simpa using ih
  | case3 c xs _ ih =>
    rw [List.mem_cons, not_or]
    refine ⟨?_, ih⟩
    split_ifs with hc
    · decide
    · exact fun heq => hc heq.symm

/-- Lines are cut one part after the other if the first part ends with a line. -/
theorem cutAfterLineFeed_append_lines {xs : List Char} (h : ∀ c ∈ xs.getLast?, c = '\n')
    (ys : List Char) :
    cutAfterLineFeed (xs ++ ys) = cutAfterLineFeed xs ++ cutAfterLineFeed ys := by
  induction xs with
  | nil => rfl
  | cons c xs ih =>
    rw [List.cons_append, cutAfterLineFeed, cutAfterLineFeed]
    cases xs with
    | nil =>
      rw [if_pos (h c rfl), if_pos (h c rfl)]
      rfl
    | cons d xs =>
      have hcut := ih fun e he => h e (by rwa [List.getLast?_cons_cons])
      rw [hcut]
      cases hd : cutAfterLineFeed (d :: xs) with
      | nil =>
        have hflatten := cutAfterLineFeed_flatten (d :: xs)
        rw [hd] at hflatten
        cases hflatten
      | cons l ls => split <;> rfl

/-- Characters before the first line feed go before the first line. -/
theorem cutAfterLineFeed_open {xs : List Char} (h : '\n' ∉ xs) (ys : List Char) :
    cutAfterLineFeed (xs ++ ys) = match cutAfterLineFeed ys with
      | [] => if xs = [] then [] else [xs]
      | l :: ls => (xs ++ l) :: ls := by
  induction xs with
  | nil => cases hys : cutAfterLineFeed ys <;> simp [hys]
  | cons c xs ih =>
    simp only [List.mem_cons, not_or] at h
    rw [List.cons_append, cutAfterLineFeed, if_neg (Ne.symm h.1), ih h.2]
    cases cutAfterLineFeed ys with
    | nil => cases xs <;> rfl
    | cons l ls => rfl

/-- What stands before a separator that is not in the first part. -/
theorem beforeChars_append_of_apart {sep xs ys : List Char} (hsep : sep ≠ [])
    (hxs : ¬ sep <:+: xs) (h : Apart sep xs ys) :
    beforeChars sep (xs ++ ys) = xs ++ beforeChars sep ys := by
  obtain ⟨init, last, first, rest, hinit, hys, hboth⟩ := splitChars_append_of_apart hsep h
  have hall := splitChars_eq_singleton hxs
  obtain ⟨rfl, hlast⟩ :=
    List.append_inj' (show [] ++ [xs] = init ++ [last] from hall.symm.trans hinit) rfl
  cases hlast
  rw [beforeChars_eq_headD, beforeChars_eq_headD, hboth, hys]
  rfl

end SourceScribe.Text
