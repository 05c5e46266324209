/-
  Texts laid out with white space between them.

  `Trail ws cs`: the text `cs` is made of the texts `ws` in their order, with any white space
  before each of them and at the end.  What is read back from such a text does not depend on
  the white space:

  * `Trail.strip`, `Trail.stripChars_eq`: white space taken off the ends leaves a trail, and of
    a single text just that text;
  * `Trail.pieces`: a trail of groups with a mark between them falls into trails of the groups
    where it is split at the mark;
  * `Trail.dropBlankLines`: a trail without its blank lines is a trail of the same texts, if no
    line ends within them.
-/
import Mathlib.Data.List.Chain
import Mathlib.Data.List.TakeWhile
import SourceScribe.Proofs.Text.Split

namespace SourceScribe.Text

/-- White space only. -/
def IsGap (gap : List Char) : Prop := ∀ c ∈ gap, isBlank c = true

instance : DecidablePred IsGap := fun gap => List.decidableBAll (isBlank · = true) gap

/-- What can be checked for one character after the other. -/
theorem forall_mem_of_all {p : Char → Prop} [DecidablePred p] {cs : List Char}
    (h : (cs.all fun c => decide (p c)) = true) : ∀ c ∈ cs, p c :=
  fun c hc => of_decide_eq_true (List.all_eq_true.1 h c hc)

/-- The texts `ws` with white space before each and at the end. -/
inductive Trail : List (List Char) → List Char → Prop
  | nil {gap : List Char} : IsGap gap → Trail [] gap
  | cons {gap w : List Char} {ws : List (List Char)} {cs : List Char} :
      IsGap gap → Trail ws cs → Trail (w :: ws) (gap ++ (w ++ cs))

/-- A text on one line that neither begins nor ends with white space. -/
structure Solid (w : List Char) : Prop where
  nonempty : w ≠ []
  head : ∀ c ∈ w.head?, isBlank c = false
  last : ∀ c ∈ w.getLast?, isBlank c = false
  unbroken : ∀ c ∈ w, isLineBoundary c = false

theorem isGap_nil : IsGap [] := nofun

theorem IsGap.append {gap gap' : List Char} (h : IsGap gap) (h' : IsGap gap') :
    IsGap (gap ++ gap') :=
  fun c hc => (List.mem_append.1 hc).elim (h c) (h' c)

theorem IsGap.reverse {gap : List Char} (h : IsGap gap) : IsGap gap.reverse :=
  fun c hc => h c (List.mem_reverse.1 hc)

theorem Solid.reverse {w : List Char} (h : Solid w) : Solid w.reverse where
  nonempty := by simpa using h.nonempty
  head := by simpa using h.last
  last := by simpa using h.head
  unbroken := by simpa using h.unbroken

theorem isBlank_of_head?_stripChars {cs : List Char} {c : Char}
    (h : (stripChars cs).head? = some c) : isBlank c = false := by
  have hbegin : stripChars cs <+: cs.dropWhile isBlank := by
    rw [stripChars, ← List.reverse_suffix, List.reverse_reverse]
    exact List.dropWhile_suffix _
  have hhead := List.head?_dropWhile_not isBlank cs
  obtain ⟨rest, hrest⟩ := List.head?_eq_some_iff.1 h
  obtain ⟨more, hmore⟩ := hbegin
  rwa [← hmore, hrest] at hhead

namespace Trail

variable {ws vs : List (List Char)} {cs ds gap w : List Char}

theorem gap_append (hgap : IsGap gap) (h : Trail ws cs) : Trail ws (gap ++ cs) := by
  cases h with
  | nil h => exact .nil (hgap.append h)
  | cons h hws =>
    rw [← List.append_assoc]
    exact .cons (hgap.append h) hws

theorem append (h : Trail ws cs) (h' : Trail vs ds) : Trail (ws ++ vs) (cs ++ ds) := by
  induction h with
  | nil hgap => exact gap_append hgap h'
  | cons hgap _ ih =>
    rw [List.append_assoc, List.append_assoc]
    exact .cons hgap ih

theorem of_append (h : Trail (ws ++ vs) cs) :
    ∃ xs ys, cs = xs ++ ys ∧ Trail ws xs ∧ Trail vs ys := by
  induction ws generalizing cs with
  | nil => exact ⟨[], cs, rfl, .nil isGap_nil, h⟩
  | cons w ws ih =>
    cases h with
    | cons hgap h =>
      obtain ⟨xs, ys, rfl, hxs, hys⟩ := ih h
      exact ⟨_, ys, by simp only [List.append_assoc], .cons hgap hxs, hys⟩

theorem reverse (h : Trail ws cs) : Trail (ws.map List.reverse).reverse cs.reverse := by
  induction h with
  | nil hgap => exact .nil hgap.reverse
  | @cons gap w ws cs hgap _ ih =>
    have hw : Trail [w.reverse] (w.reverse ++ gap.reverse) := .cons isGap_nil (.nil hgap.reverse)
    simpa using ih.append hw

/-- Every character is white space or one of the texts'. -/
theorem mem {c : Char} (h : Trail ws cs) (hc : c ∈ cs) : isBlank c = true ∨ ∃ w ∈ ws, c ∈ w := by
  induction h with
  | nil hgap => exact .inl (hgap c hc)
  | cons hgap _ ih =>
    rcases List.mem_append.1 hc with hc | hc
    · exact .inl (hgap c hc)
    rcases List.mem_append.1 hc with hc | hc
    · exact .inr ⟨_, List.mem_cons_self, hc⟩
    · exact (ih hc).imp_right fun ⟨w, hw, hcw⟩ => ⟨w, List.mem_cons_of_mem _ hw, hcw⟩

/-! ## White space at the ends -/

end Trail

theorem dropWhile_gap_append {gap w : List Char} (hgap : IsGap gap) (hw : Solid w)
    (rest : List Char) : (gap ++ (w ++ rest)).dropWhile isBlank = w ++ rest := by
  rw [List.dropWhile_append_of_pos hgap]
  cases w with
  | nil => exact absurd rfl hw.nonempty
  | cons c w =>
    have hc : ¬ isBlank c = true := by rw [hw.head c rfl]; exact Bool.false_ne_true
    exact List.dropWhile_cons_of_neg hc

theorem stripChars_gap {gap : List Char} (hgap : IsGap gap) : stripChars gap = [] := by
  rw [stripChars, List.dropWhile_eq_nil_iff.2 hgap]
  rfl

theorem isGap_of_stripChars_eq_nil {cs : List Char} (h : stripChars cs = []) : IsGap cs := by
  rw [stripChars, List.reverse_eq_nil_iff, List.dropWhile_eq_nil_iff] at h
  intro c hc
  rw [← List.takeWhile_append_dropWhile (p := isBlank) (l := cs)] at hc
  rcases List.mem_append.1 hc with hc | hc
  · exact List.mem_takeWhile_imp hc
  · exact h c (List.mem_reverse.2 hc)

namespace Trail

variable {ws vs : List (List Char)} {cs ds gap w : List Char}

theorem dropWhile (h : Trail ws cs) (hsolid : ∀ w ∈ ws, Solid w) :
    Trail ws (cs.dropWhile isBlank) := by
  cases h with
  | nil hgap =>
    rw [List.dropWhile_eq_nil_iff.2 hgap]
    exact .nil isGap_nil
  | cons hgap h =>
    rw [dropWhile_gap_append hgap (hsolid _ List.mem_cons_self)]
    exact .cons isGap_nil h

theorem strip (h : Trail ws cs) (hsolid : ∀ w ∈ ws, Solid w) : Trail ws (stripChars cs) := by
  have hreverse : ∀ w ∈ (ws.map List.reverse).reverse, Solid w := by
    simp only [List.mem_reverse, List.mem_map]
    rintro _ ⟨w, hw, rfl⟩
    exact (hsolid w hw).reverse
  have := ((h.dropWhile hsolid).reverse.dropWhile hreverse).reverse
  simpa [stripChars, Function.comp_def] using this

/-- A single text is what is left of its trail without the white space at the ends. -/
theorem stripChars_eq (h : Trail [w] cs) (hw : Solid w) : stripChars cs = w := by
  cases h with
  | cons hgap h =>
    cases h with
    | nil hgap' =>
      have hreverse := hgap'.reverse
      have hdrop := dropWhile_gap_append hreverse hw.reverse []
      rw [stripChars, dropWhile_gap_append hgap hw, List.reverse_append,
        ← List.append_nil w.reverse, hdrop]
      simp

/-! ## Marks -/

/-- A trail of groups with a mark between them, split at the mark. -/
theorem pieces {s : Char} : ∀ {groups : List (List (List Char))} {cs : List Char}, groups ≠ [] →
    Trail ([[s]].intercalate groups) cs →
      ∃ pieces, pieces ≠ [] ∧ cs = [s].intercalate pieces ∧ List.Forall₂ Trail groups pieces
  | [group], cs, _, h => by
    rw [List.intercalate_singleton] at h
    exact ⟨[cs], List.cons_ne_nil _ _, List.intercalate_singleton.symm, .cons h .nil⟩
  | group :: next :: groups, cs, _, h => by
    rw [List.intercalate_cons_cons, List.append_assoc] at h
    obtain ⟨xs, ys, rfl, hxs, hys⟩ := h.of_append
    cases hys with
    | @cons gap _ _ zs hgap hzs =>
      obtain ⟨pieces, hne, rfl, hpieces⟩ := Trail.pieces (List.cons_ne_nil _ _) hzs
      have hxs' : Trail group (xs ++ gap) := by simpa using hxs.append (.nil hgap)
      refine ⟨(xs ++ gap) :: pieces, List.cons_ne_nil _ _, ?_, .cons hxs' hpieces⟩
      cases pieces with
      | nil => exact absurd rfl hne
      | cons p pieces => simp [List.intercalate_cons_cons]

/-- A mark that is not in the texts splits a trail into the trails of the groups. -/
theorem splitChars {s : Char} {groups : List (List (List Char))} (hne : groups ≠ [])
    (hs : isBlank s = false) (hgroups : ∀ g ∈ groups, ∀ w ∈ g, s ∉ w)
    (h : Trail ([[s]].intercalate groups) cs) :
    List.Forall₂ Trail groups (Text.splitChars [s] cs) := by
  obtain ⟨pieces, hpieces, rfl, htrails⟩ := h.pieces hne
  have hmark : ∀ p ∈ pieces, s ∉ p := by
    intro p hp hsp
    obtain ⟨i, hi, rfl⟩ := List.getElem_of_mem hp
    have hg : i < groups.length := htrails.length_eq ▸ hi
    rcases (htrails.get hg hi).mem hsp with hblank | ⟨w, hw, hsw⟩
    · exact Bool.noConfusion (hblank.symm.trans hs)
    · exact hgroups _ (List.getElem_mem hg) w hw hsw
  rw [splitChars_intercalate hpieces hmark]
  exact htrails

end Trail

/-! ## A keyword -/

/-- A keyword that is in neither of two texts is not across their seam, if one of the
    characters there is not the keyword's. -/
theorem not_infix_append {key xs ys : List Char} (hxs : ¬ key <:+: xs) (hys : ¬ key <:+: ys)
    (h : (∀ c ∈ xs.getLast?, c ∉ key) ∨ ∀ c ∈ ys.head?, c ∉ key) : ¬ key <:+: xs ++ ys := by
  rw [List.infix_append_iff]
  rintro (hi | hi | ⟨l₁, l₂, rfl, hsuffix, hprefix⟩)
  · exact hxs hi
  · exact hys hi
  · rcases List.eq_nil_or_concat l₁ with rfl | ⟨l₁, c, rfl⟩
    · exact hys hprefix.isInfix
    cases l₂ with
    | nil => exact hxs (by simpa using hsuffix.isInfix)
    | cons d l₂ =>
      rcases h with h | h
      · obtain ⟨t, rfl⟩ := hsuffix
        exact h c (by simp) (by simp)
      · obtain ⟨t, rfl⟩ := hprefix
        exact h d (by simp) (by simp)

/-- Of two texts side by side, one has at the seam a character that is not the keyword's. -/
def Parted (key v w : List Char) : Prop :=
  (∀ c ∈ v.getLast?, c ∉ key) ∨ ∀ c ∈ w.head?, c ∉ key

namespace Trail

variable {ws : List (List Char)} {cs key : List Char}

theorem head (h : Trail ws cs) (hsolid : ∀ w ∈ ws, Solid w) {c : Char} (hc : c ∈ cs.head?) :
    isBlank c = true ∨ ∃ w ∈ ws.head?, c ∈ w.head? := by
  cases h with
  | nil hgap => exact .inl (hgap c (List.mem_of_mem_head? hc))
  | @cons gap w ws cs hgap h =>
    cases gap with
    | cons d gap =>
      cases hc
      exact .inl (hgap c List.mem_cons_self)
    | nil =>
      cases w with
      | nil => exact absurd rfl (hsolid [] List.mem_cons_self).nonempty
      | cons d w => exact .inr ⟨d :: w, rfl, hc⟩

/-- A keyword without white space that is in none of the texts is not in their trail, if
    texts side by side are parted. -/
theorem not_infix (hne : key ≠ []) (hkey : ∀ c ∈ key, isBlank c = false) (h : Trail ws cs)
    (hsolid : ∀ w ∈ ws, Solid w) (hws : ∀ w ∈ ws, ¬ key <:+: w)
    (hparted : ws.IsChain (Parted key)) : ¬ key <:+: cs := by
  have hblank : ∀ {c}, isBlank c = true → c ∉ key :=
    fun hc hmem => Bool.noConfusion (hc.symm.trans (hkey _ hmem))
  have hgaps : ∀ {gap}, IsGap gap → ¬ key <:+: gap := by
    intro gap hgap hi
    obtain ⟨c, hc⟩ := List.exists_mem_of_ne_nil key hne
    exact hblank (hgap c (hi.subset hc)) hc
  induction h with
  | nil hgap => exact hgaps hgap
  | @cons gap w ws cs hgap h ih =>
    obtain ⟨hw, hws⟩ := List.forall_mem_cons.1 hws
    obtain ⟨hsw, hsolid⟩ := List.forall_mem_cons.1 hsolid
    have hcs := ih hsolid hws hparted.tail
    have hseam : Parted key w cs := by
      by_cases hlast : ∀ c ∈ w.getLast?, c ∉ key
      · exact .inl hlast
      · refine .inr fun c hc => ?_
        rcases h.head hsolid hc with hc | ⟨v, hv, hc⟩
        · exact hblank hc
        · cases ws with
          | nil => cases hv
          | cons u ws =>
            cases hv
            rcases (List.isChain_cons_cons.1 hparted).1 with hl | hr
            · exact absurd hl hlast
            · exact hr c hc
    refine not_infix_append (hgaps hgap) (not_infix_append hw hcs hseam) (.inl fun c hc => ?_)
    exact hblank (hgap c (List.mem_of_getLast? hc))

end Trail

/-! ## Blank lines -/

/-- Whether a line has nothing but white space. -/
def isBlankLine (l : List Char) : Bool := (stripChars l).isEmpty

/-- A text without its blank lines. -/
def dropBlankLines (cs : List Char) : List Char :=
  ((cutAfterBoundary cs).filter fun l => !isBlankLine l).flatten

/-- A text of which the first line stays even if it is blank. -/
def dropLaterBlankLines (cs : List Char) : List Char :=
  match cutAfterBoundary cs with
  | [] => []
  | l :: ls => l ++ (ls.filter fun l => !isBlankLine l).flatten

theorem isBlankLine_iff {l : List Char} : isBlankLine l = true ↔ IsGap l := by
  rw [isBlankLine, List.isEmpty_iff]
  exact ⟨isGap_of_stripChars_eq_nil, stripChars_gap⟩

theorem isBlankLine_cons {c : Char} {l : List Char} :
    isBlankLine (c :: l) = (isBlank c && isBlankLine l) := by
  rw [Bool.eq_iff_iff, isBlankLine_iff, Bool.and_eq_true, isBlankLine_iff, IsGap,
    List.forall_mem_cons]
  rfl

section
variable {c : Char} (cs : List Char)

theorem dropLaterBlankLines_cons_boundary (hreturn : c ≠ '\r') (h : isLineBoundary c = true) :
    dropLaterBlankLines (c :: cs) = c :: dropBlankLines cs := by
  rw [dropLaterBlankLines, cutAfterBoundary_cons hreturn, h]
  rfl

theorem dropLaterBlankLines_cons (h : isLineBoundary c = false) :
    dropLaterBlankLines (c :: cs) = c :: dropLaterBlankLines cs := by
  rw [dropLaterBlankLines, cutAfterBoundary_cons (ne_return_of_not_isLineBoundary h), h,
    dropLaterBlankLines]
  cases cutAfterBoundary cs <;> rfl

theorem dropBlankLines_cons_boundary (hreturn : c ≠ '\r') (h : isLineBoundary c = true)
    (hblank : isBlank c = true) : dropBlankLines (c :: cs) = dropBlankLines cs := by
  have hline : isBlankLine [c] = true := by rw [isBlankLine_cons, hblank]; rfl
  rw [dropBlankLines, cutAfterBoundary_cons hreturn, h, if_pos rfl, List.filter_cons_of_neg]
  · rfl
  · rw [hline]; exact Bool.false_ne_true

/-- A character that is not white space keeps its line. -/
theorem dropBlankLines_cons (h : isLineBoundary c = false) (hblank : isBlank c = false) :
    dropBlankLines (c :: cs) = c :: dropLaterBlankLines cs := by
  have hline : ∀ l, isBlankLine (c :: l) = false := fun l => by rw [isBlankLine_cons, hblank]; rfl
  rw [dropBlankLines, cutAfterBoundary_cons (ne_return_of_not_isLineBoundary h), h,
    dropLaterBlankLines]
  cases cutAfterBoundary cs <;> simp [hline]

/-- White space within a line stays just if the line does. -/
theorem dropBlankLines_cons_blank (h : isLineBoundary c = false) (hblank : isBlank c = true) :
    dropBlankLines (c :: cs) = dropBlankLines cs ∨
      dropBlankLines (c :: cs) = c :: dropBlankLines cs := by
  have hline : ∀ l, isBlankLine (c :: l) = isBlankLine l := fun l => by
    rw [isBlankLine_cons, hblank, Bool.true_and]
  rw [dropBlankLines, dropBlankLines, cutAfterBoundary_cons (ne_return_of_not_isLineBoundary h), h]
  cases cutAfterBoundary cs with
  | nil =>
    have hone : isBlankLine [c] = true := hline []
    exact .inl (by simp [hone])
  | cons l ls =>
    cases hl : isBlankLine l
    · exact .inr (by simp [hline, hl])
    · exact .inl (by simp [hline, hl])

end

theorem dropLaterBlankLines_append {xs : List Char} (h : ∀ c ∈ xs, isLineBoundary c = false)
    (ys : List Char) : dropLaterBlankLines (xs ++ ys) = xs ++ dropLaterBlankLines ys := by
  induction xs with
  | nil => rfl
  | cons c xs ih =>
    obtain ⟨hc, hxs⟩ := List.forall_mem_cons.1 h
    rw [List.cons_append, dropLaterBlankLines_cons _ hc, ih hxs]
    rfl

namespace Trail

variable {ws : List (List Char)} {cs : List Char}

/-- White space before a trail is dropped with its line or stays. -/
theorem gap_dropBlankLines {gap : List Char} (hgap : IsGap gap) (hreturn : '\r' ∉ gap)
    (h : Trail ws (Text.dropBlankLines cs) ∧ Trail ws (dropLaterBlankLines cs)) :
    Trail ws (Text.dropBlankLines (gap ++ cs)) ∧ Trail ws (dropLaterBlankLines (gap ++ cs)) := by
  induction gap with
  | nil => exact h
  | cons c gap ih =>
    obtain ⟨hc, hgap⟩ := List.forall_mem_cons.1 hgap
    simp only [List.mem_cons, not_or] at hreturn
    obtain ⟨hdrop, hlater⟩ := ih hgap hreturn.2
    have hcr : c ≠ '\r' := Ne.symm hreturn.1
    have hone : IsGap [c] := List.forall_mem_singleton.2 hc
    rw [List.cons_append]
    cases hb : isLineBoundary c
    · rw [dropLaterBlankLines_cons _ hb]
      refine ⟨?_, hlater.gap_append hone⟩
      rcases dropBlankLines_cons_blank (gap ++ cs) hb hc with heq | heq
      · exact heq ▸ hdrop
      · exact heq ▸ hdrop.gap_append hone
    · rw [dropLaterBlankLines_cons_boundary _ hcr hb, dropBlankLines_cons_boundary _ hcr hb hc]
      exact ⟨hdrop, hdrop.gap_append hone⟩

/-- A trail without its blank lines; the first line may be one that stays in any case. -/
theorem dropBlankLines (h : Trail ws cs) (hsolid : ∀ w ∈ ws, Solid w) (hreturn : '\r' ∉ cs) :
    Trail ws (Text.dropBlankLines cs) ∧ Trail ws (dropLaterBlankLines cs) := by
  induction h with
  | nil hgap =>
    have hnil : Trail [] (Text.dropBlankLines []) ∧ Trail [] (dropLaterBlankLines []) :=
      ⟨.nil isGap_nil, .nil isGap_nil⟩
    simpa using gap_dropBlankLines hgap hreturn hnil
  | @cons gap w ws cs hgap h ih =>
    obtain ⟨hw, hsolid⟩ := List.forall_mem_cons.1 hsolid
    simp only [List.mem_append, not_or] at hreturn
    have hlater : Trail (w :: ws) (w ++ dropLaterBlankLines cs) :=
      .cons isGap_nil (ih hsolid hreturn.2.2).2
    refine gap_dropBlankLines hgap hreturn.1 ⟨?_, ?_⟩
    · cases w with
      | nil => exact absurd rfl hw.nonempty
      | cons c w =>
        obtain ⟨hc, hunbroken⟩ := List.forall_mem_cons.1 hw.unbroken
        rw [List.cons_append, dropBlankLines_cons _ hc (hw.head c rfl),
          dropLaterBlankLines_append hunbroken]
        exact hlater
    · rw [dropLaterBlankLines_append hw.unbroken]
      exact hlater

/-- The lines of a trail: blank ones, then one with the first text on it, then others with
    nothing but what comes after that text. -/
theorem exists_lines {w : List Char} (h : Trail (w :: ws) cs) (hw : Solid w) (hreturn : '\r' ∉ cs) :
    ∃ blanks first later, cutAfterBoundary cs = blanks ++ first :: later ∧
      (∀ l ∈ blanks, isBlankLine l = true) ∧ isBlankLine first = false ∧ w ⊆ first ∧
      ∃ rest, Trail ws rest ∧ ∀ l ∈ later, l ⊆ rest := by
  cases h with
  | @cons gap _ _ rest hgap hrest =>
    induction gap with
    | nil =>
      obtain ⟨l, later, hcut, hflatten⟩ :=
        exists_cutAfterBoundary_append hw.nonempty hw.unbroken rest
      refine ⟨[], w ++ l, later, hcut, nofun, ?_, List.subset_append_left w l, rest, hrest, ?_⟩
      · cases w with
        | nil => exact absurd rfl hw.nonempty
        | cons c w => rw [List.cons_append, isBlankLine_cons, hw.head c rfl]; rfl
      · intro x hx c hc
        rw [← hflatten]
        exact List.mem_append_right l (List.mem_flatten.2 ⟨x, hx, hc⟩)
    | cons c gap ih =>
      obtain ⟨hc, hgap⟩ := List.forall_mem_cons.1 hgap
      simp only [List.cons_append, List.mem_cons, not_or] at hreturn
      obtain ⟨blanks, first, later, hcut, hblanks, hfirst, hsub, hrest⟩ := ih hgap hreturn.2
      rw [List.cons_append, cutAfterBoundary_cons (Ne.symm hreturn.1), hcut]
      have hblank : ∀ l, isBlankLine (c :: l) = isBlankLine l := fun l => by
        rw [isBlankLine_cons, hc, Bool.true_and]
      cases hb : isLineBoundary c
      · cases blanks with
        | nil =>
          exact ⟨[], c :: first, later, rfl, nofun, (hblank first).trans hfirst,
            fun x hx => List.mem_cons_of_mem c (hsub hx), hrest⟩
        | cons l blanks =>
          obtain ⟨hl, hblanks⟩ := List.forall_mem_cons.1 hblanks
          exact ⟨(c :: l) :: blanks, first, later, rfl,
            List.forall_mem_cons.2 ⟨(hblank l).trans hl, hblanks⟩, hfirst, hsub, hrest⟩
      · exact ⟨[c] :: blanks, first, later, rfl,
          List.forall_mem_cons.2 ⟨hblank [], hblanks⟩, hfirst, hsub, hrest⟩

end Trail

end SourceScribe.Text
