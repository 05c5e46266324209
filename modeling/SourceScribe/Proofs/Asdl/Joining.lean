/-
  Definitions in which two lines are joined.

  The lines of a text are put together to definitions one after the other
  (`gatherChars_append`), and where a line feed is taken out, two lines become one.  `Fits`
  says where that does no harm, and `gatherChars_joined` that there only white space at a mark
  changes, in a single definition.

  Where both lines have an equals sign, a definition with two of them comes of it
  (`gatherChars_clash`).
-/
import SourceScribe.Proofs.Asdl.Lines
import SourceScribe.Proofs.Asdl.Respacing

namespace SourceScribe.Asdl

open Text (IsGap isBlank isBlankLine isBlankLine_iff cutAfterBoundary openLine ink ink_append
  ink_eq_nil_iff)

/-! ## Where lines can be joined -/

/-- The first line is blank, or there is none. -/
def startsBlank (cs : List Char) : Bool := (cutAfterBoundary cs).head?.all isBlankLine

/-- The last line of `xs` and the first line of `ys` can be joined.  If a definition begins
    next, one of the two lines is blank.  If a definition goes on, both are, or it can be
    broken off here. -/
def Fits (xs ys : List Char) : Prop :=
  ∀ l ∈ (cutAfterBoundary ys).find? fun l => !isBlankLine l,
    if '=' ∈ l then isBlankLine (openLine xs) = true ∨ startsBlank ys = true
    else (isBlankLine (openLine xs) = true ∧ startsBlank ys = true) ∨
      Meets (opened xs) (l.dropWhile isBlank)

/-- A definition with other white space: before it, or at a place where it can be broken
    off.  The text up to that place has the last ink of `xs`. -/
inductive Respaced (xs : List Char) : List Char → List Char → Prop
  | lead {gap d : List Char} : IsGap gap → Respaced xs d (gap ++ d)
  | seam {us w w' vs : List Char} : IsGap w → IsGap w' → '=' ∈ us → ink us <:+ ink xs →
      Meets (opened xs) (vs.dropWhile isBlank) → Respaced xs (us ++ (w ++ vs)) (us ++ (w' ++ vs))

theorem afterLast_ink {m : Char} (hm : isBlank m = false) (cs : List Char) :
    Text.afterLast m (ink cs) = ink (Text.afterLast m cs) := by
  obtain ⟨init, h⟩ := Text.exists_splitChars_eq m cs
  rw [Text.afterLast, Text.splitChars_ink hm, h]
  simp

/-- What stands after the last mark of a text is at its end. -/
theorem afterLast_of_suffix {m : Char} {xs ys : List Char} (hm : m ∈ xs) (h : xs <:+ ys) :
    Text.afterLast m ys = Text.afterLast m xs := by
  obtain ⟨front, rfl⟩ := h
  obtain ⟨init, last, first, rest, -, hxs, hboth⟩ :=
    Text.splitChars_append_of_apart (List.cons_ne_nil m []) (Text.apart_singleton m front xs)
  cases rest with
  | nil =>
    have hfirst := Text.eq_of_splitChars (List.cons_ne_nil m []) hxs
    exact absurd (hfirst ▸ hm) (Text.not_mem_of_mem_splitChars (hxs ▸ List.mem_cons_self))
  | cons p rest =>
    have hpieces : init ++ (last ++ first) :: p :: rest
        = (init ++ [last ++ first]) ++ p :: rest := by simp
    rw [Text.afterLast, Text.afterLast, hboth, hxs, hpieces, ← List.singleton_append (x := first),
      List.getLastD_eq_getLast?, List.getLastD_eq_getLast?,
      List.getLast?_append_of_ne_nil _ (List.cons_ne_nil p rest),
      List.getLast?_append_of_ne_nil _ (List.cons_ne_nil p rest)]

theorem ink_afterLast_of_suffix {xs ys : List Char} (hequals : '=' ∈ xs)
    (h : ink xs <:+ ink ys) :
    ink (Text.afterLast '=' ys) = ink (Text.afterLast '=' xs) := by
  rw [← afterLast_ink rfl, ← afterLast_ink rfl]
  exact afterLast_of_suffix ((Text.mem_ink_iff rfl).2 hequals) h

theorem opened_of_suffix {xs ys : List Char} (hequals : '=' ∈ xs) (h : ink xs <:+ ink ys) :
    opened ys = opened xs := by
  have hopened : ∀ cs, opened cs = Text.afterLast '|' (ink (Text.afterLast '=' cs)) :=
    fun cs => (afterLast_ink rfl _).symm
  rw [hopened, hopened, ink_afterLast_of_suffix hequals h]

/-- A respaced definition says the same, but for white space in its attributes, and at all if
    they are not before the place. -/
theorem Respaced.clauseOf {xs d d' : List Char} (h : Respaced xs d d') :
    (Asdl.clauseOf (String.ofList d')).map Clause.loose
        = (Asdl.clauseOf (String.ofList d)).map Clause.loose ∧
      (¬ keyword <:+: ink (Text.afterLast '=' xs) →
        Asdl.clauseOf (String.ofList d') = Asdl.clauseOf (String.ofList d)) := by
  cases h with
  | lead hgap =>
    rw [clauseOf_gap_append hgap]
    exact ⟨rfl, fun _ => rfl⟩
  | @seam us w w' vs hw hw' hequals hink hmeets =>
    rw [opened_of_suffix hequals hink] at hmeets
    obtain ⟨hloose, hsame⟩ := clauseOf_respaced hw' hw hequals hmeets
    refine ⟨hloose, fun hfree => hsame fun hinside => hfree ?_⟩
    rw [ink_afterLast_of_suffix hequals hink]
    have hkeyword : ink keyword = keyword := by decide
    rw [← hkeyword]
    exact hinside.filter _

/-! ## Lines one after the other -/

theorem map_nil_append {α : Type} (r : Except Fault (List α)) : r.map ([] ++ ·) = r := by
  cases r <;> rfl

theorem map_append_append {α : Type} (r : Except Fault (List α)) (xs ys : List α) :
    (r.map (ys ++ ·)).map (xs ++ ·) = r.map (xs ++ ys ++ ·) := by
  cases r
  · rfl
  · simp [Except.map]

theorem exists_of_map_append {α : Type} {r : Except Fault (List α)} {xs zs : List α}
    (h : r.map (xs ++ ·) = .ok zs) : ∃ ys, r = .ok ys ∧ zs = xs ++ ys := by
  cases r with
  | error f => cases h
  | ok ys =>
    cases h
    exact ⟨ys, rfl, rfl⟩

section

variable {current : Option (List Char)} {l : List Char} (ls : List (List Char))

theorem gatherChars_blank (h : isBlankLine l = true) :
    gatherChars current (l :: ls) = gatherChars current ls := by
  cases current <;> rw [gatherChars, if_pos h]

theorem isBlankLine_of_mem_equals (h : '=' ∈ l) : ¬ isBlankLine l = true :=
  fun hblank => (isBlankLine_iff.1 hblank).not_mem rfl h

/-- A line with an equals sign ends the definition before it. -/
theorem gatherChars_begin (h : '=' ∈ l) : gatherChars current (l :: ls)
    = (gatherChars (some l) ls).map (current.toList.map some ++ ·) := by
  cases current with
  | none =>
    rw [gatherChars, if_neg (isBlankLine_of_mem_equals h), if_pos h]
    exact (map_nil_append _).symm
  | some d =>
    rw [gatherChars, if_neg (isBlankLine_of_mem_equals h), if_pos h]
    cases gatherChars (some l) ls <;> rfl

/-- Any other line belongs to the definition before it. -/
theorem gatherChars_more {d : List Char} (hblank : ¬ isBlankLine l = true) (h : '=' ∉ l) :
    gatherChars (some d) (l :: ls) = gatherChars (some (d ++ l)) ls := by
  rw [gatherChars, if_neg hblank, if_neg h]

theorem gatherChars_none (hblank : ¬ isBlankLine l = true) (h : '=' ∉ l) :
    gatherChars none (l :: ls) = .error .noEqualsSign := by
  rw [gatherChars, if_neg hblank, if_neg h]

end

/-- What some lines leave for those after them: the definitions that they end, and the
    current one.  It has an equals sign and the last ink of the lines. -/
theorem gatherChars_append (ls : List (List Char)) (current : Option (List Char))
    (hcurrent : ∀ d ∈ current, '=' ∈ d) :
    (∀ more, gatherChars current (ls ++ more) = .error .noEqualsSign) ∨
    ∃ ds next, (∀ more, gatherChars current (ls ++ more)
        = (gatherChars next more).map (ds ++ ·)) ∧
      ∀ d ∈ next, '=' ∈ d ∧ ink d <:+ ink (current.getD [] ++ ls.flatten) := by
  induction ls generalizing current with
  | nil =>
    refine .inr ⟨[], current, fun more => (map_nil_append _).symm, fun d hd => ⟨hcurrent d hd, ?_⟩⟩
    rw [Option.mem_def.1 hd]
    simp
  | cons l ls ih =>
    simp only [List.cons_append, List.flatten_cons]
    by_cases hblank : isBlankLine l = true
    · have hink : ink (current.getD [] ++ (l ++ ls.flatten)) = ink (current.getD [] ++ ls.flatten) := by
        simp [ink_append, ink_eq_nil_iff.2 (isBlankLine_iff.1 hblank)]
      simp only [gatherChars_blank _ hblank, hink]
      exact ih current hcurrent
    by_cases hequals : '=' ∈ l
    · simp only [gatherChars_begin _ hequals]
      rcases ih (some l) (by simpa using hequals) with herror | ⟨ds, next, hmore, hnext⟩
      · refine .inl fun more => ?_
        rw [herror]
        rfl
      · refine .inr ⟨current.toList.map some ++ ds, next, fun more => ?_, fun d hd => ?_⟩
        · rw [hmore, map_append_append]
        · obtain ⟨hd', hend⟩ := hnext d hd
          exact ⟨hd', hend.trans ((List.suffix_append _ _).filter _)⟩
    · cases current with
      | none => exact .inl fun more => gatherChars_none _ hblank hequals
      | some d =>
        simp only [gatherChars_more _ hblank hequals]
        have hlonger := ih (some (d ++ l)) (by simpa using .inl (hcurrent d rfl))
        simpa using hlonger

/-- What the whole lines of a text leave for its open line and all after it. -/
theorem gatherChars_openLine {xs : List Char} (hreturn : '\r' ∉ xs) :
    (∀ ys, gatherChars none (cutAfterBoundary (xs ++ ys)) = .error .noEqualsSign) ∨
    ∃ pre next, (∀ ys, gatherChars none (cutAfterBoundary (xs ++ ys))
        = (gatherChars next (cutAfterBoundary (openLine xs ++ ys))).map (pre ++ ·)) ∧
      ∀ d ∈ next, '=' ∈ d ∧ ink (d ++ openLine xs) <:+ ink xs := by
  obtain ⟨closed, hxs, hclosed⟩ := Text.exists_append_openLine xs
  have hreturn' : '\r' ∉ closed := fun hc => hreturn (hxs ▸ List.mem_append_left _ hc)
  have hcut : ∀ ys, cutAfterBoundary (xs ++ ys)
      = cutAfterBoundary closed ++ cutAfterBoundary (openLine xs ++ ys) := by
    intro ys
    conv_lhs => rw [hxs, List.append_assoc]
    exact Text.cutAfterBoundary_append hreturn' hclosed _
  simp only [hcut]
  refine (gatherChars_append (cutAfterBoundary closed) none nofun).imp (fun h ys => h _) ?_
  rintro ⟨pre, next, hmore, hnext⟩
  refine ⟨pre, next, fun ys => hmore _, fun d hd => ?_⟩
  obtain ⟨hequals, front, hfront⟩ := hnext d hd
  rw [Text.cutAfterBoundary_flatten, Option.getD_none, List.nil_append] at hfront
  refine ⟨hequals, front, ?_⟩
  conv_rhs => rw [hxs]
  rw [ink_append, ink_append, ← hfront, List.append_assoc]

/-- What lines add to the current definition, whatever it is, and the definitions after it. -/
theorem gatherChars_some (ls : List (List Char)) :
    ∃ tail ds, (∀ d, gatherChars (some d) ls = .ok (some (d ++ tail) :: ds)) ∧
      (tail = [] ∨ ∃ l more, ls.find? (fun l => !isBlankLine l) = some l ∧ '=' ∉ l ∧
        tail = l ++ more) := by
  induction ls with
  | nil => exact ⟨[], [], fun d => by rw [List.append_nil]; rfl, .inl rfl⟩
  | cons l ls ih =>
    obtain ⟨tail, ds, hgather, htail⟩ := ih
    by_cases hblank : isBlankLine l = true
    · refine ⟨tail, ds, fun d => by rw [gatherChars_blank _ hblank, hgather], ?_⟩
      rwa [List.find?_cons_of_neg (by simp [hblank])]
    by_cases hequals : '=' ∈ l
    · refine ⟨[], some (l ++ tail) :: ds, fun d => ?_, .inl rfl⟩
      rw [gatherChars_begin _ hequals, hgather, List.append_nil]
      rfl
    · refine ⟨l ++ tail, ds, fun d => ?_, .inr ⟨l, tail, ?_, hequals, rfl⟩⟩
      · rw [gatherChars_more _ hblank hequals, hgather, List.append_assoc]
      · rw [List.find?_cons_of_pos (by simp [hblank])]

/-! ## Lines that are joined -/

theorem not_isBlankLine_append {xs : List Char} (h : ¬ isBlankLine xs = true) (ys : List Char) :
    ¬ isBlankLine (xs ++ ys) = true := by
  rw [isBlankLine_iff] at h ⊢
  exact fun hgap => h (hgap.of_subset (List.subset_append_left xs ys))

/-- A line that is not blank, with what else comes on it: the definition that is then the
    current one. -/
theorem gatherChars_line {next : Option (List Char)} {a : List Char}
    (ha : ¬ isBlankLine a = true) (hnext : '=' ∈ a ∨ next.isSome) :
    ∃ us ds, (us = a ∧ '=' ∈ a ∨ ∃ d ∈ next, us = d ++ a) ∧
      ∀ e ls, '=' ∉ e →
        gatherChars next ((a ++ e) :: ls) = (gatherChars (some (us ++ e)) ls).map (ds ++ ·) := by
  by_cases hequals : '=' ∈ a
  · refine ⟨a, next.toList.map some, .inl ⟨rfl, hequals⟩, fun e ls _ => ?_⟩
    exact gatherChars_begin ls (List.mem_append_left e hequals)
  · obtain ⟨d, rfl⟩ := Option.isSome_iff_exists.1 (hnext.resolve_left hequals)
    refine ⟨d ++ a, [], .inr ⟨d, rfl, rfl⟩, fun e ls he => ?_⟩
    have hline : '=' ∉ a ++ e := by
      rw [List.mem_append, not_or]
      exact ⟨hequals, he⟩
    rw [gatherChars_more ls (not_isBlankLine_append ha e) hline, map_nil_append, List.append_assoc]

/-- The same definitions but for one that is respaced. -/
def Alike (xs : List Char) (ds ds' : List (Option (List Char))) : Prop :=
  ds' = ds ∨ ∃ pre d d' post, ds = pre ++ some d :: post ∧ ds' = pre ++ some d' :: post ∧
    Respaced xs d d'

theorem Respaced.alike {xs d d' : List Char} (h : Respaced xs d d')
    (pre post : List (Option (List Char))) :
    Alike xs (pre ++ some d :: post) (pre ++ some d' :: post) :=
  .inr ⟨pre, d, d', post, rfl, rfl, h⟩

theorem Alike.append {xs : List Char} {ds ds' : List (Option (List Char))} (h : Alike xs ds ds')
    (pre : List (Option (List Char))) : Alike xs (pre ++ ds) (pre ++ ds') := by
  rcases h with rfl | ⟨pre', d, d', post, rfl, rfl, h⟩
  · exact .inl rfl
  · exact .inr ⟨pre ++ pre', d, d', post, by simp, by simp, h⟩

theorem dropWhile_append_of_not_blank {l : List Char} (h : ¬ isBlankLine l = true)
    (more : List Char) :
    l.dropWhile isBlank ≠ [] ∧ (l ++ more).dropWhile isBlank = l.dropWhile isBlank ++ more := by
  have hne : l.dropWhile isBlank ≠ [] := by
    rw [isBlankLine_iff] at h
    rwa [ne_eq, List.dropWhile_eq_nil_iff]
  refine ⟨hne, ?_⟩
  rw [List.dropWhile_append, if_neg (by rwa [List.isEmpty_iff])]

/-- A definition can be broken off before what follows on a line if it can be before the
    line. -/
theorem Meets.tail {xs l : List Char} (h : Meets xs (l.dropWhile isBlank))
    (hblank : ¬ isBlankLine l = true) (more : List Char) :
    Meets xs ((l ++ more).dropWhile isBlank) := by
  obtain ⟨hne, hdrop⟩ := dropWhile_append_of_not_blank hblank more
  rw [hdrop]
  exact h.append hne more

section

variable {xs ys b : List Char} {bs : List (List Char)} (hfits : Fits xs ys)
  (hys : cutAfterBoundary ys = b :: bs)

include hfits hys

/-- A line that goes on a definition comes at a mark. -/
theorem Fits.meets (hb : ¬ isBlankLine b = true) (hequals : '=' ∉ b) :
    Meets (opened xs) (b.dropWhile isBlank) := by
  have hline := hfits b (by rw [hys, List.find?_cons_of_pos (by simp [hb])]; rfl)
  rw [if_neg hequals] at hline
  refine hline.resolve_left fun hblanks => hb ?_
  have hstart := hblanks.2
  rwa [startsBlank, hys] at hstart

/-- What goes on a definition behind a blank line comes at a mark. -/
theorem Fits.meets_below (hb : isBlankLine b = true) (hblank : ¬ isBlankLine (openLine xs) = true)
    {tail : List Char} (htail : tail = [] ∨ ∃ l more,
      bs.find? (fun l => !isBlankLine l) = some l ∧ '=' ∉ l ∧ tail = l ++ more) :
    Meets (opened xs) (tail.dropWhile isBlank) := by
  rcases htail with rfl | ⟨l, more, hfind, hl, rfl⟩
  · exact .inr (.inl rfl)
  · have hline := hfits l (by rw [hys, List.find?_cons_of_neg (by simp [hb]), hfind]; rfl)
    rw [if_neg hl] at hline
    have hsolid : ¬ isBlankLine l = true := by simpa using List.find?_some hfind
    exact (hline.resolve_left fun hblanks => hblank hblanks.1).tail hsolid more

/-- A line on which a definition begins comes after a blank one. -/
theorem Fits.isBlankLine_openLine (hequals : '=' ∈ b) : isBlankLine (openLine xs) = true := by
  have hb := isBlankLine_of_mem_equals hequals
  have hline := hfits b (by rw [hys, List.find?_cons_of_pos (by simp [hb])]; rfl)
  rw [if_pos hequals] at hline
  refine hline.resolve_right fun hstart => hb ?_
  rwa [startsBlank, hys] at hstart

end

section

variable {xs ys : List Char} {next : Option (List Char)} {ds : List (Option (List Char))}
  (hnext : ∀ d ∈ next, '=' ∈ d ∧ ink (d ++ openLine xs) <:+ ink xs)

include hnext

/-- The definition that is the current one after a last line that is not blank: it has an
    equals sign and the last ink of the text. -/
theorem exists_current (hblank : ¬ isBlankLine (openLine xs) = true) {e : List Char}
    {ls : List (List Char)} (he : '=' ∉ e)
    (h : gatherChars next ((openLine xs ++ e) :: ls) = .ok ds) :
    ∃ us pre, '=' ∈ us ∧ ink us <:+ ink xs ∧ ∀ e ls, '=' ∉ e →
      gatherChars next ((openLine xs ++ e) :: ls)
        = (gatherChars (some (us ++ e)) ls).map (pre ++ ·) := by
  have hcurrent : '=' ∈ openLine xs ∨ next.isSome := by
    by_contra hno
    rw [not_or, Bool.not_eq_true, Option.isSome_eq_false_iff, Option.isNone_iff_eq_none] at hno
    have hline : '=' ∉ openLine xs ++ e := by
      rw [List.mem_append, not_or]
      exact ⟨hno.1, he⟩
    rw [hno.2, gatherChars_none _ (not_isBlankLine_append hblank e) hline] at h
    cases h
  obtain ⟨us, pre, hus, hgather⟩ := gatherChars_line hblank hcurrent
  refine ⟨us, pre, ?_, ?_, hgather⟩
  · rcases hus with ⟨rfl, hequals⟩ | ⟨d, hd, rfl⟩
    · exact hequals
    · exact List.mem_append_left _ (hnext d hd).1
  · rcases hus with ⟨rfl, -⟩ | ⟨d, hd, rfl⟩
    · obtain ⟨closed, hxs, -⟩ := Text.exists_append_openLine xs
      exact List.IsSuffix.filter _ ⟨closed, hxs.symm⟩
    · exact (hnext d hd).2

variable (hfits : Fits xs ys)

include hfits

/-- A blank line joined with the next one. -/
theorem gatherChars_blank_joined (hblank : isBlankLine (openLine xs) = true)
    (h : gatherChars next (cutAfterBoundary ys) = .ok ds) :
    ∃ ds', gatherChars next (cutAfterBoundary (openLine xs ++ ys)) = .ok ds' ∧
      Alike xs ds ds' := by
  have hgap := isBlankLine_iff.1 hblank
  rw [Text.cutAfterBoundary_open fun c hc => Text.isLineBoundary_of_mem_openLine hc]
  cases hys : cutAfterBoundary ys with
  | nil =>
    rw [hys] at h
    refine ⟨ds, ?_, .inl rfl⟩
    show gatherChars next (if openLine xs = [] then [] else [openLine xs]) = .ok ds
    split_ifs
    · exact h
    · rw [gatherChars_blank _ hblank, h]
  | cons b bs =>
    rw [hys] at h
    show ∃ ds', gatherChars next ((openLine xs ++ b) :: bs) = .ok ds' ∧ Alike xs ds ds'
    by_cases hb : isBlankLine b = true
    · -- two blank lines become one
      refine ⟨ds, ?_, .inl rfl⟩
      rw [gatherChars_blank _ hb] at h
      rw [gatherChars_blank _ (isBlankLine_iff.2 (hgap.append (isBlankLine_iff.1 hb))), h]
    obtain ⟨tail, post, hgather, -⟩ := gatherChars_some bs
    by_cases hequals : '=' ∈ b
    · -- a definition begins with the white space of the blank line
      rw [gatherChars_begin _ hequals, hgather] at h
      cases h
      refine ⟨_, by
        rw [gatherChars_begin _ (List.mem_append_right _ hequals), hgather]; rfl, ?_⟩
      rw [List.append_assoc]
      exact (Respaced.lead hgap).alike _ post
    · -- a definition goes on after the blank line
      cases next with
      | none =>
        rw [gatherChars_none _ hb hequals] at h
        cases h
      | some d =>
        have hboth : ¬ isBlankLine (openLine xs ++ b) = true := by
          rw [isBlankLine_iff] at hb ⊢
          exact fun hgap' => hb (hgap'.of_subset (List.subset_append_right _ _))
        have hnone : '=' ∉ openLine xs ++ b := by
          rw [List.mem_append, not_or]
          exact ⟨hgap.not_mem rfl, hequals⟩
        rw [gatherChars_more _ hb hequals, hgather] at h
        cases h
        refine ⟨some (d ++ (openLine xs ++ b) ++ tail) :: post,
          by rw [gatherChars_more _ hboth hnone, hgather], ?_⟩
        obtain ⟨hd, hink⟩ := hnext d rfl
        rw [ink_append, ink_eq_nil_iff.2 hgap, List.append_nil] at hink
        have hmeets := (hfits.meets hys hb hequals).tail hb tail
        simpa using (Respaced.seam Text.isGap_nil hgap hd hink hmeets).alike [] post

/-- A line joined with the next one. -/
theorem gatherChars_line_joined (hblank : ¬ isBlankLine (openLine xs) = true)
    (h : gatherChars next ((openLine xs ++ ['\n']) :: cutAfterBoundary ys) = .ok ds) :
    ∃ ds', gatherChars next (cutAfterBoundary (openLine xs ++ ys)) = .ok ds' ∧
      Alike xs ds ds' := by
  have hfeed : '=' ∉ ['\n'] := by decide
  have hgap : IsGap ['\n'] := by decide
  obtain ⟨us, pre, hequals, hink, hgather⟩ := exists_current hnext hblank hfeed h
  rw [hgather _ _ hfeed] at h
  rw [Text.cutAfterBoundary_open fun c hc => Text.isLineBoundary_of_mem_openLine hc]
  cases hys : cutAfterBoundary ys with
  | nil =>
    -- nothing comes after the line
    rw [hys] at h
    cases h
    have hne : openLine xs ≠ [] := by
      intro hnil
      exact hblank (by rw [hnil]; rfl)
    have hline := hgather [] [] List.not_mem_nil
    rw [List.append_nil, List.append_nil] at hline
    refine ⟨pre ++ [some us], ?_, ?_⟩
    · show gatherChars next (if openLine xs = [] then [] else [openLine xs]) = _
      rw [if_neg hne, hline]
      rfl
    · have hseam : Respaced xs (us ++ (['\n'] ++ [])) (us ++ ([] ++ [])) :=
        .seam hgap Text.isGap_nil hequals hink (.inr (.inl rfl))
      simpa using hseam.alike pre []
  | cons b bs =>
    rw [hys] at h
    show ∃ ds', gatherChars next ((openLine xs ++ b) :: bs) = .ok ds' ∧ Alike xs ds ds'
    obtain ⟨tail, post, hmore, htail⟩ := gatherChars_some bs
    -- without an equals sign, the next line and `tail` go on the current definition
    have hjoined : '=' ∉ b → gatherChars next ((openLine xs ++ b) :: bs)
        = .ok (pre ++ some (us ++ b ++ tail) :: post) := by
      intro hb
      rw [hgather b bs hb, hmore]
      rfl
    by_cases hb : isBlankLine b = true
    · -- the line is joined with a blank one
      have hgap' := isBlankLine_iff.1 hb
      rw [gatherChars_blank _ hb, hmore] at h
      cases h
      refine ⟨_, hjoined (hgap'.not_mem rfl), ?_⟩
      have hmeets := hfits.meets_below hys hb hblank htail
      simpa using (Respaced.seam hgap hgap' hequals hink hmeets).alike pre post
    by_cases hbegin : '=' ∈ b
    · -- a definition begins on the next line
      exact absurd (hfits.isBlankLine_openLine hys hbegin) hblank
    · rw [gatherChars_more _ hb hbegin, hmore] at h
      cases h
      refine ⟨_, hjoined hbegin, ?_⟩
      have hmeets := (hfits.meets hys hb hbegin).tail hb tail
      simpa using (Respaced.seam hgap Text.isGap_nil hequals hink hmeets).alike pre post

end

/-- **Lines that are joined.**  Where a line feed can be taken out, the definitions stay the
    same but for one that is respaced. -/
theorem gatherChars_joined {xs ys : List Char} {ds : List (Option (List Char))}
    (hreturn : '\r' ∉ xs) (hfits : Fits xs ys)
    (h : gatherChars none (cutAfterBoundary (xs ++ '\n' :: ys)) = .ok ds) :
    ∃ ds', gatherChars none (cutAfterBoundary (xs ++ ys)) = .ok ds' ∧ Alike xs ds ds' := by
  have hopen : ∀ c ∈ openLine xs, Text.isLineBoundary c = false :=
    fun c hc => Text.isLineBoundary_of_mem_openLine hc
  rcases gatherChars_openLine hreturn with herror | ⟨pre, next, hmore, hnext⟩
  · rw [herror] at h
    cases h
  rw [hmore, Text.cutAfterBoundary_feed hopen] at h
  obtain ⟨post, hpost, rfl⟩ := exists_of_map_append h
  have hjoin : ∃ post', gatherChars next (cutAfterBoundary (openLine xs ++ ys)) = .ok post' ∧
      Alike xs post post' := by
    by_cases hblank : isBlankLine (openLine xs) = true
    · have hfeed : isBlankLine (openLine xs ++ ['\n']) = true :=
        isBlankLine_iff.2 ((isBlankLine_iff.1 hblank).append (by decide))
      rw [gatherChars_blank _ hfeed] at hpost
      exact gatherChars_blank_joined hnext hfits hblank hpost
    · exact gatherChars_line_joined hnext hfits hblank hpost
  obtain ⟨post', hpost', halike⟩ := hjoin
  exact ⟨pre ++ post', by rw [hmore, hpost']; rfl, halike.append pre⟩

/-- Where both lines have an equals sign, the definitions that begin on them become one. -/
theorem gatherChars_clash {xs ys b : List Char} {bs : List (List Char)}
    {ds : List (Option (List Char))} (hreturn : '\r' ∉ xs) (hxs : '=' ∈ openLine xs)
    (hys : cutAfterBoundary ys = b :: bs) (hb : '=' ∈ b)
    (h : gatherChars none (cutAfterBoundary (xs ++ '\n' :: ys)) = .ok ds) :
    ∃ pre tail post, ds = pre ++ some (openLine xs ++ ['\n']) :: some (b ++ tail) :: post ∧
      gatherChars none (cutAfterBoundary (xs ++ ys))
        = .ok (pre ++ some (openLine xs ++ b ++ tail) :: post) := by
  have hopen : ∀ c ∈ openLine xs, Text.isLineBoundary c = false :=
    fun c hc => Text.isLineBoundary_of_mem_openLine hc
  rcases gatherChars_openLine hreturn with herror | ⟨pre, next, hmore, -⟩
  · rw [herror] at h
    cases h
  obtain ⟨tail, post, hgather, -⟩ := gatherChars_some bs
  rw [hmore, Text.cutAfterBoundary_feed hopen, hys,
    gatherChars_begin _ (List.mem_append_left _ hxs), gatherChars_begin _ hb, hgather] at h
  cases h
  refine ⟨pre ++ next.toList.map some, tail, post, by simp, ?_⟩
  rw [hmore, Text.cutAfterBoundary_open hopen, hys]
  show (gatherChars next ((openLine xs ++ b) :: bs)).map (pre ++ ·) = _
  rw [gatherChars_begin _ (List.mem_append_left _ hxs), hgather, map_append_append]
  rfl

end SourceScribe.Asdl
