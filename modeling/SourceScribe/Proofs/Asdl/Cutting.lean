/-
  How a source is cut into definitions.

  Blank lines count for nothing (`gatherChars_filter`), and the other lines between the braces
  go to the definitions in their order: a line with an equals sign begins a definition, and the
  lines up to the next one belong to it (`gatherChars_groups`).

  `definitions_lose_nothing` says when the source cannot be cut, and that otherwise the lines of
  the definitions are the lines between the braces, less the blank ones.
-/
import SourceScribe.Proofs.Asdl.Joining
import SourceScribe.Proofs.Text.Cuts

namespace SourceScribe.Asdl

open Text (beforeChars splitChars cutAfterBoundary isBlankLine afterFirst WholeLines)

/-! ## Braces -/

/-- There is just one opening brace, and just one closing brace after it. -/
def IsBraced (cs : List Char) : Prop :=
  cs.count '\x7b' = 1 ∧ (afterFirst '\x7b' cs).count '\x7d' = 1

instance : DecidablePred IsBraced := fun _ => inferInstanceAs (Decidable (_ ∧ _))

/-- What stands between the braces. -/
def inBraces (cs : List Char) : List Char :=
  (afterFirst '\x7b' cs).takeWhile (· ≠ '\x7d')

theorem bracesContent_of_isBraced {cs : List Char} (h : IsBraced cs) :
    bracesContent cs = .ok (inBraces cs) := by
  rw [bracesContent, Text.splitChars_of_count_eq_one h.1]
  simp only
  rw [Text.splitChars_of_count_eq_one h.2, inBraces]

theorem count_eq_one_of_splitChars {m : Char} {cs left right : List Char}
    (h : splitChars [m] cs = [left, right]) : cs.count m = 1 ∧ right = afterFirst m cs := by
  have hcount : cs.count m = 1 := by
    have hlength := Text.length_splitChars m cs
    rw [h, List.length_cons, List.length_singleton] at hlength
    omega
  rw [Text.splitChars_of_count_eq_one hcount, List.cons.injEq, List.cons.injEq] at h
  exact ⟨hcount, h.2.1.symm⟩

theorem bracesContent_of_not_isBraced {cs : List Char} (h : ¬ IsBraced cs) :
    bracesContent cs = .error .badBraces := by
  rw [bracesContent]
  split
  · rename_i left right hopen
    obtain ⟨hone, rfl⟩ := count_eq_one_of_splitChars hopen
    split
    · rename_i content after hclose
      exact absurd ⟨hone, (count_eq_one_of_splitChars hclose).1⟩ h
    · rfl
  · rfl

/-! ## Lines of a definition -/

/-- The lines of a definition: the first one has an equals sign, and no other has. -/
def IsDefinition (ls : List (List Char)) : Prop :=
  ∃ first others, ls = first :: others ∧ '=' ∈ first ∧ ∀ l ∈ others, '=' ∉ l

/-- Blank lines count for nothing. -/
theorem gatherChars_filter (current : Option (List Char)) (ls : List (List Char)) :
    gatherChars current (ls.filter fun l => !isBlankLine l) = gatherChars current ls := by
  induction ls generalizing current with
  | nil => rfl
  | cons l ls ih =>
    by_cases hblank : isBlankLine l = true
    · rw [List.filter_cons_of_neg (by simp [hblank]), gatherChars_blank _ hblank]
      exact ih current
    rw [List.filter_cons_of_pos (by simp [hblank])]
    by_cases hequals : '=' ∈ l
    · rw [gatherChars_begin _ hequals, gatherChars_begin _ hequals, ih]
    · cases current with
      | none => rw [gatherChars_none _ hblank hequals, gatherChars_none _ hblank hequals]
      | some d => rw [gatherChars_more _ hblank hequals, gatherChars_more _ hblank hequals, ih]

/-- Lines after the first line of a definition: some belong to it, and the others are cut into
    the definitions after it.  Which ones does not depend on the first line. -/
theorem gatherChars_groups {ls : List (List Char)} (hls : ∀ l ∈ ls, isBlankLine l = false) :
    ∃ (body : List (List Char)) (groups : List (List (List Char))),
      (∀ d, gatherChars (some d) ls
        = .ok (some (d ++ body.flatten) :: groups.map fun g => some g.flatten)) ∧
      body ++ groups.flatten = ls ∧ (∀ l ∈ body, '=' ∉ l) ∧ ∀ g ∈ groups, IsDefinition g := by
  induction ls with
  | nil =>
    refine ⟨[], [], fun d => ?_, rfl, List.forall_mem_nil _, List.forall_mem_nil _⟩
    rw [List.flatten_nil, List.append_nil]
    rfl
  | cons l ls ih =>
    obtain ⟨hl, hmore⟩ := List.forall_mem_cons.1 hls
    obtain ⟨body, groups, hgather, hsame, hbody, hgroups⟩ := ih hmore
    by_cases hequals : '=' ∈ l
    · -- the lines so far are all there is to the definition, and `l` begins the next
      refine ⟨[], (l :: body) :: groups, fun d => ?_, ?_, List.forall_mem_nil _, ?_⟩
      · rw [gatherChars_begin _ hequals, hgather, List.flatten_nil, List.append_nil]
        rfl
      · rw [List.nil_append, List.flatten_cons, List.cons_append, hsame]
      · exact List.forall_mem_cons.2 ⟨⟨l, body, rfl, hequals, hbody⟩, hgroups⟩
    · refine ⟨l :: body, groups, fun d => ?_, ?_, List.forall_mem_cons.2 ⟨hequals, hbody⟩, hgroups⟩
      · rw [gatherChars_more _ (Bool.eq_false_iff.1 hl) hequals, hgather, List.append_assoc,
          List.flatten_cons]
      · rw [List.cons_append, hsame]

/-- All lines, of which the first begins a definition. -/
theorem gatherChars_none_of_begin {l : List Char} {ls : List (List Char)} (hequals : '=' ∈ l)
    (hls : ∀ l ∈ ls, isBlankLine l = false) :
    ∃ groups : List (List (List Char)),
      gatherChars none (l :: ls) = .ok (groups.map fun g => some g.flatten) ∧
      groups.flatten = l :: ls ∧ ∀ g ∈ groups, IsDefinition g := by
  obtain ⟨body, groups, hgather, hsame, hbody, hgroups⟩ := gatherChars_groups hls
  refine ⟨(l :: body) :: groups, ?_, ?_, ?_⟩
  · rw [gatherChars_begin _ hequals, hgather]
    rfl
  · rw [List.flatten_cons, List.cons_append, hsame]
  · exact List.forall_mem_cons.2 ⟨⟨l, body, rfl, hequals, hbody⟩, hgroups⟩

/-- The parts of whole lines that are not blank are the lines of the texts they make. -/
theorem cutAfterBoundary_of_mem_groups {groups : List (List (List Char))}
    (h : WholeLines groups.flatten) (hblank : ∀ l ∈ groups.flatten, isBlankLine l = false) :
    ∀ g ∈ groups, cutAfterBoundary g.flatten = g := by
  induction groups with
  | nil =>
    intro g hg
    cases hg
  | cons first groups ih =>
    rw [List.flatten_cons] at h hblank
    obtain ⟨hfirst, hrest⟩ := h.of_append
    obtain ⟨hblank, hblanks⟩ := List.forall_mem_append.1 hblank
    refine List.forall_mem_cons.2 ⟨?_, ih hrest hblanks⟩
    exact Text.cutAfterBoundary_flatten_of_wholeLines hfirst hblank

/-! ## The definitions of a source -/

/-- The lines between the braces that are not blank. -/
def contentLines (cs : List Char) : List (List Char) :=
  (cutAfterBoundary (inBraces cs)).filter fun l => !isBlankLine l

theorem wholeLines_contentLines (cs : List Char) : WholeLines (contentLines cs) :=
  (Text.wholeLines_cutAfterBoundary _).filter _

theorem isBlankLine_of_mem_contentLines {cs l : List Char} (h : l ∈ contentLines cs) :
    isBlankLine l = false := by
  simpa using (List.mem_filter.1 h).2

theorem definitions_eq (lines : List String) :
    definitions lines = (definitionChars (lines.map String.toList)).map
      (List.map (Option.map String.ofList)) := by
  rw [← definitions_ofList, List.map_map]
  simp [Function.comp_def]

section
variable {lines : List String}

theorem definitions_of_not_isBraced (h : ¬ IsBraced (uncomment (lines.map String.toList))) :
    definitions lines = .error .badBraces := by
  rw [definitions_eq, definitionChars, bracesContent_of_not_isBraced h]
  rfl

variable (h : IsBraced (uncomment (lines.map String.toList)))
include h

/-- Between braces, the definitions are gathered from the lines that are not blank. -/
theorem definitions_of_isBraced :
    definitions lines = (gatherChars none (contentLines (uncomment (lines.map String.toList)))).map
      (List.map (Option.map String.ofList)) := by
  rw [definitions_eq, definitionChars, bracesContent_of_isBraced h, contentLines,
    gatherChars_filter]
  rfl

theorem definitions_of_blank (hnil : contentLines (uncomment (lines.map String.toList)) = []) :
    definitions lines = .ok [none] := by
  rw [definitions_of_isBraced h, hnil]
  rfl

theorem definitions_of_no_equals {l : List Char} {ls : List (List Char)}
    (hcontent : contentLines (uncomment (lines.map String.toList)) = l :: ls) (hequals : '=' ∉ l) :
    definitions lines = .error .noEqualsSign := by
  have hblank := isBlankLine_of_mem_contentLines (hcontent ▸ List.mem_cons_self (l := ls))
  rw [definitions_of_isBraced h, hcontent,
    gatherChars_none _ (Bool.eq_false_iff.1 hblank) hequals]
  rfl

theorem definitions_of_begin {l : List Char} {ls : List (List Char)}
    (hcontent : contentLines (uncomment (lines.map String.toList)) = l :: ls) (hequals : '=' ∈ l) :
    ∃ ds : List String, definitions lines = .ok (ds.map some) ∧
      ds.flatMap (fun d => cutAfterBoundary d.toList) = l :: ls ∧
      (String.join ds).toList = (l :: ls).flatten ∧
      ∀ d ∈ ds, IsDefinition (cutAfterBoundary d.toList) := by
  have hblank : ∀ l' ∈ l :: ls, isBlankLine l' = false := fun l' hl' =>
    isBlankLine_of_mem_contentLines (hcontent ▸ hl')
  have hwhole : WholeLines (l :: ls) := hcontent ▸ wholeLines_contentLines _
  obtain ⟨groups, hgather, hsame, hdefinition⟩ :=
    gatherChars_none_of_begin hequals (List.forall_mem_cons.1 hblank).2
  rw [← hsame] at hblank hwhole ⊢
  have hcuts := cutAfterBoundary_of_mem_groups hwhole hblank
  refine ⟨groups.map fun g => String.ofList g.flatten, ?_, ?_, ?_, fun d hd => ?_⟩
  · rw [definitions_of_isBraced h, hcontent, hgather]
    simp [Except.map, Function.comp_def]
  · rw [List.flatMap_map, List.flatten_eq_flatMap]
    refine List.flatMap_congr fun g hg => ?_
    rw [String.toList_ofList, hcuts g hg]
    rfl
  · rw [String.toList_join, List.flatMap_map]
    simp [List.flatten_flatten, List.flatMap]
  · obtain ⟨g, hg, rfl⟩ := List.mem_map.1 hd
    rw [String.toList_ofList, hcuts g hg]
    exact hdefinition g hg

end

/-- **Cutting a source into definitions loses nothing.**  Let `text` be the lines up to their
    comments.  The source cannot be cut just if `text` does not have one opening brace with one
    closing brace after it, or has these and the first line between them that is not blank has no
    equals sign.  Otherwise, if there is such a line, the lines of the definitions are together
    those lines between the braces that are not blank, and so the definitions put together are
    these lines; each definition begins with a line that has an equals sign, and has no other. -/
theorem definitions_lose_nothing (lines : List String) :
    let text := uncomment (lines.map String.toList)
    (∀ l ∈ lines, Text.IsCutAt ['-', '-'] l.toList (beforeChars ['-', '-'] l.toList)) ∧
    (definitions lines = .error .badBraces ↔ ¬ IsBraced text) ∧
    (definitions lines = .error .noEqualsSign ↔
      IsBraced text ∧ ∃ l ∈ (contentLines text).head?, '=' ∉ l) ∧
    ((IsBraced text ∧ ∃ l ∈ (contentLines text).head?, '=' ∈ l) → ∃ ds : List String,
      definitions lines = .ok (ds.map some) ∧
      ds.flatMap (fun d => cutAfterBoundary d.toList) = contentLines text ∧
      (String.join ds).toList = (contentLines text).flatten ∧
      ∀ d ∈ ds, IsDefinition (cutAfterBoundary d.toList)) ∧
    ((IsBraced text ∧ contentLines text = []) → definitions lines = .ok [none]) := by
  intro text
  refine ⟨fun l _ => Text.isCutAt_beforeChars _ _, ?_⟩
  by_cases hbraced : IsBraced text
  swap
  · rw [definitions_of_not_isBraced hbraced]
    simp [hbraced]
  cases hcontent : contentLines text with
  | nil =>
    rw [definitions_of_blank hbraced hcontent]
    simp [hbraced]
  | cons l ls =>
    by_cases hequals : '=' ∈ l
    · obtain ⟨ds, hds, hlines⟩ := definitions_of_begin hbraced hcontent hequals
      refine ⟨?_, ?_, fun _ => ⟨ds, hds, hlines⟩, ?_⟩ <;> simp [hds, hbraced, hequals]
    · rw [definitions_of_no_equals hbraced hcontent hequals]
      simp [hbraced, hequals]

/-- A source with a brace in a comment, blank lines and other boundaries than line feeds. -/
def brokenSource : List String :=
  ["-- \x7b = \n", "module\n", "\x7b\r\n", "\n", "a = A --\n", "\r", "\u001c | B\n", " \n",
   "b = C \x7d"]

theorem definitions_brokenSource :
    let text := uncomment (brokenSource.map String.toList)
    (IsBraced text ∧ ∃ l ∈ (contentLines text).head?, '=' ∈ l) ∧
    ∃ ds : List String, definitions brokenSource = .ok (ds.map some) ∧
      ds.flatMap (fun d => cutAfterBoundary d.toList)
        = ["a = A \r".toList, " | B\n".toList, "b = C ".toList] := by
  intro text
  have hlines : contentLines text = ["a = A \r".toList, " | B\n".toList, "b = C ".toList] := by
    decide +kernel
  have hbraced : IsBraced text := by decide +kernel
  have hequals : ∃ l ∈ (contentLines text).head?, '=' ∈ l := by
    rw [hlines]
    exact ⟨_, rfl, by decide⟩
  obtain ⟨-, -, -, hcut, -⟩ := definitions_lose_nothing brokenSource
  obtain ⟨ds, hds, hsame, -⟩ := hcut ⟨hbraced, hequals⟩
  exact ⟨⟨hbraced, hequals⟩, ds, hds, hsame.trans hlines⟩

end SourceScribe.Asdl
