/-
  What noting a node adds to the record, without the record.

  The entries that a node adds, and whether the search for the start of its string ends in the
  source, depend on the source and the node alone (`nodeNotes`).  `noteNode_eq`: noting a node
  adds just these entries to any record, and fails just if the search leaves the source.

  The search goes up through lines that are there and do not begin with a triple quote
  (`mem_ascent`).  Line numbers below one count back from the end of the source, so it goes on
  there above the first line, and finds a start just if the source has one (`ascent_found_iff`).
-/
import SourceScribe.Proofs.Page.Recorded

namespace SourceScribe.Page

open SourceScribe.Language (ClassInfo)

/-! ## Adding entries -/

namespace Record

/-- Adds entries one after the other. -/
def addAll (r : Record) (entries : List Entry) : Record :=
  entries.foldl (fun r e => r.add e.1 e.2) r

theorem addAll_append (r : Record) (entries more : List Entry) :
    r.addAll (entries ++ more) = (r.addAll entries).addAll more :=
  List.foldl_append

theorem mem_addAll {r : Record} {entries : List Entry} {e : Entry} :
    e ∈ (r.addAll entries).entries ↔ e ∈ r.entries ∨ e ∈ entries := by
  induction entries generalizing r with
  | nil => simp [addAll]
  | cons first entries ih =>
    show e ∈ ((r.add first.1 first.2).addAll entries).entries ↔ _
    rw [ih, mem_add, List.mem_cons, or_assoc, or_left_comm]

/-- Entries that are there already change nothing. -/
theorem addAll_of_mem {r : Record} {entries : List Entry} (h : ∀ e ∈ entries, e ∈ r.entries) :
    r.addAll entries = r := by
  induction entries with
  | nil => rfl
  | cons first entries ih =>
    show (r.add first.1 first.2).addAll entries = r
    rw [add, if_pos (h first List.mem_cons_self)]
    exact ih fun e he => h e (List.mem_cons_of_mem _ he)

end Record

/-! ## The search for the start of a string -/

/-- How a search ends: in the source or not. -/
def searchEnd (found : Bool) (r : Record) : EStateM.Result Fault Record Unit :=
  if found then .ok () r else .error .leftSource r

/-- The lines to which the search goes up from line `number`, and whether it ends in the
    source. -/
def ascent (lines : List String) (number : Int) : List Int × Bool :=
  if _h : number - 1 < -(lines.length : Int) then ([], false)
  else
    match lineAt? lines number with
    | none => ([], false)
    | some line =>
      if opensString line then ([], true)
      else ((number - 1) :: (ascent lines (number - 1)).1, (ascent lines (number - 1)).2)
termination_by (number + lines.length).toNat
decreasing_by all_goals omega

theorem climb_eq (lines : List String) (s : Path) (n : Int) (r : Record) :
    climb lines s n r =
      searchEnd (ascent lines n).2 (r.addAll ((ascent lines n).1.map (s, ·))) := by
  induction n using climb.induct lines generalizing r with
  | case1 n h =>
    rw [climb, dif_pos h, ascent, dif_pos h]
    rfl
  | case2 n h hline =>
    rw [climb, dif_neg h, ascent, dif_neg h, hline]
    rfl
  | case3 n h line hline hopens =>
    rw [climb, dif_neg h, ascent, dif_neg h, hline]
    simp only [hopens, if_true]
    rfl
  | case4 n h line hline hopens ih =>
    rw [climb, dif_neg h, ascent, dif_neg h, hline]
    simp only [hopens, Bool.false_eq_true, if_false]
    exact ih (r.add s (n - 1))

theorem lineAt?_isSome_iff {lines : List String} {n : Int} :
    (lineAt? lines n).isSome ↔ -(lines.length : Int) < n ∧ n ≤ lines.length := by
  rw [lineAt?, Text.signedGet?]
  split
  · rw [isSome_getElem?]
    omega
  · split
    · rw [isSome_getElem?]
      omega
    · simp
      omega

/-- The lines of the search are those above line `n` down to which no line begins with a triple
    quote. -/
theorem mem_ascent_iff {lines : List String} {n k : Int} (hn : n ≤ lines.length) :
    k ∈ (ascent lines n).1 ↔ -(lines.length : Int) ≤ k ∧ Unopened lines n k := by
  induction n using climb.induct lines with
  | case1 n h =>
    rw [ascent, dif_pos h]
    refine iff_of_false List.not_mem_nil ?_
    rintro ⟨hk, hkn, -⟩
    omega
  | case2 n h hline =>
    have hsome : (lineAt? lines n).isSome := lineAt?_isSome_iff.2 ⟨by omega, hn⟩
    rw [hline] at hsome
    cases hsome
  | case3 n h line hline hopens =>
    have hopensAt : opensAt lines n = true := by rw [opensAt, hline, Option.any_some, hopens]
    rw [ascent, dif_neg h, hline]
    simp only [hopens, if_true]
    exact iff_of_false List.not_mem_nil fun hk => not_unopened_of_opensAt hopensAt hk.2
  | case4 n h line hline hopens ih =>
    have hopensAt : opensAt lines n = false := by
      rw [opensAt, hline, Option.any_some, Bool.eq_false_iff.2 hopens]
    rw [ascent, dif_neg h, hline, unopened_iff_of_not_opensAt hopensAt]
    simp only [hopens, Bool.false_eq_true, if_false, List.mem_cons]
    rw [ih (by omega), and_or_left]
    exact or_congr_left ⟨fun hk => ⟨by omega, hk⟩, And.right⟩

/-- The search finds a start just if there is one up there; all lines before the first count, as
    those at the end of the source. -/
theorem ascent_found_iff {lines : List String} {n : Int} (hn : n ≤ lines.length) :
    (ascent lines n).2 = true ↔ ∃ j ≤ n, opensAt lines j = true := by
  induction n using climb.induct lines with
  | case1 n h =>
    rw [ascent, dif_pos h]
    refine iff_of_false Bool.false_ne_true ?_
    rintro ⟨j, hj, hopens⟩
    have hsome := lineAt?_isSome_iff.1 (Option.isSome_of_any hopens)
    omega
  | case2 n h hline =>
    have hsome : (lineAt? lines n).isSome := lineAt?_isSome_iff.2 ⟨by omega, hn⟩
    rw [hline] at hsome
    cases hsome
  | case3 n h line hline hopens =>
    have hopensAt : opensAt lines n = true := by rw [opensAt, hline, Option.any_some, hopens]
    rw [ascent, dif_neg h, hline]
    simp only [hopens, if_true, true_iff]
    exact ⟨n, Int.le_refl n, hopensAt⟩
  | case4 n h line hline hopens ih =>
    have hopensAt : opensAt lines n = false := by
      rw [opensAt, hline, Option.any_some, Bool.eq_false_iff.2 hopens]
    rw [ascent, dif_neg h, hline]
    simp only [hopens, Bool.false_eq_true, if_false]
    rw [ih (by omega)]
    refine exists_congr fun j => and_congr_left fun hj => ⟨by omega, fun hle => ?_⟩
    rcases Int.lt_or_eq_of_le hle with hlt | rfl
    · omega
    · exact absurd (hj.symm.trans hopensAt) Bool.true_eq_false.mp

/-- The lines that a string which ends on line `number` adds, and whether its start is found. -/
def stringNotes (lines : List String) (number : Int) : List Int × Bool :=
  match lineAt? lines number with
  | none => ([], false)
  | some line =>
    if (Text.strip line).length = 3 then
      ((number - 1) :: (ascent lines (number - 1)).1, (ascent lines (number - 1)).2)
    else ascent lines number

theorem noteString_eq (lines : List String) (s : Path) (number : Int) (r : Record) :
    noteString lines s number r =
      searchEnd (stringNotes lines number).2
        (r.addAll ((stringNotes lines number).1.map (s, ·))) := by
  rw [noteString, stringNotes]
  cases lineAt? lines number with
  | none => rfl
  | some line =>
    by_cases hthree : (Text.strip line).length = 3
    · have hnote : (do note s (number - 1); climb lines s (number - 1) : Writing Unit) r
          = climb lines s (number - 1) (r.add s (number - 1)) := rfl
      simp only [hthree, if_true]
      rw [hnote, climb_eq]
      rfl
    · simp only [hthree, if_false]
      rw [climb_eq]

theorem searchFrom_le (lines : List String) (n : Int) :
    n - 1 ≤ searchFrom lines n ∧ searchFrom lines n ≤ n := by
  rw [searchFrom]
  split <;> omega

/-- The lines of a string are looked for from `searchFrom` on. -/
theorem stringNotes_eq {lines : List String} {n : Int} (h : (lineAt? lines n).isSome) :
    (stringNotes lines n).1 = (if searchFrom lines n = n then [] else [n - 1])
      ++ (ascent lines (searchFrom lines n)).1 ∧
    (stringNotes lines n).2 = (ascent lines (searchFrom lines n)).2 := by
  obtain ⟨line, hline⟩ := Option.isSome_iff_exists.1 h
  rw [stringNotes, searchFrom, hline]
  by_cases hthree : (Text.strip line).length = 3
  · have hne : n - 1 ≠ n := by omega
    simp [hthree, hne]
  · simp [hthree]

theorem mem_stringNotes_iff {lines : List String} {n k : Int} (h : (lineAt? lines n).isSome) :
    k ∈ (stringNotes lines n).1 ↔ -(lines.length : Int) ≤ k ∧ InString lines n k := by
  have hn := lineAt?_isSome_iff.1 h
  have hfrom := searchFrom_le lines n
  rw [(stringNotes_eq h).1, List.mem_append, mem_ascent_iff (by omega), InString, Unopened]
  constructor
  · rintro (hk | ⟨hk, hlt, hall⟩)
    · split at hk
      · cases hk
      · rw [List.mem_singleton.1 hk]
        exact ⟨by omega, by omega, fun j hj hj' => by omega⟩
    · exact ⟨hk, by omega, hall⟩
  · rintro ⟨hk, hlt, hall⟩
    by_cases hsearch : k < searchFrom lines n
    · exact .inr ⟨hk, hsearch, hall⟩
    · rw [if_neg (by omega), List.mem_singleton]
      exact .inl (by omega)

theorem stringNotes_found_iff {lines : List String} {n : Int} (h : (lineAt? lines n).isSome) :
    (stringNotes lines n).2 = true ↔ ∃ j ≤ searchFrom lines n, opensAt lines j = true := by
  have hn := lineAt?_isSome_iff.1 h
  have hfrom := searchFrom_le lines n
  rw [(stringNotes_eq h).2, ascent_found_iff (by omega)]

/-! ## The notes of a node -/

/-- The entries that a node at `path` adds, and whether the start of its string is found;
    `owner` is its nearest statement. -/
def nodeNotes (lines : List String) (path : Path) (owner : Option Path) (isStatement : Bool) :
    (places : List Int) → List Entry × Bool
  | [] => ([], true)
  | line :: places =>
    let own := owner.toList.map (·, line)
    if isStatement && places.head? = some (-1) then
      (own ++ (stringNotes lines line).1.map (path, ·), (stringNotes lines line).2)
    else (own, true)

/-- **Noting a node** adds the same entries to every record, and ends in the same way. -/
theorem noteNode_eq (press : Press) (path : Path) (owner : Option Path) (isStatement : Bool)
    (places : List Int) (r : Record) :
    noteNode press path owner isStatement places r =
      searchEnd (nodeNotes press.lines path owner isStatement places).2
        (r.addAll (nodeNotes press.lines path owner isStatement places).1) := by
  cases places with
  | nil => rfl
  | cons line places =>
    have hrun : noteNode press path owner isStatement (line :: places) r =
        (if isStatement && places.head? = some (-1) then noteString press.lines path line
          else pure () : Writing Unit) (r.addAll (owner.toList.map (·, line))) := by
      cases owner <;> rfl
    rw [hrun, nodeNotes]
    by_cases hstring : (isStatement && places.head? = some (-1)) = true
    · simp only [hstring, if_true]
      rw [noteString_eq, ← Record.addAll_append]
    · simp only [hstring, Bool.false_eq_true, if_false]
      rfl

variable {classes : List ClassInfo}

theorem inString_of_mem_stringNotes {lines : List String} {n k : Int}
    (h : k ∈ (stringNotes lines n).1) : InString lines n k := by
  cases hline : lineAt? lines n with
  | none =>
    rw [stringNotes, hline] at h
    cases h
  | some line => exact ((mem_stringNotes_iff (by rw [hline]; rfl)).1 h).2

theorem notes_of_mem_nodeNotes {lines : List String} {cls : String} {path : Path}
    {owner : Option Path} {places : List Int} {e : Entry}
    (h : e ∈ (nodeNotes lines path owner (isStatementClass classes cls) places).1) :
    Notes classes lines cls places path owner e := by
  cases places with
  | nil => cases h
  | cons line places =>
    have hown : e ∈ owner.toList.map (·, line) → owner = some e.1 ∧ line = e.2 := by
      intro he
      obtain ⟨s, hs, rfl⟩ := List.mem_map.1 he
      exact ⟨Option.mem_toList.1 hs, rfl⟩
    rw [nodeNotes] at h
    split at h
    · rename_i hstring
      rw [Bool.and_eq_true, decide_eq_true_eq, List.head?_eq_some_iff] at hstring
      obtain ⟨hstmt, rest, rfl⟩ := hstring
      rcases List.mem_append.1 h with he | he
      · exact .inl ⟨congrArg some (hown he).2, (hown he).1⟩
      · obtain ⟨k, hk, rfl⟩ := List.mem_map.1 he
        exact .inr ⟨hstmt, rfl, line, rest, rfl, inString_of_mem_stringNotes hk⟩
    · exact .inl ⟨congrArg some (hown h).2, (hown h).1⟩

/-- If the start of its string is found, the entries that a node adds are those it notes. -/
theorem mem_nodeNotes_iff {lines : List String} {cls : String} {path : Path}
    {owner : Option Path} {places : List Int} {e : Entry}
    (h : (nodeNotes lines path owner (isStatementClass classes cls) places).2 = true) :
    e ∈ (nodeNotes lines path owner (isStatementClass classes cls) places).1 ↔
      Notes classes lines cls places path owner e := by
  refine ⟨notes_of_mem_nodeNotes, ?_⟩
  rintro (⟨hline, hs⟩ | ⟨hstmt, hpath, line, rest, rfl, hk⟩)
  · obtain ⟨rest, rfl⟩ := List.head?_eq_some_iff.1 hline
    have hown : e ∈ owner.toList.map (·, e.2) := by simp [hs]
    rw [nodeNotes]
    split
    · exact List.mem_append_left _ hown
    · exact hown
  · rw [hstmt] at h ⊢
    have hfound : (stringNotes lines line).2 = true := h
    refine List.mem_append_right _ (List.mem_map.2 ⟨e.2, ?_, Prod.ext hpath.symm rfl⟩)
    have hsome : (lineAt? lines line).isSome := by
      cases hline : lineAt? lines line with
      | none =>
        rw [stringNotes, hline] at hfound
        cases hfound
      | some _ => rfl
    obtain ⟨j, hj, hopens⟩ := (stringNotes_found_iff hsome).1 hfound
    -- the search does not go past line `j`
    have hjk : j ≤ e.2 := by
      refine Int.not_lt.1 fun hlt => ?_
      exact Bool.noConfusion (hopens.symm.trans (hk.2 j hlt hj))
    have hjn := lineAt?_isSome_iff.1 (Option.isSome_of_any hopens)
    exact (mem_stringNotes_iff hsome).2 ⟨by omega, hk⟩

/-- The nearest statement of what a node holds: the node, if it is one. -/
def ownerBelow (classes : List ClassInfo) (cls : String) (path : Path) (outer : Option Path) :
    Option Path :=
  if isStatementClass classes cls then some path else outer

end SourceScribe.Page
