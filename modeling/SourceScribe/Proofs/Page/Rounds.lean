/-
  How long the search for the start of a string goes on.

  The search goes up one line in every round.  Nothing in a round says where to stop: the line
  numbers run through zero, and below it they count back from the end of the source, until there
  is no line of that number.  So every round takes one from the number of lines that are above
  the search or can still be counted back to (`Round.room`), and there are no more rounds than
  that (`Rounds.le_room`).

  `search_ends`: the search of a statement ends within its line and the number of lines, and it
  leaves the source just if no line of the source begins with a triple quote.
-/
import SourceScribe.Proofs.Page.Scanning

namespace SourceScribe.Page

open SourceScribe.Language (ClassInfo)

/-! ## Rounds -/

/-- The search as it stands: the line that it looks at next, and what is recorded. -/
structure Search where
  line : Int
  record : Record

/-- A round of the search: the line is there and does not begin with a triple quote, so the
    search goes up to the next one and records it. -/
inductive Round (lines : List String) (s : Path) : Search → Search → Prop
  | up {n : Int} {r : Record} {line : String} : lineAt? lines n = some line →
      opensString line = false → Round lines s ⟨n, r⟩ ⟨n - 1, r.add s (n - 1)⟩

/-- A number of rounds one after the other. -/
inductive Rounds (lines : List String) (s : Path) : Nat → Search → Search → Prop
  | none (x : Search) : Rounds lines s 0 x x
  | more {k : Nat} {x y z : Search} : Round lines s x y → Rounds lines s k y z →
      Rounds lines s (k + 1) x z

/-- The numbers below that of the line of the search that are still those of lines. -/
def Search.room (lines : List String) (x : Search) : Nat :=
  (x.line + lines.length).toNat

variable {lines : List String} {s : Path}

/-- Every round uses up one line. -/
theorem Round.room {x y : Search} (h : Round lines s x y) :
    y.room lines + 1 = x.room lines := by
  cases h with
  | @up n r line hline hopens =>
    have hthere := lineAt?_isSome_iff.1 (by rw [hline]; rfl : (lineAt? lines n).isSome)
    simp only [Search.room]
    omega

theorem Rounds.le_room {k : Nat} {x y : Search} (h : Rounds lines s k x y) :
    k ≤ x.room lines := by
  induction h with
  | none => omega
  | more hround _ ih =>
    have hroom := hround.room
    omega

/-- There is no further round at a line that begins with a triple quote or is not there. -/
theorem not_round {x : Search}
    (h : lineAt? lines x.line = none ∨ opensAt lines x.line = true) (y : Search) :
    ¬ Round lines s x y := by
  intro hround
  cases hround with
  | @up n r line hline hopens =>
    rcases h with hnone | hopensAt
    · cases hline.symm.trans hnone
    · rw [opensAt, hline, Option.any_some, hopens] at hopensAt
      cases hopensAt

/-- The search makes its rounds until there is no further one.  It has then found the start of
    the string or left the source. -/
theorem climb_rounds (lines : List String) (s : Path) (n : Int) (r : Record) :
    ∃ k x, Rounds lines s k ⟨n, r⟩ x ∧ (∀ y, ¬ Round lines s x y) ∧
      climb lines s n r = searchEnd (opensAt lines x.line) x.record := by
  induction n using climb.induct lines generalizing r with
  | case1 n h =>
    have hnone : lineAt? lines n = none := by
      rw [← Option.not_isSome_iff_eq_none, lineAt?_isSome_iff]
      omega
    refine ⟨0, ⟨n, r⟩, .none _, not_round (.inl hnone), ?_⟩
    rw [climb, dif_pos h, opensAt, hnone]
    rfl
  | case2 n h hline =>
    refine ⟨0, ⟨n, r⟩, .none _, not_round (.inl hline), ?_⟩
    rw [climb, dif_neg h, opensAt, hline]
    rfl
  | case3 n h line hline hopens =>
    have hopensAt : opensAt lines n = true := by rw [opensAt, hline, Option.any_some, hopens]
    refine ⟨0, ⟨n, r⟩, .none _, not_round (.inr hopensAt), ?_⟩
    rw [hopensAt, climb, dif_neg h, hline]
    simp only [hopens, if_true]
    rfl
  | case4 n h line hline hopens ih =>
    obtain ⟨k, x, hrounds, hlast, hclimb⟩ := ih (r.add s (n - 1))
    refine ⟨k + 1, x, .more (.up hline (Bool.eq_false_iff.2 hopens)) hrounds, hlast, ?_⟩
    rw [climb, dif_neg h, hline]
    simp only [hopens, Bool.false_eq_true, if_false]
    exact hclimb

/-! ## The search of a statement -/

/-- Where the search for the start of a string that ends on line `number` begins.  A line with
    nothing but three characters is passed over before the first round. -/
def searchStart (lines : List String) (s : Path) (number : Int) (r : Record) : Search :=
  if searchFrom lines number = number then ⟨number, r⟩
  else ⟨number - 1, r.add s (number - 1)⟩

theorem noteString_eq_climb {number : Int} (h : (lineAt? lines number).isSome) (r : Record) :
    noteString lines s number r = climb lines s (searchStart lines s number r).line
      (searchStart lines s number r).record := by
  obtain ⟨line, hline⟩ := Option.isSome_iff_exists.1 h
  rw [noteString, searchStart, searchFrom, hline, Option.any_some]
  by_cases hthree : (Text.strip line).length = 3
  · have hne : number - 1 ≠ number := by omega
    simp only [hthree, decide_true, if_true, hne, if_false]
    rfl
  · simp only [hthree, decide_false, Bool.false_eq_true, if_false, if_true]

theorem room_searchStart_le {number : Int} (hnumber : 1 ≤ number) (r : Record) :
    ((searchStart lines s number r).room lines : Int) ≤ number + lines.length := by
  rw [searchStart, Search.room]
  split <;> simp only <;> omega

/-- Every line of the source has a number that is not above zero. -/
theorem exists_opensAt {l : String} (hl : l ∈ lines) (hopens : opensString l = true) :
    ∃ j ≤ 0, opensAt lines j = true := by
  obtain ⟨i, hi⟩ := List.mem_iff_getElem?.1 hl
  have hlt : i < lines.length := (List.getElem?_eq_some_iff.1 hi).1
  have hback : (i : Int) + 1 - lines.length - 1 + lines.length = i := by omega
  refine ⟨(i : Int) + 1 - lines.length, by omega, ?_⟩
  rw [opensAt, lineAt?, Text.signedGet?, if_neg (by omega), if_pos (by omega), hback,
    Int.toNat_natCast, hi, Option.any_some, hopens]

/-- The start of a string is found just if any line of the source begins with a triple quote:
    the search comes to all of them. -/
theorem stringNotes_found_iff_exists {number : Int}
    (hnumber : 1 ≤ number ∧ number ≤ lines.length) :
    (stringNotes lines number).2 = true ↔ ∃ l ∈ lines, opensString l = true := by
  have hsome : (lineAt? lines number).isSome := lineAt?_isSome hnumber.1 hnumber.2
  constructor
  · intro hfound
    refine Classical.byContradiction fun hnone => ?_
    have hnot := not_found_of_unopened hsome fun l hl =>
      Bool.eq_false_iff.2 fun hopens => hnone ⟨l, hl, hopens⟩
    rw [hnot] at hfound
    cases hfound
  · rintro ⟨l, hl, hopens⟩
    obtain ⟨j, hj, hopensAt⟩ := exists_opensAt hl hopens
    have hfrom := (searchFrom_le lines number).1
    exact (stringNotes_found_iff hsome).2 ⟨j, by omega, hopensAt⟩

theorem searchEnd_eq_error_iff {found : Bool} {r : Record} :
    (∃ r', searchEnd found r = .error .leftSource r') ↔ found = false := by
  cases found with
  | false => exact ⟨fun _ => rfl, fun _ => ⟨r, rfl⟩⟩
  | true =>
    refine iff_of_false ?_ Bool.true_eq_false.mp
    rintro ⟨r', hr'⟩
    cases hr'

variable {classes : List ClassInfo}

/-- **The search for the start of a string ends.**  The table of a statement with column -1, whose
    line is one of the source, begins with a search that makes at most as many rounds as its line
    and the lines of the source together.  After the last of them it has found a line that begins
    with a triple quote or left the source, and it leaves the source just if no line of the
    source begins so. -/
theorem search_ends {press : Press} (hclasses : press.classes = some classes) {cls : String}
    (hstmt : isStatementClass classes cls = true) {line : Int}
    (hline : 1 ≤ line ∧ line ≤ press.lines.length) (rest : List Int)
    (fields : List (String × Tree)) (path : Path) (outer : Option Path) (r : Record) :
    let search := noteNode press path (some path) true (line :: -1 :: rest)
    let start := searchStart press.lines path line (r.add path line)
    (∃ after : Writing String, treePage press path (.node cls (line :: -1 :: rest) fields) outer
      = (do search; after)) ∧
    (∀ k x, Rounds press.lines path k start x → (k : Int) ≤ line + press.lines.length) ∧
    (∃ k x, Rounds press.lines path k start x ∧ (∀ y, ¬ Round press.lines path x y) ∧
      search r = searchEnd (opensAt press.lines x.line) x.record) ∧
    ((∃ r', search r = .error .leftSource r') ↔ ∀ l ∈ press.lines, opensString l = false) := by
  intro search start
  obtain ⟨info, hinfo, -⟩ := (Option.any_eq_true _ _).1 hstmt
  have hsome : (lineAt? press.lines line).isSome := lineAt?_isSome hline.1 hline.2
  refine ⟨?_, fun k x hrounds => ?_, ?_, ?_⟩
  · have hfields : ∀ name t, fields.lookup name = some t → Grows (fun _ => True)
        (treePage press (path.field name) t (ownerBelow classes cls path outer)) :=
      fun name t _ => (treePage_grows hclasses t _ _).mono fun _ _ => trivial
    obtain ⟨after, -, hpage⟩ := treePage_node_eq hclasses hinfo (line :: -1 :: rest) hfields
    rw [ownerBelow, hstmt] at hpage
    exact ⟨after, hpage⟩
  · have hroom : (start.room press.lines : Int) ≤ line + press.lines.length :=
      room_searchStart_le hline.1 (r.add path line)
    have hle := hrounds.le_room
    omega
  · have hsearch : search r = noteString press.lines path line (r.add path line) := rfl
    rw [hsearch, noteString_eq_climb hsome]
    exact climb_rounds press.lines path start.line start.record
  · have hnoted : search r = _ := noteNode_eq press path (some path) true (line :: -1 :: rest) r
    have hfound : (nodeNotes press.lines path (some path) true (line :: -1 :: rest)).2
        = (stringNotes press.lines line).2 := rfl
    rw [hnoted, searchEnd_eq_error_iff, hfound, Bool.eq_false_iff, ne_eq,
      stringNotes_found_iff_exists hline]
    simp

/-- A source in which no line begins with a triple quote. -/
def plainPress : Press := ⟨["x'''\n", "y\n"], some (Language.classes .v34), true⟩

/-- A source with a string over three lines. -/
def quotedPress : Press :=
  ⟨["x\n", "\"\"\"a\n", "b\n", "c\"\"\"\n"], some (Language.classes .v34), true⟩

/-- The search from the first line of the plain source goes through the source once, counting
    back, and then leaves it.  That from the last line of the string goes up to the line where
    the string begins, and stops there. -/
theorem search_ends_samples :
    isStatementClass (Language.classes .v34) "Expr" = true ∧
    (∀ k x, Rounds plainPress.lines .root k
      (searchStart plainPress.lines .root 1 (Record.empty.add .root 1)) x → (k : Int) ≤ 3) ∧
    (∃ r', noteNode plainPress .root (some .root) true [1, -1] .empty = .error .leftSource r') ∧
    ∃ k x, Rounds quotedPress.lines .root k
        (searchStart quotedPress.lines .root 4 (Record.empty.add .root 4)) x ∧
      opensAt quotedPress.lines x.line = true ∧
      noteNode quotedPress .root (some .root) true [4, -1] .empty = .ok () x.record := by
  have hstmt : isStatementClass (Language.classes .v34) "Expr" = true := by cbv
  have hplainClasses : plainPress.classes = some (Language.classes .v34) := rfl
  have hquotedClasses : quotedPress.classes = some (Language.classes .v34) := rfl
  have hplain : (1 : Int) ≤ 1 ∧ (1 : Int) ≤ plainPress.lines.length := by decide
  have hquoted : (1 : Int) ≤ 4 ∧ (4 : Int) ≤ quotedPress.lines.length := by decide
  obtain ⟨-, hrounds, -, hleft⟩ :=
    search_ends hplainClasses hstmt hplain [] [] .root none .empty
  obtain ⟨-, -, ⟨k, x, hfound, -, hend⟩, hstays⟩ :=
    search_ends hquotedClasses hstmt hquoted [] [] .root none .empty
  have hopens : opensAt quotedPress.lines x.line = true := by
    refine Bool.of_not_eq_false fun hopens => ?_
    rw [hopens] at hend
    exact absurd (hstays.1 ⟨x.record, hend⟩) (by decide +kernel)
  rw [hopens] at hend
  exact ⟨hstmt, hrounds, hleft.2 (by decide +kernel), k, x, hfound, hopens, hend⟩

end SourceScribe.Page
