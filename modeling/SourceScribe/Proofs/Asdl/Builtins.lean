/-
  The built-in types that the first line lists.

  The line is cut at commas, and the last word of a piece is the name of a type; nothing is
  taken off it.  So the names of the list become those of types but for the last one, which
  keeps the line feed at its end (`lastWords_builtinLine`).  `listed_types`: all listed names
  but the last are known types, the last one is known with the line feed, and without it just
  if something else gives a type that name.
-/
import SourceScribe.Proofs.Asdl.Lines
import SourceScribe.Proofs.Text.Seam

namespace SourceScribe.Asdl

/-- What stands on the first line before the names that it lists. -/
def builtinLead (lead : String) : String := "--" ++ lead ++ " are"

/-- A first line that lists names. -/
def builtinLine (lead : String) (names : List String) : String :=
  builtinLead lead ++ " " ++ ", ".intercalate names ++ "\n"

/-- The words before the commas that come before the list. -/
def leadWords (lead : String) : List String :=
  (Text.splitOn "," (builtinLead lead)).dropLast.map lastWord

theorem blank_intercalate {names : List String} (hne : names ≠ []) :
    ' ' :: (", ".intercalate names).toList
      = [','].intercalate (names.map fun n => ' ' :: n.toList) := by
  induction names with
  | nil => exact absurd rfl hne
  | cons n names ih =>
    cases names with
    | nil => simp
    | cons n' names =>
      have hrest := ih (List.cons_ne_nil _ _)
      rw [String.intercalate_cons_cons, List.map_cons, List.map_cons, List.intercalate_cons_cons,
        ← List.map_cons (f := fun n : String => ' ' :: n.toList), ← hrest]
      simp

/-- What stands before the list goes with its first piece. -/
theorem builtinPieces_lead (lead : List Char) {names : List String} (hne : names ≠ []) :
    ∃ p rest, builtinPieces [] names = p :: rest ∧
      builtinPieces lead names = (String.ofList (lead ++ p.1.toList), p.2) :: rest := by
  cases names with
  | nil => exact absurd rfl hne
  | cons n names =>
    cases names with
    | nil => exact ⟨_, [], rfl, by simp [builtinPieces]⟩
    | cons n' names => exact ⟨_, _, rfl, by simp [builtinPieces]⟩

/-- The last name of the list has the line feed with it. -/
theorem map_snd_builtinPieces (lead : List Char) (names : List String) (last : String) :
    (builtinPieces lead (names ++ [last])).map (·.2) = names ++ [last ++ "\n"] := by
  induction names generalizing lead with
  | nil => rfl
  | cons n names ih =>
    obtain ⟨m, ms, hm⟩ := List.exists_cons_of_ne_nil (l := names ++ [last]) (by simp)
    rw [List.cons_append, hm, builtinPieces, ← hm, List.map_cons, ih]
    rfl

/-- The pieces of a first line: those before the list, and those of the list. -/
theorem splitOn_builtinLine (lead : String) {names : List String} (hne : names ≠ [])
    (hnames : ∀ n ∈ names, ',' ∉ n.toList) :
    ∃ final, Text.splitOn "," (builtinLine lead names)
      = (Text.splitOn "," (builtinLead lead)).dropLast ++ (builtinPieces final names).map (·.1) := by
  have hlist := splitOn_builtinPieces List.not_mem_nil hne hnames
  have hline : (builtinLine lead names).toList = (builtinLead lead).toList
      ++ ([','].intercalate (names.map fun n => ' ' :: n.toList) ++ ['\n']) := by
    rw [← blank_intercalate hne]
    simp [builtinLine]
  obtain ⟨init, final, first, rest, hlead, hrest, hboth⟩ :=
    Text.splitChars_append_of_apart (List.cons_ne_nil ',' [])
      (Text.apart_singleton ',' (builtinLead lead).toList
        ([','].intercalate (names.map fun n => ' ' :: n.toList) ++ ['\n']))
  obtain ⟨p, pieces, hnil, hfinal⟩ := builtinPieces_lead final hne
  rw [splitOn_ofList, List.nil_append] at hlist
  replace hlist := (congrArg (List.map String.ofList) hrest).symm.trans hlist
  rw [hnil, List.map_cons, List.map_cons] at hlist
  obtain ⟨hfirst, hpieces⟩ := List.cons.inj hlist
  refine ⟨final, ?_⟩
  rw [hfinal, Text.splitOn, Text.splitOn, hline]
  refine (congrArg (List.map String.ofList) hboth).trans ?_
  refine Eq.trans ?_ (congrArg
    (fun ps => (ps.map String.ofList).dropLast ++ _) hlead.symm)
  rw [← hfirst, List.map_cons, ← hpieces]
  simp

/-- The last words of the pieces of a first line. -/
theorem lastWords_builtinLine (lead : String) {names : List String} {last : String}
    (hnames : ∀ n ∈ names ++ [last], ' ' ∉ n.toList ∧ ',' ∉ n.toList) :
    (Text.splitOn "," (builtinLine lead (names ++ [last]))).map lastWord
      = leadWords lead ++ names ++ [last ++ "\n"] := by
  obtain ⟨final, hsplit⟩ := splitOn_builtinLine lead (List.append_ne_nil_of_right_ne_nil names
    (List.cons_ne_nil last [])) fun n hn => (hnames n hn).2
  have hwords := getLastD_splitOn_builtinPieces (fun n hn => (hnames n hn).1) final
  rw [hsplit, List.map_append, List.append_assoc, ← map_snd_builtinPieces final, List.map_map,
    leadWords]
  exact congrArg _ (List.map_congr_left hwords)

/-- A source that can be read is read from its outline, whose pieces are those of the first
    line. -/
theorem exists_outline_of_read {s first : String} {g : Grammar} (hread : Grammar.read s = .ok g)
    (hfirst : (Text.physicalLines (Text.unifyNewlines s)).head? = some first) :
    ∃ o, outline s = .ok o ∧ g = o.grammar ∧ o.pieces = Text.splitOn "," first := by
  rw [read_eq_outline] at hread
  cases ho : outline s with
  | error f => rw [ho] at hread; cases hread
  | ok o =>
    rw [ho] at hread
    cases hread
    refine ⟨o, rfl, rfl, ?_⟩
    rw [outline] at ho
    cases hlines : Text.physicalLines (Text.unifyNewlines s) with
    | nil => rw [hlines] at hfirst; cases hfirst
    | cons line rest =>
      rw [hlines] at hfirst ho
      cases hfirst
      cases hds : definitions (first :: rest) with
      | error f => simp only [hds] at ho; cases ho
      | ok ds =>
        cases hcs : clausesOf ds with
        | error f => simp only [hds, bind, Except.bind, hcs] at ho; cases ho
        | ok cs =>
          simp only [hds, bind, Except.bind, hcs] at ho
          cases ho
          rfl

/-- **The names on the first line and the types.**  Of the names that the first line lists,
    all but the last are names of types.  The last one is such a name with the line feed at
    its end; without it, it is one just if it comes before on that line, in the list or as the
    last word before a comma, or if a definition has a type of that name.  The same names are
    those of the types as JSON. -/
theorem listed_types {s lead last : String} {names : List String} {g : Grammar}
    (hread : Grammar.read s = .ok g)
    (hfirst : (Text.physicalLines (Text.unifyNewlines s)).head?
      = some (builtinLine lead (names ++ [last])))
    (hnames : ∀ n ∈ names ++ [last], ' ' ∉ n.toList ∧ ',' ∉ n.toList) :
    (∀ n ∈ names, n ∈ g.types.map Prod.fst) ∧
      last ++ "\n" ∈ g.types.map Prod.fst ∧
      (∃ o, outline s = .ok o ∧ (last ∈ g.types.map Prod.fst ↔
        last ∈ leadWords lead ∨ last ∈ names ∨ ∃ c ∈ o.clauses, last ∈ c.typeNames)) ∧
      ∃ entries, g.json = (Json.obj entries).render 0 ∧
        entries.map Prod.fst = g.types.map Prod.fst := by
  obtain ⟨o, ho, rfl, hpieces⟩ := exists_outline_of_read hread hfirst
  have hwords : o.pieces.map lastWord = leadWords lead ++ names ++ [last ++ "\n"] := by
    rw [hpieces, lastWords_builtinLine lead hnames]
  refine ⟨fun n hn => ?_, ?_, ⟨o, ho, ?_⟩, _, rfl, by simp⟩
  · rw [o.mem_types_grammar, hwords]
    exact .inl (by simp [hn])
  · rw [o.mem_types_grammar, hwords]
    exact .inl (by simp)
  · have hfeed : last ≠ last ++ "\n" := by
      intro h
      have hlength := congrArg (fun s : String => s.toList.length) h
      simp at hlength
    rw [o.mem_types_grammar, hwords]
    simp [hfeed, or_assoc]

/-- A source that lists two built-in types and has a field of the second. -/
def listingSource : String := "-- types are str, int\n\x7b\na = A(int x)\n\x7d\n"

/-- What it says. -/
def listingOutline : Outline :=
  ⟨["-- types are str", " int\n"], [⟨"a", [⟨"A", "a", [⟨"x", "int", ""⟩], []⟩]⟩]⟩

theorem outline_listingSource : outline listingSource = .ok listingOutline := by
  rw [outline_eq]
  cbv

/-- The field has a category that is not the name of a type. -/
theorem listed_types_listingSource :
    ∃ g, Grammar.read listingSource = .ok g ∧ "str" ∈ g.types.map Prod.fst ∧
      "int\n" ∈ g.types.map Prod.fst ∧ "int" ∉ g.types.map Prod.fst := by
  have hread : Grammar.read listingSource = .ok listingOutline.grammar := by
    rw [read_eq_outline, outline_listingSource]
    rfl
  have hline : (Text.physicalLines (Text.unifyNewlines listingSource)).head?
      = some (builtinLine " types" (["str"] ++ ["int"])) := by cbv
  obtain ⟨hnames, hlast, ⟨o, ho, hiff⟩, -⟩ := listed_types hread hline (by decide)
  cases outline_listingSource.symm.trans ho
  refine ⟨_, hread, hnames _ List.mem_cons_self, hlast, ?_⟩
  rw [hiff]
  decide +kernel

end SourceScribe.Asdl
