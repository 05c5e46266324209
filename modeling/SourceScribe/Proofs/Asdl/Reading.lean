/-
  Reading a whole grammar.

  A source has a first line with the built-in types, then lines that may end with comments,
  and between braces the layouts of definitions (`Source.Writes`).  `read_source`: what is
  read from such a source are the built-in types and the types and categories of the
  definitions, in their order, and the JSON of it shows every type with its fields.  Only a
  source without a definition is not read.
-/
import Mathlib
import SourceScribe.Asdl.Json
import SourceScribe.Proofs.Asdl.Grouping

namespace SourceScribe.Asdl

open Text (IsGap Trail isBlank splitChars forall_mem_of_all mem_intercalate)

/-! ## Sources -/

/-- A line of a source, without the line feed that ends it. -/
structure Row where
  text : List Char
  /-- What comes after two hyphens. -/
  comment : Option (List Char)

namespace Row

/-- A line as it is written. -/
def chars (r : Row) : List Char :=
  r.text ++ (r.comment.elim [] fun c => '-' :: '-' :: c) ++ ['\n']

/-- A line without its comment, and then also without the line feed after that. -/
def kept (r : Row) : List Char :=
  r.text ++ r.comment.elim ['\n'] fun _ => []

/-- There is no line feed in a line, and no hyphen before the comment. -/
def IsPlain (r : Row) : Prop :=
  (∀ c ∈ r.text, c ∉ ['\n', '\r', '-']) ∧ ∀ c ∈ r.comment.getD [], c ∉ ['\n', '\r']

instance (r : Row) : Decidable r.IsPlain :=
  have := List.decidableBAll (· ∉ ['\n', '\r', '-']) r.text
  have := List.decidableBAll (· ∉ ['\n', '\r']) (r.comment.getD [])
  inferInstanceAs (Decidable (_ ∧ _))

end Row

/-- The parts of a source. -/
structure Source where
  /-- What stands on the first line before the built-in types. -/
  intro : List Char
  builtins : List String
  /-- The lines after the first. -/
  rows : List Row
  /-- What comes after the last line feed. -/
  last : List Char

namespace Source

/-- The first line: a comment that lists the built-in types. -/
def firstRow (src : Source) : Row :=
  ⟨[], some (src.intro ++ [','].intercalate (src.builtins.map fun n => ' ' :: n.toList))⟩

/-- The text of a source. -/
def text (src : Source) : String :=
  String.ofList ((src.firstRow :: src.rows).flatMap Row.chars ++ src.last)

/-- A source of definitions. -/
structure Writes (src : Source) (ds : List Definition) : Prop where
  intro : ∀ c ∈ src.intro, c ∉ [',', '\n', '\r']
  listed : src.builtins ≠ []
  builtins : ∀ n ∈ src.builtins, ∀ c ∈ n.toList, c ∉ [',', ' ', '\n', '\r']
  rows : ∀ r ∈ src.rows, r.IsPlain
  last : ∀ c ∈ src.last, c ∉ ['\n', '\r', '-']
  body : ∃ head content tail, src.rows.flatMap Row.kept ++ src.last
      = head ++ '\x7b' :: (content ++ '\x7d' :: tail) ∧
    '\x7b' ∉ head ∧ '\x7b' ∉ tail ∧ '\x7d' ∉ tail ∧ LaidOut ds content

end Source

/-! ## Lines and comments -/

namespace Row

theorem IsPlain.not_mem {r : Row} (h : r.IsPlain) :
    '\n' ∉ r.text ++ (r.comment.elim [] fun c => '-' :: '-' :: c) ∧ '\r' ∉ r.chars := by
  obtain ⟨text, comment⟩ := r
  obtain ⟨htext, hcomment⟩ := h
  have hfeed : '\n' ∉ text := fun hc => htext _ hc (by decide)
  have hreturn : '\r' ∉ text := fun hc => htext _ hc (by decide)
  cases comment with
  | none => simp [chars, hfeed, hreturn]
  | some comment =>
    have hfeed' : '\n' ∉ comment := fun hc => hcomment _ hc (by decide)
    have hreturn' : '\r' ∉ comment := fun hc => hcomment _ hc (by decide)
    simp [chars, hfeed, hreturn, hfeed', hreturn']

theorem IsPlain.before {r : Row} (h : r.IsPlain) :
    Text.beforeChars ['-', '-'] r.chars = r.kept := by
  obtain ⟨text, comment⟩ := r
  have hhyphen : '-' ∉ text := fun hc => h.1 _ hc (by decide)
  cases comment with
  | none =>
    have hline : '-' ∉ text ++ ['\n'] := by simpa using hhyphen
    have hbefore : Text.beforeChars ['-', '-'] (text ++ ['\n']) = text ++ ['\n'] :=
      Text.beforeChars_eq_self hline
    simpa [chars, kept] using hbefore
  | some comment =>
    have hbefore : Text.beforeChars ['-', '-'] (text ++ ['-', '-'] ++ (comment ++ ['\n'])) = text :=
      Text.beforeChars_append hhyphen _
    simpa [chars, kept] using hbefore

theorem IsPlain.not_mem_kept {r : Row} (h : r.IsPlain) : '\r' ∉ r.kept := by
  obtain ⟨text, comment⟩ := r
  have hreturn : '\r' ∉ text := fun hc => h.1 _ hc (by decide)
  cases comment <;> simp [kept, hreturn]

end Row

theorem cutAfterLineFeed_rows {rows : List Row} {last : List Char} (hrows : ∀ r ∈ rows, r.IsPlain)
    (hlast : '\n' ∉ last) : Text.cutAfterLineFeed (rows.flatMap Row.chars ++ last)
      = rows.map Row.chars ++ if last = [] then [] else [last] := by
  induction rows with
  | nil => exact Text.cutAfterLineFeed_eq hlast
  | cons r rows ih =>
    obtain ⟨hr, hrows⟩ := List.forall_mem_cons.1 hrows
    rw [List.flatMap_cons, Row.chars, List.append_assoc, List.append_assoc, List.singleton_append,
      Text.cutAfterLineFeed_append hr.not_mem.1, ih hrows]
    rfl

/-- The lines of a source without their comments. -/
theorem join_before_rows {rows : List Row} {last : List Char} (hrows : ∀ r ∈ rows, r.IsPlain)
    (hlast : '-' ∉ last) :
    ((rows.map Row.chars ++ if last = [] then [] else [last]).map
        (Text.beforeChars ['-', '-'])).flatten = rows.flatMap Row.kept ++ last := by
  have hkept : (rows.map Row.chars).map (Text.beforeChars ['-', '-']) = rows.map Row.kept := by
    rw [List.map_map]
    exact List.map_congr_left fun r hr => (hrows r hr).before
  rw [List.map_append, hkept, List.flatten_append, List.flatMap_def]
  by_cases hnil : last = []
  · simp [hnil]
  · simp [hnil, Text.beforeChars_eq_self hlast]

namespace Source.Writes

variable {src : Source} {ds : List Definition}

theorem firstRow_isPlain (h : src.Writes ds) : src.firstRow.IsPlain := by
  refine ⟨nofun, fun c hc => ?_⟩
  rcases List.mem_append.1 hc with hc | hc
  · exact fun hmem => h.intro c hc (List.mem_cons_of_mem _ hmem)
  rcases mem_intercalate hc with rfl | ⟨g, hg, hc⟩
  · decide
  obtain ⟨n, hn, rfl⟩ := List.mem_map.1 hg
  rcases List.mem_cons.1 hc with rfl | hc
  · decide
  · exact fun hmem => h.builtins n hn c hc (List.mem_cons_of_mem _ (List.mem_cons_of_mem _ hmem))

theorem physicalLines (h : src.Writes ds) : Text.physicalLines (Text.unifyNewlines src.text)
    = ((src.firstRow :: src.rows).map Row.chars ++ if src.last = [] then [] else [src.last]).map
      String.ofList := by
  have hplain : ∀ r ∈ src.firstRow :: src.rows, r.IsPlain :=
    List.forall_mem_cons.2 ⟨h.firstRow_isPlain, h.rows⟩
  have hreturn : '\r' ∉ (src.firstRow :: src.rows).flatMap Row.chars ++ src.last := by
    rw [List.mem_append, List.mem_flatMap]
    rintro (⟨r, hr, hc⟩ | hc)
    · exact (hplain r hr).not_mem.2 hc
    · exact h.last _ hc (by decide)
  rw [Text.physicalLines, Text.unifyNewlines, String.toList_ofList, text, String.toList_ofList,
    Text.unifyChars_eq hreturn, cutAfterLineFeed_rows hplain fun hc => h.last _ hc (by decide)]

end Source.Writes

/-! ## Braces -/

theorem betweenBraces_eq {head content tail : List Char} (hhead : '\x7b' ∉ head)
    (hcontent : '\x7b' ∉ content ∧ '\x7d' ∉ content) (htail : '\x7b' ∉ tail ∧ '\x7d' ∉ tail) :
    betweenBraces (String.ofList (head ++ '\x7b' :: (content ++ '\x7d' :: tail)))
      = .ok (String.ofList content) := by
  have hopen : splitChars ['\x7b'] (head ++ '\x7b' :: (content ++ '\x7d' :: tail))
      = [head, content ++ '\x7d' :: tail] := by
    have hparts : ∀ p ∈ [head, content ++ '\x7d' :: tail], '\x7b' ∉ p := by
      simp [hhead, hcontent.1, htail.1]
    simpa [List.intercalate_cons_cons] using
      Text.splitChars_intercalate (List.cons_ne_nil _ _) hparts
  have hclose : splitChars ['\x7d'] (content ++ '\x7d' :: tail) = [content, tail] := by
    have hparts : ∀ p ∈ [content, tail], '\x7d' ∉ p := by simp [hcontent.2, htail.2]
    simpa [List.intercalate_cons_cons] using
      Text.splitChars_intercalate (List.cons_ne_nil _ _) hparts
  have hopen' : Text.splitOn "\x7b" (String.ofList (head ++ '\x7b' :: (content ++ '\x7d' :: tail)))
      = [String.ofList head, String.ofList (content ++ '\x7d' :: tail)] := by
    rw [splitOn_ofList]
    exact congrArg (List.map String.ofList) hopen
  have hclose' : Text.splitOn "\x7d" (String.ofList (content ++ '\x7d' :: tail))
      = [String.ofList content, String.ofList tail] := by
    rw [splitOn_ofList]
    exact congrArg (List.map String.ofList) hclose
  rw [betweenBraces, hopen']
  simp only [hclose']

theorem Definition.Laid.not_mem {d : Definition} (hd : d.IsSound) {cs : List Char} (h : d.Laid cs)
    {m : Char} (hm : m ∈ ['\x7b', '\x7d']) : m ∉ cs := by
  have hmark : ∀ m ∈ ['\x7b', '\x7d'], isBlank m = false ∧ m ∈ marks ∧ m ∈ outerMarks ∧
      m ≠ '|' ∧ m ≠ '=' := forall_mem_of_all (by decide)
  obtain ⟨hblank, hmarks, houter, hbar, hequals⟩ := hmark m hm
  obtain ⟨gap, hgap, _, htrail⟩ := h
  refine not_mem_of_trail htrail hblank (List.forall_mem_cons.2 ⟨?_, fun w hw => ?_⟩)
  · simp only [List.mem_append, List.mem_singleton, not_or]
    exact ⟨⟨fun hc => (hd.1.2.1 m hc).2 hmarks,
      fun hc => Bool.noConfusion ((hgap m hc).symm.trans hblank)⟩, hequals⟩
  · exact hd.not_mem_texts w hw m houter hbar

/-- Braces are not in definitions. -/
theorem LaidOut.not_mem {ds : List Definition} {cs : List Char} (h : LaidOut ds cs)
    (hsound : ∀ d ∈ ds, d.IsSound) {m : Char} (hm : m ∈ ['\x7b', '\x7d']) : m ∉ cs := by
  induction h with
  | nil hgap =>
    have hblank : ∀ m ∈ ['\x7b', '\x7d'], isBlank m = false := forall_mem_of_all (by decide)
    exact fun hc => Bool.noConfusion ((hgap m hc).symm.trans (hblank m hm))
  | last hlaid => exact hlaid.not_mem (hsound _ List.mem_cons_self) hm
  | cons hlaid _ _ ih =>
    obtain ⟨hd, hsound⟩ := List.forall_mem_cons.1 hsound
    exact fun hc => (List.mem_append.1 hc).elim (hlaid.not_mem hd hm) (ih hsound)

namespace Source.Writes

variable {src : Source} {ds : List Definition}

/-- The definitions of a source are put together from the lines between its braces. -/
theorem exists_content (h : src.Writes ds) (hsound : ∀ d ∈ ds, d.IsSound) :
    ∃ content, LaidOut ds content ∧ '\r' ∉ content ∧
      definitions (Text.physicalLines (Text.unifyNewlines src.text))
        = gather none ((Text.cutAfterBoundary content).map String.ofList) := by
  obtain ⟨head, content, tail, hbody, hhead, htail, htail', hlaid⟩ := h.body
  have hplain : ∀ r ∈ src.firstRow :: src.rows, r.IsPlain :=
    List.forall_mem_cons.2 ⟨h.firstRow_isPlain, h.rows⟩
  have hreturn : '\r' ∉ content := by
    intro hc
    have hmem : '\r' ∈ src.rows.flatMap Row.kept ++ src.last := by
      rw [hbody]
      simp [hc]
    rw [List.mem_append, List.mem_flatMap] at hmem
    rcases hmem with ⟨r, hr, hc⟩ | hc
    · exact (h.rows r hr).not_mem_kept hc
    · exact h.last _ hc (by decide)
  have hjoin : String.join ((Text.physicalLines (Text.unifyNewlines src.text)).map
      (Text.before "--")) = String.ofList (head ++ '\x7b' :: (content ++ '\x7d' :: tail)) := by
    have hbefore : ∀ l, (Text.before "--" (String.ofList l)).toList
        = Text.beforeChars ['-', '-'] l := fun l => by
      rw [Text.before, String.toList_ofList, String.toList_ofList, String.toList_ofList]
    have hkept := join_before_rows hplain fun hc => h.last _ hc (by decide)
    rw [← String.toList_inj, String.toList_join, h.physicalLines, String.toList_ofList, ← hbody,
      List.flatMap_map, List.flatMap_map]
    simp only [hbefore]
    rw [List.flatMap_def, hkept]
    rfl
  have hlines : Text.logicalLines (String.ofList content)
      = (Text.cutAfterBoundary content).map String.ofList := by
    rw [Text.logicalLines, String.toList_ofList]
  refine ⟨content, hlaid, hreturn, ?_⟩
  rw [definitions, hjoin, betweenBraces_eq hhead
    ⟨hlaid.not_mem hsound (by decide), hlaid.not_mem hsound (by decide)⟩ ⟨htail, htail'⟩]
  exact congrArg (gather none) hlines

/-- The definitions of a source are found in it. -/
theorem definitions_eq (h : src.Writes ds) (hne : ds ≠ []) (hsound : ∀ d ∈ ds, d.IsSound) :
    ∃ texts, List.Forall₂ Definition.Laid ds texts ∧
      definitions (Text.physicalLines (Text.unifyNewlines src.text))
        = .ok (texts.map fun t => some (String.ofList t)) := by
  obtain ⟨content, hlaid, hreturn, hdefinitions⟩ := h.exists_content hsound
  obtain ⟨texts, htexts, hgather⟩ := gather_of_laidOut hlaid hne hsound hreturn
  exact ⟨texts, htexts, hdefinitions.trans (hgather none)⟩

/-- Where a source has none, one is missing. -/
theorem definitions_eq_of_nil (h : src.Writes []) :
    definitions (Text.physicalLines (Text.unifyNewlines src.text)) = .ok [none] := by
  obtain ⟨content, hlaid, -, hdefinitions⟩ := h.exists_content (List.forall_mem_nil _)
  cases hlaid with
  | nil hgap => exact hdefinitions.trans (gather_gap hgap)

end Source.Writes

/-! ## Built-in types -/

/-- The pieces of the first line, with the built-in types they name: the first piece has
    all that stands before, and the line feed belongs to the last. -/
def builtinPieces (lead : List Char) : List String → List (String × String)
  | [] => []
  | [n] => [(String.ofList (lead ++ ' ' :: n.toList ++ ['\n']), n ++ "\n")]
  | n :: n' :: names =>
    (String.ofList (lead ++ ' ' :: n.toList), n) :: builtinPieces [] (n' :: names)

/-- The pieces of a source's first line. -/
def Source.pieces (src : Source) : List (String × String) :=
  builtinPieces ('-' :: '-' :: src.intro) src.builtins

theorem intercalate_builtinPieces {names : List String} (hne : names ≠ []) (lead : List Char) :
    [','].intercalate ((builtinPieces lead names).map (·.1.toList))
      = lead ++ [','].intercalate (names.map fun n => ' ' :: n.toList) ++ ['\n'] := by
  induction names generalizing lead with
  | nil => exact absurd rfl hne
  | cons n names ih =>
    cases names with
    | nil => simp [builtinPieces]
    | cons n' names =>
      have hrest := ih (List.cons_ne_nil _ _) []
      cases hp : builtinPieces [] (n' :: names) with
      | nil => cases names <;> cases hp
      | cons p pieces =>
        rw [hp, List.map_cons] at hrest
        rw [builtinPieces, hp, List.map_cons, List.map_cons, List.intercalate_cons_cons, hrest]
        simp [List.intercalate_cons_cons]

theorem not_mem_builtinPieces {lead : List Char} {names : List String} (hlead : ',' ∉ lead)
    (hnames : ∀ n ∈ names, ',' ∉ n.toList) :
    ∀ p ∈ (builtinPieces lead names).map (·.1.toList), ',' ∉ p := by
  induction names generalizing lead with
  | nil => exact nofun
  | cons n names ih =>
    obtain ⟨hn, hnames⟩ := List.forall_mem_cons.1 hnames
    cases names with
    | nil => simp [builtinPieces, hlead, hn]
    | cons n' names =>
      rw [builtinPieces, List.map_cons]
      exact List.forall_mem_cons.2 ⟨by simp [hlead, hn], ih List.not_mem_nil hnames⟩

theorem splitOn_builtinPieces {lead : List Char} {names : List String} (hlead : ',' ∉ lead)
    (hne : names ≠ []) (hnames : ∀ n ∈ names, ',' ∉ n.toList) :
    Text.splitOn "," (String.ofList
        (lead ++ [','].intercalate (names.map fun n => ' ' :: n.toList) ++ ['\n']))
      = (builtinPieces lead names).map (·.1) := by
  have hpieces : (builtinPieces lead names).map (·.1.toList) ≠ [] := by
    cases names with
    | nil => exact absurd rfl hne
    | cons n names => cases names <;> exact List.cons_ne_nil _ _
  have hsplit := Text.splitChars_intercalate hpieces (not_mem_builtinPieces hlead hnames)
  rw [intercalate_builtinPieces hne] at hsplit
  rw [splitOn_ofList]
  refine (congrArg (List.map String.ofList) hsplit).trans ?_
  simp [Function.comp_def]

/-- The last word of a text. -/
theorem getLastD_splitOn_blank {word : List Char} (h : ' ' ∉ word) (lead : List Char) :
    (Text.splitOn " " (String.ofList (lead ++ ' ' :: word))).getLastD "" = String.ofList word := by
  have hword : splitChars [' '] word = [word] :=
    Text.splitChars_eq_singleton fun hi => h (hi.subset List.mem_cons_self)
  have hsplit : splitChars [' '] (lead ++ ' ' :: word) = splitChars [' '] lead ++ [word] := by
    rw [← hword, Text.splitChars_singleton, Text.splitChars_singleton, Text.splitChars_singleton]
    exact List.splitOnP_append_cons lead word (beq_self_eq_true ' ')
  rw [splitOn_ofList]
  show ((splitChars [' '] (lead ++ ' ' :: word)).map String.ofList).getLastD "" = _
  rw [hsplit]
  simp

theorem getLastD_splitOn_builtinPieces {names : List String}
    (hnames : ∀ n ∈ names, ' ' ∉ n.toList) (lead : List Char) :
    ∀ p ∈ builtinPieces lead names, (Text.splitOn " " p.1).getLastD "" = p.2 := by
  induction names generalizing lead with
  | nil => exact nofun
  | cons n names ih =>
    obtain ⟨hn, hnames⟩ := List.forall_mem_cons.1 hnames
    cases names with
    | nil =>
      have hlast : ' ' ∉ n.toList ++ ['\n'] := by simpa using hn
      refine List.forall_mem_singleton.2 ?_
      simpa using getLastD_splitOn_blank hlast lead
    | cons n' names =>
      rw [builtinPieces]
      refine List.forall_mem_cons.2 ⟨?_, ih hnames []⟩
      simpa using getLastD_splitOn_blank hn lead

theorem foldl_addBuiltin {pieces : List (String × String)}
    (h : ∀ p ∈ pieces, (Text.splitOn " " p.1).getLastD "" = p.2) (g : Grammar) :
    (pieces.map (·.1)).foldl addBuiltin g
      = ⟨Entries.update g.categories (pieces.map fun p => (p.1, ⟨p.1, [p.2], true⟩)),
        Entries.update g.types (pieces.map fun p => (p.2, ⟨p.2, p.1, [], []⟩))⟩ := by
  induction pieces generalizing g with
  | nil => rfl
  | cons p pieces ih =>
    obtain ⟨hp, hpieces⟩ := List.forall_mem_cons.1 h
    rw [List.map_cons, List.foldl_cons, ih hpieces, addBuiltin, hp]
    rfl

/-! ## Names -/

/-- A new name comes last. -/
theorem map_fst_store {α : Type} (entries : List (String × α)) (name : String) (value : α) :
    (Entries.store entries name value).map Prod.fst =
      if name ∈ entries.map Prod.fst then entries.map Prod.fst
      else entries.map Prod.fst ++ [name] := by
  have hany : (entries.any fun e => e.1 = name) = true ↔ name ∈ entries.map Prod.fst := by
    simp [List.any_eq_true]
  unfold Entries.store
  simp only [hany]
  split_ifs
  · rw [List.map_map]
    refine List.map_congr_left fun e _ => ?_
    by_cases he : e.1 = name <;> simp [he]
  · simp

theorem mem_map_fst_store_iff {α : Type} {entries : List (String × α)} {name n : String}
    {value : α} : n ∈ (Entries.store entries name value).map Prod.fst ↔
      n = name ∨ n ∈ entries.map Prod.fst := by
  rw [map_fst_store]
  split_ifs with hold
  · exact ⟨.inr, fun h => h.elim (fun heq => heq ▸ hold) id⟩
  · rw [List.mem_append, List.mem_singleton, or_comm]

theorem mem_map_fst_update_iff {α : Type} {more entries : List (String × α)} {n : String} :
    n ∈ (Entries.update entries more).map Prod.fst ↔
      n ∈ entries.map Prod.fst ∨ n ∈ more.map Prod.fst := by
  induction more generalizing entries with
  | nil => simp [Entries.update]
  | cons e more ih =>
    show n ∈ (Entries.update (Entries.store entries e.1 e.2) more).map Prod.fst ↔ _
    rw [ih, mem_map_fst_store_iff, List.map_cons, List.mem_cons]
    tauto

theorem mem_store {α : Type} {entries : List (String × α)} {name : String} {value : α}
    {e : String × α} (h : e ∈ Entries.store entries name value) :
    e = (name, value) ∨ e ∈ entries := by
  unfold Entries.store at h
  split at h
  · obtain ⟨old, hold, rfl⟩ := List.mem_map.1 h
    split
    · exact .inl rfl
    · exact .inr hold
  · rcases List.mem_append.1 h with hold | hnew
    · exact .inr hold
    · exact .inl (List.mem_singleton.1 hnew)

theorem map_update {α β : Type} (f : α → β) (more entries : List (String × α)) :
    (Entries.update entries more).map (fun e => (e.1, f e.2))
      = Entries.update (entries.map fun e => (e.1, f e.2)) (more.map fun e => (e.1, f e.2)) := by
  induction more generalizing entries with
  | nil => rfl
  | cons e more ih =>
    have hstore : (Entries.store entries e.1 e.2).map (fun e => (e.1, f e.2))
        = Entries.store (entries.map fun e => (e.1, f e.2)) e.1 (f e.2) := by
      rw [Entries.store, Entries.store, List.any_map]
      split
      · rename_i h
        rw [if_pos (by simpa [Function.comp_def] using h), List.map_map, List.map_map]
        refine List.map_congr_left fun x _ => ?_
        by_cases hx : x.1 = e.1 <;> simp [hx]
      · rename_i h
        rw [if_neg (by simpa [Function.comp_def] using h)]
        simp
    exact (ih (Entries.store entries e.1 e.2)).trans (by rw [hstore]; rfl)

/-- A piece of the first line has a blank in it, and its type is a name of the list, for the
    last one with the line feed. -/
theorem mem_builtinPieces {names : List String} {lead : List Char} {p : String × String}
    (h : p ∈ builtinPieces lead names) :
    ' ' ∈ p.1.toList ∧ ∃ n ∈ names, p.2 = n ∨ p.2 = n ++ "\n" := by
  induction names generalizing lead with
  | nil => exact absurd h List.not_mem_nil
  | cons n names ih =>
    cases names with
    | nil =>
      obtain rfl := List.mem_singleton.1 h
      exact ⟨by simp, n, List.mem_cons_self, .inr rfl⟩
    | cons n' names =>
      rw [builtinPieces] at h
      rcases List.mem_cons.1 h with rfl | h
      · exact ⟨by simp, n, List.mem_cons_self, .inl rfl⟩
      · obtain ⟨hblank, m, hm, hp⟩ := ih h
        exact ⟨hblank, m, List.mem_cons_of_mem _ hm, hp⟩

theorem Definition.IsSound.isName_of_mem {d : Definition} (h : d.IsSound) {n : String}
    (hn : n ∈ d.typeNames) : IsName n := by
  obtain ⟨c, hc, rfl⟩ := List.mem_map.1 hn
  have hname := (h.2.2.1 c hc).1
  cases hcname : c.name with
  | none => exact h.1
  | some name =>
    rw [hcname] at hname
    exact hname

/-! ## Types as JSON -/

/-- A type as JSON: its category, and its fields in order and by name. -/
def typeJson (category : String) (fields : List Field) : Json :=
  .obj [("category", .str category),
    ("order", .arr (fields.map fun f => .str f.name)),
    ("fields", .obj (fields.map fun f =>
      (f.name, .obj [("cat", .str f.category), ("q", .str f.qualifier)])))]

/-- Fields with different names are all found by name. -/
theorem NodeType.toJson_eq {t : NodeType} (h : (t.fields.map (·.name)).Nodup) :
    t.toJson = typeJson t.category t.fields := by
  have hmap : t.fieldMap = t.fields.map fun f => (f.name, f) := by
    have hupdate : t.fieldMap = Entries.update [] (t.fields.map fun f => (f.name, f)) := by
      rw [fieldMap, Entries.update, List.foldl_map]
    rw [hupdate, update_of_new]
    · rfl
    · rw [List.map_map]
      exact h
    · exact fun _ _ => List.not_mem_nil
  rw [toJson, hmap, order, typeJson, List.map_map, List.map_map]
  rfl

/-! ## The grammar of a source -/

theorem Grammar.read_eq {s first : String} {rest : List String} {ds : List (Option String)}
    {g : Grammar} (hlines : Text.physicalLines (Text.unifyNewlines s) = first :: rest)
    (hdefinitions : definitions (first :: rest) = .ok ds)
    (hall : defineAll ds (builtins first) = .ok () g) : Grammar.read s = .ok g := by
  rw [Grammar.read, hlines]
  simp only [hdefinitions, bind, Except.bind, hall]

namespace Source

variable (src : Source) (ds : List Definition)

/-- The categories of a source: those of the built-in types, then those defined. -/
def categories : List (String × Category) :=
  Entries.update [] (src.pieces.map fun p => (p.1, ⟨p.1, [p.2], true⟩)) ++
    ds.map (·.categoryEntry)

/-- The types of a source. -/
def types : List (String × NodeType) :=
  Entries.update [] (src.pieces.map fun p => (p.2, ⟨p.2, p.1, [], []⟩)) ++ ds.flatMap (·.entries)

/-- The types of a source as JSON. -/
def json : Json :=
  .obj (Entries.update [] (src.pieces.map fun p => (p.2, typeJson p.1 [])) ++
    ds.flatMap fun d => d.constructors.map fun c =>
      (c.name.getD d.category, typeJson d.category c.fields))

variable {src ds}

theorem builtins_firstRow (h : src.Writes ds) :
    Asdl.builtins (String.ofList src.firstRow.chars)
      = ⟨Entries.update [] (src.pieces.map fun p => (p.1, ⟨p.1, [p.2], true⟩)),
        Entries.update [] (src.pieces.map fun p => (p.2, ⟨p.2, p.1, [], []⟩))⟩ := by
  have hlead : ',' ∉ '-' :: '-' :: src.intro := by
    simpa using fun hc => h.intro ',' hc (by decide)
  have hsplit := splitOn_builtinPieces hlead h.listed fun n hn hc =>
    h.builtins n hn ',' hc (by decide)
  have hwords := getLastD_splitOn_builtinPieces (fun n hn hc => h.builtins n hn ' ' hc (by decide))
    ('-' :: '-' :: src.intro)
  have hchars : src.firstRow.chars = '-' :: '-' :: src.intro
      ++ [','].intercalate (src.builtins.map fun n => ' ' :: n.toList) ++ ['\n'] := by
    simp [firstRow, Row.chars]
  rw [Asdl.builtins, hchars, hsplit]
  exact foldl_addBuiltin hwords .empty

theorem map_toJson_types (hsound : ∀ d ∈ ds, d.IsSound) :
    Json.obj ((src.types ds).map fun t => (t.1, t.2.toJson)) = src.json ds := by
  have hentries : ∀ d ∈ ds, d.entries.map (fun t => (t.1, t.2.toJson))
      = d.constructors.map fun c => (c.name.getD d.category, typeJson d.category c.fields) := by
    intro d hd
    rw [Definition.entries, Definition.types, typesOf, List.map_map, List.map_map]
    refine List.map_congr_left fun c hc => ?_
    have hfields := ((hsound d hd).2.2.1 c hc).2.2
    exact Prod.ext rfl (NodeType.toJson_eq hfields)
  rw [types, List.map_append, map_update, List.map_map, List.map_flatMap, json]
  congr 2
  exact List.flatMap_congr hentries

theorem not_mem_builtins {d : Definition} (hd : d.IsSound) :
    d.category ∉ (Entries.update [] (src.pieces.map fun p =>
      (p.1, (⟨p.1, [p.2], true⟩ : Category)))).map Prod.fst := by
  intro hmem
  rcases mem_map_fst_update_iff.1 hmem with hmem | hmem
  · cases hmem
  · rw [List.map_map, List.mem_map] at hmem
    obtain ⟨p, hp, hpiece⟩ := hmem
    have hblank : ' ' ∈ d.category.toList := hpiece ▸ (mem_builtinPieces hp).1
    exact Bool.noConfusion (hd.1.2.1 ' ' hblank).1

theorem not_mem_builtinTypes {n : String} (hname : IsName n) (hn : n ∉ src.builtins) :
    n ∉ (Entries.update [] (src.pieces.map fun p =>
      (p.2, (⟨p.2, p.1, [], []⟩ : NodeType)))).map Prod.fst := by
  intro hmem
  rcases mem_map_fst_update_iff.1 hmem with hmem | hmem
  · cases hmem
  · rw [List.map_map, List.mem_map] at hmem
    obtain ⟨p, hp, hpiece⟩ := hmem
    obtain rfl : p.2 = n := hpiece
    obtain ⟨_, m, hm, heq | heq⟩ := mem_builtinPieces hp
    · exact hn (heq ▸ hm)
    · have hfeed : '\n' ∈ p.2.toList := by rw [heq]; simp
      exact Bool.noConfusion (hname.2.1 '\n' hfeed).1

/-- Without a definition nothing is read, the built-in types neither. -/
theorem read_of_nil (h : src.Writes []) : Grammar.read src.text = .error .noDefinition := by
  have hdefinitions := h.definitions_eq_of_nil
  have hlines := h.physicalLines
  rw [List.map_cons, List.cons_append, List.map_cons] at hlines
  rw [hlines] at hdefinitions
  rw [Grammar.read, hlines]
  simp only [hdefinitions]
  rfl

/-- **Grammars are read as they are written.**  A source without definitions is not read.  From
    one of definitions with different names, the categories and the types of the definitions are
    read after the built-in ones, with all their fields and, up to white space, their
    attributes; and the types are shown as JSON with their fields. -/
theorem read_source (h : src.Writes ds) (hsound : ∀ d ∈ ds, d.IsSound)
    (hcategories : (ds.map (·.category)).Nodup) (htypes : (ds.flatMap (·.typeNames)).Nodup)
    (hbuiltins : ∀ n ∈ ds.flatMap (·.typeNames), n ∉ src.builtins) :
    (ds = [] → Grammar.read src.text = .error .noDefinition) ∧
    (ds ≠ [] → ∃ g, Grammar.read src.text = .ok g ∧ g.categories = src.categories ds ∧
      g.types.map (fun t => (t.1, t.2.tidy)) = src.types ds ∧
      g.json = (src.json ds).render 0) := by
  refine ⟨fun hnil => read_of_nil (hnil ▸ h), fun hne => ?_⟩
  obtain ⟨texts, htexts, hdefinitions⟩ := h.definitions_eq hne hsound
  have hnames : ∀ n ∈ ds.flatMap (·.typeNames), IsName n := by
    intro n hn
    obtain ⟨d, hd, hn⟩ := List.mem_flatMap.1 hn
    exact (hsound d hd).isName_of_mem hn
  obtain ⟨g, hall, hc, ht⟩ := defineAll_of_laid htexts hsound
    (Asdl.builtins (String.ofList src.firstRow.chars)) hcategories
    (fun d hd => by rw [builtins_firstRow h]; exact not_mem_builtins (hsound d hd)) htypes
    (fun n hn => by
      rw [builtins_firstRow h]; exact not_mem_builtinTypes (hnames n hn) (hbuiltins n hn))
  rw [builtins_firstRow h] at hc ht
  have htidy : g.types.map (fun t => (t.1, t.2.tidy)) = src.types ds := by
    rw [ht, map_update, List.map_map]
    rfl
  refine ⟨g, ?_, hc, htidy, ?_⟩
  · have hlines := h.physicalLines
    rw [List.map_cons, List.cons_append, List.map_cons] at hlines
    rw [hlines] at hdefinitions
    exact Grammar.read_eq hlines hdefinitions hall
  · rw [Grammar.json, ← map_toJson_types hsound, ← htidy, List.map_map]
    rfl

/-- Texts, each with the white space before it, and the white space at the end. -/
def layOut (texts : List (String × String)) (last : String) : List Char :=
  texts.foldr (fun t cs => t.1.toList ++ (t.2.toList ++ cs)) last.toList

theorem trail_layOut {texts : List (String × String)} {last : String} {ws : List (List Char)}
    (htexts : ∀ t ∈ texts, IsGap t.1.toList) (hlast : IsGap last.toList)
    (hws : texts.map (·.2.toList) = ws) : Trail ws (layOut texts last) := by
  subst hws
  induction texts with
  | nil => exact .nil hlast
  | cons t texts ih =>
    obtain ⟨ht, htexts⟩ := List.forall_mem_cons.1 htexts
    exact .cons ht (ih htexts)

theorem getLast?_layOut {texts : List (String × String)} {last : String} {c : Char}
    (h : last.toList.getLast? = some c) : (layOut texts last).getLast? = some c := by
  induction texts with
  | nil => exact h
  | cons t texts ih =>
    have hne : layOut texts last ≠ [] := by
      intro hnil
      rw [hnil] at ih
      cases ih
    show (t.1.toList ++ (t.2.toList ++ layOut texts last)).getLast? = some c
    rw [← List.append_assoc, List.getLast?_append_of_ne_nil _ hne, ih]

/-- A sum with attributes, and a product without a name. -/
def sampleDefinitions : List Definition :=
  [⟨"mod", [⟨some "Module", [⟨"body", "stmt", "*"⟩, ⟨"n", "int", ""⟩]⟩, ⟨some "Eval", []⟩],
      [⟨"line", "int", ""⟩]⟩,
   ⟨"arg", [⟨none, [⟨"name", "identifier", "?"⟩]⟩], []⟩]

/-- Their source, with two comments and a definition over three lines. -/
def sampleSource : Source :=
  ⟨" built-in are".toList, ["identifier", "int"],
    [⟨"module M ".toList, some " version 1".toList⟩,
     ⟨"\x7b".toList, none⟩,
     ⟨"  mod = Module(stmt* body, int n)".toList, none⟩,
     ⟨"    | Eval ".toList, some " no fields".toList⟩,
     ⟨"    attributes (int line)".toList, none⟩,
     ⟨"  arg = (identifier? name)".toList, none⟩],
    "\x7d".toList⟩

/-- What is between the braces of the source, without comments. -/
def sampleContent : List Char :=
  layOut [("\n  ", "mod ="), (" ", "Module"), ("", "("), ("", "stmt* body"), ("", ","),
      (" ", "int n"), ("", ")"), ("\n    ", "|"), (" ", "Eval"), ("     ", "attributes"),
      (" ", "("), ("", "int line"), ("", ")")] "\n" ++
    layOut [("  ", "arg ="), (" ", "("), ("", "identifier? name"), ("", ")")] "\n"

theorem laidOut_sampleContent : LaidOut sampleDefinitions sampleContent := by
  have hgap : ∀ c ∈ [' '], Text.isLineBoundary c = false := forall_mem_of_all (by decide)
  refine .cons ⟨[' '], by decide, hgap, trail_layOut ?_ ?_ ?_⟩ ?ends
    (.last ⟨[' '], by decide, hgap, trail_layOut ?_ ?_ ?_⟩)
  case ends =>
    rw [getLast?_layOut (c := '\n') (by decide)]
    rintro _ ⟨⟩
    decide
  all_goals decide +kernel

theorem writes_sampleSource : sampleSource.Writes sampleDefinitions where
  intro := forall_mem_of_all (by decide +kernel)
  listed := by decide
  builtins := List.forall_mem_cons.2 ⟨forall_mem_of_all (by decide +kernel),
    List.forall_mem_singleton.2 (forall_mem_of_all (by decide +kernel))⟩
  rows := by decide +kernel
  last := forall_mem_of_all (by decide +kernel)
  body := ⟨"module M ".toList, sampleContent, [], by decide +kernel, by decide, by decide,
    by decide, laidOut_sampleContent⟩

/-- A source with nothing between its braces. -/
def emptySource : Source :=
  ⟨" built-in are".toList, ["int"], [⟨"\x7b".toList, none⟩], "\x7d".toList⟩

theorem writes_emptySource : emptySource.Writes [] where
  intro := forall_mem_of_all (by decide +kernel)
  listed := by decide
  builtins := List.forall_mem_singleton.2 (forall_mem_of_all (by decide +kernel))
  rows := by decide +kernel
  last := forall_mem_of_all (by decide +kernel)
  body := ⟨[], ['\n'], [], by decide, by decide, by decide, by decide, .nil (by decide)⟩

theorem read_sampleSource :
    sampleSource.Writes sampleDefinitions ∧ (∀ d ∈ sampleDefinitions, d.IsSound) ∧
    (∃ g, Grammar.read sampleSource.text = .ok g ∧
      g.categories = sampleSource.categories sampleDefinitions ∧
      g.types.map (fun t => (t.1, t.2.tidy)) = sampleSource.types sampleDefinitions ∧
      g.json = (sampleSource.json sampleDefinitions).render 0) ∧
    emptySource.Writes [] ∧ Grammar.read emptySource.text = .error .noDefinition := by
  have hsound : ∀ d ∈ sampleDefinitions, d.IsSound := by decide
  have hsample := (read_source writes_sampleSource hsound (by decide) (by decide) (by decide)).2
    (by decide)
  have hempty := (read_source writes_emptySource (List.forall_mem_nil _) .nil .nil
    (List.forall_mem_nil _)).1 rfl
  exact ⟨writes_sampleSource, hsound, hsample, writes_emptySource, hempty⟩

end Source

end SourceScribe.Asdl
