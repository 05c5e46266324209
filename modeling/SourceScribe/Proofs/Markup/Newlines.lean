/-
  Newlines in written markup.

  The newlines of a document are unified before it is read.  On written markup that does
  what unifying the texts inside does, as long as a carriage return at the end of one
  text and a line feed at the start of the next count as one newline if no tag stands
  between them.

  * `Text.unifyFrom` is the unifying as a machine that remembers a carriage return, and
    `unified` the same on markup (`unifies_render`);
  * `characterRuns` are the texts between two tags, and `content_unified` says that the
    text of `unified` markup is that of the runs, each with its newlines unified.
-/
import Mathlib.Data.List.ReduceOption
import SourceScribe.Proofs.Markup.Reading

namespace SourceScribe

/-! ## Unifying as a machine -/

namespace Text

/-- Unifies newlines after a carriage return, if `cr` says so: a line feed that comes next
    belongs to it. -/
def unifyFrom : (cr : Bool) → List Char → List Char
  | _, [] => []
  | cr, c :: cs =>
    if c = '\r' then '\n' :: unifyFrom true cs
    else if c = '\n' ∧ cr = true then unifyFrom false cs
    else c :: unifyFrom false cs

/-- Whether the last character is a carriage return; `cr` if there is none. -/
def endsInReturn : (cr : Bool) → List Char → Bool
  | cr, [] => cr
  | _, c :: cs => endsInReturn (c = '\r') cs

theorem unifyFrom_cons_of_ne {c : Char} (hc : c ≠ '\n') (cr : Bool) (cs : List Char) :
    unifyFrom cr (c :: cs) = unifyFrom false (c :: cs) := by
  simp [unifyFrom, hc]

theorem unifyFrom_false (cs : List Char) : unifyFrom false cs = unifyChars cs := by
  fun_induction unifyChars cs with
  | case1 => rfl
  | case2 cs ih => simp [unifyFrom, ih]
  | case3 c cs hnot ih =>
    rw [unifyFrom]
    split
    · rename_i hc
      -- no line feed follows, so that the carriage return is forgotten
      rw [← ih]
      cases cs with
      | nil => rfl
      | cons d ds =>
        rw [unifyFrom_cons_of_ne fun hd => hnot ds hc (by rw [hd])]
    · simp [ih]

theorem unifyFrom_append (cr : Bool) (as bs : List Char) :
    unifyFrom cr (as ++ bs) = unifyFrom cr as ++ unifyFrom (endsInReturn cr as) bs := by
  induction as generalizing cr with
  | nil => rfl
  | cons a as ih =>
    simp only [List.cons_append, unifyFrom, endsInReturn]
    split
    · simp [*]
    split <;> simp [*]

theorem endsInReturn_append (cr : Bool) (as bs : List Char) :
    endsInReturn cr (as ++ bs) = endsInReturn (endsInReturn cr as) bs := by
  induction as generalizing cr with
  | nil => rfl
  | cons a as ih => exact ih _

/-- Characters that are no newlines stay as they are. -/
theorem unifyFrom_eq_self {cs : List Char} (h : ∀ c ∈ cs, c ≠ '\r' ∧ c ≠ '\n') (cr : Bool) :
    unifyFrom cr cs = cs := by
  induction cs generalizing cr with
  | nil => rfl
  | cons c cs ih =>
    have hc := h c (by simp)
    simp [unifyFrom, hc, ih fun d hd => h d (by simp [hd])]

theorem unifyFrom_false_eq_self {cs : List Char} (h : '\r' ∉ cs) : unifyFrom false cs = cs := by
  induction cs with
  | nil => rfl
  | cons c cs ih =>
    simp only [List.mem_cons, not_or] at h
    simp [unifyFrom, Ne.symm h.1, ih h.2]

theorem endsInReturn_eq_false {cs : List Char} (hne : cs ≠ []) (h : '\r' ∉ cs) (cr : Bool) :
    endsInReturn cr cs = false := by
  induction cs generalizing cr with
  | nil => exact absurd rfl hne
  | cons c cs ih =>
    simp only [List.mem_cons, not_or] at h
    rw [endsInReturn, decide_eq_false (Ne.symm h.1)]
    cases cs with
    | nil => rfl
    | cons d ds => exact ih (by simp) h.2 _

/-- Unifying brings in nothing but line feeds. -/
theorem mem_of_mem_unifyFrom {c : Char} {cr : Bool} {cs : List Char} (h : c ∈ unifyFrom cr cs) :
    c = '\n' ∨ c ∈ cs := by
  induction cs generalizing cr with
  | nil => cases h
  | cons d ds ih =>
    rw [unifyFrom] at h
    split at h
    · rcases List.mem_cons.1 h with rfl | h
      · exact Or.inl rfl
      · exact (ih h).imp_right (List.mem_cons_of_mem d)
    split at h
    · exact (ih h).imp_right (List.mem_cons_of_mem d)
    · rcases List.mem_cons.1 h with rfl | h
      · exact Or.inr (by simp)
      · exact (ih h).imp_right (List.mem_cons_of_mem d)

/-- Unifying takes away nothing but newlines. -/
theorem mem_unifyFrom {c : Char} {cr : Bool} {cs : List Char} (h : c ∈ cs)
    (hc : c ≠ '\r' ∧ c ≠ '\n') : c ∈ unifyFrom cr cs := by
  induction cs generalizing cr with
  | nil => cases h
  | cons d ds ih =>
    rw [unifyFrom]
    rcases List.mem_cons.1 h with rfl | h
    · simp [hc]
    · split
      · exact List.mem_cons_of_mem _ (ih h)
      split
      · exact ih h
      · exact List.mem_cons_of_mem _ (ih h)

/-- Unifying turns `as` into `bs`, and has `cr'` to remember afterwards. -/
structure Unifies (cr : Bool) (as bs : List Char) (cr' : Bool) : Prop where
  text : unifyFrom cr as = bs
  ends : endsInReturn cr as = cr'

section
variable {cr cr₁ cr₂ : Bool} {as bs as' bs' : List Char}

theorem Unifies.append (h : Unifies cr as bs cr₁) (h' : Unifies cr₁ as' bs' cr₂) :
    Unifies cr (as ++ as') (bs ++ bs') cr₂ where
  text := by rw [unifyFrom_append, h.text, h.ends, h'.text]
  ends := by rw [endsInReturn_append, h.ends, h'.ends]

theorem unifies_self (cr : Bool) (hne : as ≠ []) (h : ∀ c ∈ as, c ≠ '\r' ∧ c ≠ '\n') :
    Unifies cr as as false where
  text := unifyFrom_eq_self h cr
  ends := endsInReturn_eq_false hne (fun hr => (h _ hr).1 rfl) cr

/-- Escaping leaves newlines alone and writes no new ones. -/
theorem unifies_flatMap {f : Char → List Char} (hr : f '\r' = ['\r']) (hn : f '\n' = ['\n'])
    (hf : ∀ c, c ≠ '\r' → c ≠ '\n' → f c ≠ [] ∧ ∀ d ∈ f c, d ≠ '\r' ∧ d ≠ '\n')
    (cr : Bool) (cs : List Char) :
    Unifies cr (cs.flatMap f) ((unifyFrom cr cs).flatMap f) (endsInReturn cr cs) := by
  induction cs generalizing cr with
  | nil => exact ⟨rfl, rfl⟩
  | cons c cs ih =>
    rw [List.flatMap_cons]
    by_cases hcr : c = '\r'
    · subst c
      have hhead : Unifies cr (f '\r') ['\n'] true := by rw [hr]; exact ⟨rfl, rfl⟩
      simpa [unifyFrom, endsInReturn, hn] using hhead.append (ih true)
    by_cases hlf : c = '\n'
    · subst c
      rw [hn]
      cases cr with
      | false =>
        have hhead : Unifies false ['\n'] ['\n'] false := ⟨rfl, rfl⟩
        simpa [unifyFrom, endsInReturn, hn] using hhead.append (ih false)
      | true =>
        have hhead : Unifies true ['\n'] [] false := ⟨rfl, rfl⟩
        simpa [unifyFrom, endsInReturn] using hhead.append (ih false)
    · obtain ⟨hne, hplain⟩ := hf c hcr hlf
      simpa [unifyFrom, endsInReturn, hcr, hlf] using (unifies_self cr hne hplain).append (ih false)

end

end Text

/-! ## Unifying in markup -/

namespace Markup

open Text (Unifies unifyFrom endsInReturn unifies_self unifies_flatMap)

/-- What is to remember after a piece of markup. -/
def remembers (cr : Bool) : Markup → Bool
  | text s => endsInReturn cr s.toList
  | element .. => false

mutual

/-- Unifies the newlines in texts and attributes.  Texts that follow one another are
    taken together. -/
def unified (cr : Bool) : Markup → Markup
  | text s => text (String.ofList (unifyFrom cr s.toList))
  | element tag attrs ms =>
    element tag (attrs.map fun a => (a.1, Text.unifyNewlines a.2)) (unifiedAll false ms)

/-- `unified` of all pieces. -/
def unifiedAll (cr : Bool) : List Markup → List Markup
  | [] => []
  | m :: ms => m.unified cr :: unifiedAll (m.remembers cr) ms

end

theorem escapeTextChar_plain {c : Char} (hr : c ≠ '\r') (hn : c ≠ '\n') :
    escapeTextChar c ≠ [] ∧ ∀ d ∈ escapeTextChar c, d ≠ '\r' ∧ d ≠ '\n' := by
  rw [escapeTextChar]
  split
  · exact ⟨by simp, by simp⟩
  split
  · exact ⟨by simp, by simp⟩
  split
  · exact ⟨by simp, by simp⟩
  · exact ⟨by simp, by simp [hr, hn]⟩

theorem unifies_escapeText (cr : Bool) (cs : List Char) :
    Unifies cr (cs.flatMap escapeTextChar) ((unifyFrom cr cs).flatMap escapeTextChar)
      (endsInReturn cr cs) :=
  unifies_flatMap (by decide) (by decide) (fun _ => escapeTextChar_plain) cr cs

theorem unifies_escapeValue (cr : Bool) (cs : List Char) :
    Unifies cr (cs.flatMap escapeValueChar) ((unifyFrom cr cs).flatMap escapeValueChar)
      (endsInReturn cr cs) := by
  refine unifies_flatMap (by decide) (by decide) (fun c hr hn => ?_) cr cs
  rw [escapeValueChar]
  split
  · exact ⟨by simp, by simp⟩
  · exact escapeTextChar_plain hr hn

/-- The letters of a word are no newlines. -/
theorem word_plain {name : String} (hw : isWord name = true) :
    ∀ c ∈ name.toList, c ≠ '\r' ∧ c ≠ '\n' := by
  simp only [isWord, Bool.and_eq_true, List.all_eq_true] at hw
  exact fun c hc => ⟨ne_of_isAlpha (hw.2 c hc) (by decide), ne_of_isAlpha (hw.2 c hc) (by decide)⟩

theorem unifies_renderAttrs {attrs : List (String × String)}
    (hn : ∀ a ∈ attrs, isWord a.1 = true) :
    Unifies false (renderAttrs attrs).toList
      (renderAttrs (attrs.map fun a => (a.1, Text.unifyNewlines a.2))).toList false := by
  induction attrs with
  | nil => exact ⟨rfl, rfl⟩
  | cons a attrs ih =>
    obtain ⟨name, value⟩ := a
    have hname := word_plain (hn (name, value) (by simp))
    have hbefore : Unifies false (' ' :: (name.toList ++ ['=', '"']))
        (' ' :: (name.toList ++ ['=', '"'])) false := by
      refine unifies_self false (by simp) fun c hc => ?_
      simp only [List.mem_cons, List.mem_append, List.not_mem_nil, or_false] at hc
      rcases hc with rfl | hc | rfl | rfl
      · decide
      · exact hname c hc
      · decide
      · decide
    have hafter : ∀ cr, Unifies cr ['"'] ['"'] false := fun cr => unifies_self cr (by simp) (by simp)
    have hvalue := (hbefore.append (unifies_escapeValue false value.toList)).append (hafter _)
    rw [List.map_cons, toList_renderAttrs_cons, toList_renderAttrs_cons]
    have hall := hvalue.append (ih fun b hb => hn b (by simp [hb]))
    simpa [Text.unifyNewlines, Text.unifyFrom_false] using hall

/-- A tag, whatever came before it. -/
theorem unifies_tag (cr : Bool) {name : String} (cs ds : List Char) (hw : isWord name = true)
    (hne : cs ≠ []) (hcs : ∀ c ∈ cs ++ ds, c ≠ '\r' ∧ c ≠ '\n') :
    Unifies cr (cs ++ name.toList ++ ds) (cs ++ name.toList ++ ds) false := by
  refine unifies_self cr (by simp [hne]) fun c hc => ?_
  simp only [List.mem_append] at hc hcs
  rcases hc with (hc | hc) | hc
  · exact hcs c (Or.inl hc)
  · exact word_plain hw c hc
  · exact hcs c (Or.inr hc)

theorem unifiedAll_ne_nil {cr : Bool} {ms : List Markup} (h : ms ≠ []) : unifiedAll cr ms ≠ [] := by
  cases ms with
  | nil => exact absurd rfl h
  | cons m ms => simp [unifiedAll]

/-- The written form of an element that holds something. -/
theorem render_element_of_ne_nil (tag : String) (attrs : List (String × String)) {ms : List Markup}
    (h : ms ≠ []) : (element tag attrs ms).render =
      "<" ++ tag ++ renderAttrs attrs ++ ">" ++ renderAll ms ++ "</" ++ tag ++ ">" := by
  cases ms with
  | nil => exact absurd rfl h
  | cons m ms => simp [render, renderAll, String.append_assoc]

mutual

/-- Unifying the newlines of written markup is writing the markup with its newlines
    unified. -/
theorem unifies_render : ∀ (m : Markup) (cr : Bool), m.wellNamed = true →
    Unifies cr m.render.toList (m.unified cr).render.toList (m.remembers cr)
  | .text s, cr, _ => by
    simpa [render, unified, escapeText, remembers] using unifies_escapeText cr s.toList
  | .element name attrs ms, cr, hn => by
    rw [wellNamed, Bool.and_eq_true, Bool.and_eq_true, attrsNamed, Bool.and_eq_true,
      List.all_eq_true] at hn
    obtain ⟨⟨hw, ha, -⟩, hns⟩ := hn
    have hattrs := unifies_renderAttrs fun a hmem => (Bool.and_eq_true _ _ ▸ ha a hmem).1
    have hstart := (unifies_tag cr ['<'] [] hw (by simp) (by simp)).append hattrs
    by_cases hms : ms = []
    · subst hms
      have hend : Unifies false ['/', '>'] ['/', '>'] false := ⟨rfl, rfl⟩
      simpa [unified, unifiedAll, render, remembers] using hstart.append hend
    · obtain ⟨cr', hinside⟩ := unifies_renderAll ms false hns
      have hmiddle : Unifies false ['>'] ['>'] false := ⟨rfl, rfl⟩
      have hend := unifies_tag cr' ['<', '/'] ['>'] hw (by simp) (by simp)
      have hall := ((hstart.append hmiddle).append hinside).append hend
      rw [unified, render_element_of_ne_nil _ _ hms,
        render_element_of_ne_nil _ _ (unifiedAll_ne_nil hms)]
      simpa [remembers] using hall

theorem unifies_renderAll : ∀ (ms : List Markup) (cr : Bool), wellNamedAll ms = true →
    ∃ cr', Unifies cr (renderAll ms).toList (renderAll (unifiedAll cr ms)).toList cr'
  | [], cr, _ => ⟨cr, rfl, rfl⟩
  | m :: ms, cr, hn => by
    rw [wellNamedAll, Bool.and_eq_true] at hn
    obtain ⟨cr', hrest⟩ := unifies_renderAll ms (m.remembers cr) hn.2
    refine ⟨cr', ?_⟩
    simpa [renderAll, unifiedAll] using (unifies_render m cr hn.1).append hrest

end

/-! ## Names and characters -/

theorem attrsNamed_unified (attrs : List (String × String)) :
    attrsNamed (attrs.map fun a => (a.1, Text.unifyNewlines a.2)) = attrsNamed attrs := by
  simp [attrsNamed, List.all_map, Function.comp_def]

mutual

theorem wellNamed_unified : ∀ (m : Markup) (cr : Bool), (m.unified cr).wellNamed = m.wellNamed
  | .text s, cr => by rw [unified, wellNamed, wellNamed]
  | .element name attrs ms, cr => by
    rw [unified, wellNamed, wellNamed, attrsNamed_unified, wellNamedAll_unified ms false]

theorem wellNamedAll_unified : ∀ (ms : List Markup) (cr : Bool),
    wellNamedAll (unifiedAll cr ms) = wellNamedAll ms
  | [], cr => by rw [unifiedAll]
  | m :: ms, cr => by
    rw [unifiedAll, wellNamedAll, wellNamedAll, wellNamed_unified m cr, wellNamedAll_unified ms _]

end

/-- Line feeds may stand in a document. -/
theorem isDocumentChar_unifyFrom {cr : Bool} {cs : List Char}
    (h : ∀ c ∈ cs, isDocumentChar c = true) : ∀ c ∈ unifyFrom cr cs, isDocumentChar c = true := by
  intro c hc
  rcases Text.mem_of_mem_unifyFrom hc with rfl | hc
  · decide
  · exact h c hc

mutual

theorem isReadable_unified : ∀ (m : Markup) (cr : Bool), m.isReadable = true →
    (m.unified cr).isReadable = true
  | .text s, cr, h => by
    rw [isReadable_text] at h
    rw [unified, isReadable_text, String.toList_ofList]
    exact isDocumentChar_unifyFrom h
  | .element name attrs ms, cr, h => by
    obtain ⟨hv, hms⟩ := (isReadable_element name attrs ms).1 h
    rw [unified, isReadable_element]
    refine ⟨fun a ha => ?_, isReadableAll_unified ms false hms⟩
    obtain ⟨b, hb, rfl⟩ := List.mem_map.1 ha
    rw [Text.unifyNewlines, String.toList_ofList, ← Text.unifyFrom_false]
    exact isDocumentChar_unifyFrom (hv b hb)

theorem isReadableAll_unified : ∀ (ms : List Markup) (cr : Bool), isReadableAll ms = true →
    isReadableAll (unifiedAll cr ms) = true
  | [], cr, _ => by rw [unifiedAll]; rfl
  | m :: ms, cr, h => by
    obtain ⟨hm, hms⟩ := (isReadableAll_cons m ms).1 h
    rw [unifiedAll, isReadableAll_cons]
    exact ⟨isReadable_unified m cr hm, isReadableAll_unified ms _ hms⟩

end

/-! ## Runs of character data -/

mutual

/-- The characters in a piece of markup, with a mark for every tag. -/
def pieces : Markup → List (Option Char)
  | text s => s.toList.map some
  | element _ _ ms => none :: (piecesAll ms ++ [none])

/-- The characters in pieces of markup, with a mark for every tag. -/
def piecesAll : List Markup → List (Option Char)
  | [] => []
  | m :: ms => m.pieces ++ piecesAll ms

end

/-- The characters between two marks. -/
def runs : List (Option Char) → List (List Char)
  | [] => [[]]
  | none :: xs => [] :: runs xs
  | some c :: xs =>
    match runs xs with
    | [] => [[c]]
    | r :: rs => (c :: r) :: rs

/-- The longest texts that no tag interrupts, in order. -/
def characterRuns (m : Markup) : List String :=
  (runs m.pieces).map String.ofList

/-- Unifies newlines, with nothing to remember after a mark. -/
def unifyPieces : (cr : Bool) → List (Option Char) → List Char
  | _, [] => []
  | _, none :: xs => unifyPieces false xs
  | cr, some c :: xs => unifyFrom cr [c] ++ unifyPieces (c = '\r') xs

theorem unifyPieces_some (cr : Bool) (cs : List Char) (xs : List (Option Char)) :
    unifyPieces cr (cs.map some ++ xs) = unifyFrom cr cs ++ unifyPieces (endsInReturn cr cs) xs := by
  induction cs generalizing cr with
  | nil => rfl
  | cons c cs ih =>
    have hsplit := Text.unifyFrom_append cr [c] cs
    rw [List.singleton_append] at hsplit
    rw [List.map_cons, List.cons_append, unifyPieces, ih, hsplit, List.append_assoc]
    rfl

/-- Every run is unified on its own. -/
theorem unifyPieces_eq_runs (cr : Bool) (xs : List (Option Char)) :
    ∃ r rs, runs xs = r :: rs ∧
      unifyPieces cr xs = unifyFrom cr r ++ (rs.map Text.unifyChars).flatten := by
  induction xs generalizing cr with
  | nil => exact ⟨[], [], rfl, rfl⟩
  | cons x xs ih =>
    cases x with
    | none =>
      obtain ⟨r, rs, hruns, htext⟩ := ih false
      refine ⟨[], r :: rs, by rw [runs, hruns], ?_⟩
      rw [unifyPieces, htext, Text.unifyFrom_false]
      rfl
    | some c =>
      obtain ⟨r, rs, hruns, htext⟩ := ih (c = '\r')
      refine ⟨c :: r, rs, by rw [runs, hruns], ?_⟩
      have hsplit := Text.unifyFrom_append cr [c] r
      rw [List.singleton_append] at hsplit
      rw [unifyPieces, htext, hsplit, List.append_assoc]
      rfl

mutual

theorem unifyPieces_pieces : ∀ (m : Markup) (cr : Bool) (xs : List (Option Char)),
    unifyPieces cr (m.pieces ++ xs) =
      (m.unified cr).content.toList ++ unifyPieces (m.remembers cr) xs
  | .text s, cr, xs => by
    simpa [pieces, unified, remembers] using unifyPieces_some cr s.toList xs
  | .element name attrs ms, cr, xs => by
    obtain ⟨cr', hms⟩ := unifyPieces_piecesAll ms false (none :: xs)
    simpa [pieces, unified, remembers, unifyPieces] using hms

theorem unifyPieces_piecesAll : ∀ (ms : List Markup) (cr : Bool) (xs : List (Option Char)),
    ∃ cr', unifyPieces cr (piecesAll ms ++ xs) =
      (contents (unifiedAll cr ms)).toList ++ unifyPieces cr' xs
  | [], cr, xs => ⟨cr, by simp [piecesAll, unifiedAll]⟩
  | m :: ms, cr, xs => by
    obtain ⟨cr', hms⟩ := unifyPieces_piecesAll ms (m.remembers cr) xs
    refine ⟨cr', ?_⟩
    rw [piecesAll, List.append_assoc, unifyPieces_pieces m cr, hms, unifiedAll, contents_cons]
    simp

end

/-- **The text of markup with its newlines unified**: that of the runs of character data,
    each unified on its own. -/
theorem content_unified (m : Markup) :
    (m.unified false).content = String.join (m.characterRuns.map Text.unifyNewlines) := by
  obtain ⟨r, rs, hruns, htext⟩ := unifyPieces_eq_runs false m.pieces
  have hpieces := unifyPieces_pieces m false []
  rw [List.append_nil, unifyPieces, List.append_nil, htext, Text.unifyFrom_false] at hpieces
  refine String.toList_inj.1 ?_
  rw [← hpieces, characterRuns, hruns]
  simp [Text.unifyNewlines, List.flatMap_def, Function.comp_def]

/-- The runs put together are the whole text. -/
theorem flatten_runs (xs : List (Option Char)) : (runs xs).flatten = xs.reduceOption := by
  induction xs with
  | nil => rfl
  | cons x xs ih =>
    cases x with
    | none => simpa [runs] using ih
    | some c =>
      obtain ⟨r, rs, hruns, -⟩ := unifyPieces_eq_runs false xs
      rw [hruns] at ih
      simpa [runs, hruns] using ih

mutual

theorem reduceOption_pieces : ∀ m : Markup, m.pieces.reduceOption = m.content.toList
  | .text s => by simp [pieces, List.reduceOption, List.filterMap_map]
  | .element name attrs ms => by
    simpa [pieces, List.reduceOption_append] using reduceOption_piecesAll ms

theorem reduceOption_piecesAll : ∀ ms : List Markup,
    (piecesAll ms).reduceOption = (contents ms).toList
  | [] => rfl
  | m :: ms => by
    simp [piecesAll, List.reduceOption_append, reduceOption_pieces m, reduceOption_piecesAll ms]

end

/-- The runs put together are the text. -/
theorem join_characterRuns (m : Markup) : String.join m.characterRuns = m.content := by
  refine String.toList_inj.1 ?_
  rw [← reduceOption_pieces, ← flatten_runs, characterRuns]
  simp [List.flatMap_def, Function.comp_def]

/-- Without carriage returns nothing changes. -/
theorem join_characterRuns_unified {m : Markup} (h : '\r' ∉ m.content.toList) :
    String.join (m.characterRuns.map Text.unifyNewlines) = m.content := by
  rw [← join_characterRuns m]
  congr 1
  refine (List.map_congr_left fun s hs => ?_).trans (List.map_id _)
  have hr : '\r' ∉ s.toList := fun hmem => h (by
    rw [← join_characterRuns m]
    simpa using ⟨s, hs, hmem⟩)
  rw [Text.unifyNewlines, ← Text.unifyFrom_false, Text.unifyFrom_false_eq_self hr,
    String.ofList_toList, id]

end Markup

end SourceScribe
