/-
  There and back: the markup of a module, read as a document, is its source.

  The conversion spells the tokens (`run_conserves`), tokens that are faithful to a source
  spell the source (`Token.spelled_of_isFaithful`), and reading undoes writing
  (`Markup.characterData_proper`).
-/
import SourceScribe.Conversion.Source
import SourceScribe.Proofs.Conversion.Conservation
import SourceScribe.Proofs.Markup.Document

namespace SourceScribe.Conversion

open Markup Scan

variable {lines : List String} {tree : Tree} {tokens : List Token} {m : Markup} {c c' : Cursor}

/-! ## What a conversion gives -/

/-- What a conversion gives is one element. -/
theorem run_element (h : run lines tree tokens = .ok (m, c)) :
    ∃ ms, m = element "Module" [] ms := by
  obtain ⟨c₀, -, hroot⟩ := run_ok h
  obtain ⟨_, _, _, _, -, hwhole⟩ := rootRule_ok hroot
  simp only [wholeModule, bind_ok, pure_ok] at hwhole
  obtain ⟨_, _, -, _, _, -, rfl, -⟩ := hwhole
  exact ⟨_, rfl⟩

/-- The text of the markup is the source, if all tokens but the last are taken. -/
theorem content_of_isFaithful {s : String} {e : Token} (hm : tree.isModule Tree.operated = true)
    (ht : Token.isFaithful s tokens = true) (h : run lines tree tokens = .ok (m, c))
    (hp : c.isPlain = true) (hrest : c.rest = [e]) : m.Proper ∧ m.content = s := by
  obtain ⟨hproper, t₀, taken, next, rest, htokens, hnext, htext⟩ := run_conserves hm h hp
  obtain ⟨rfl, rfl⟩ : e = next ∧ [] = rest := List.cons.inj (hrest.symm.trans hnext)
  rw [htokens] at ht
  exact ⟨hproper, htext.trans (Token.spelled_of_isFaithful ht)⟩

/-! ## There and back -/

/-- **The markup of a module, read as a document, is the source.**  The tree is well
    sorted and the tokens are faithful to the source, the run takes all of them but the
    end marker, keeps no parenthesis aside and writes no other text in place of a
    token's; the source has only characters of XML, and no carriage return. -/
theorem characterData_restores_source {s : String} {origin : Origin} {e : Token}
    (hm : tree.isModule Tree.operated = true) (ht : Token.isFaithful s tokens = true)
    (h : run (origin.lines s) tree tokens = .ok (m, c)) (hrest : c.rest = [e])
    (hdeferred : Remark.deferred ∉ c.remarks)
    (hreplaced : ∀ found written, Remark.replaced found written ∈ c.remarks → found = written)
    (hs : ∀ ch ∈ s.toList, isXmlChar ch = true ∧ ch ≠ '\r') :
    (∀ version edition, Language.Edition.ofVersion version = .ok edition →
      convertSource version origin ⟨s, tree, tokens⟩ = .ok m) ∧
    characterData .text m.render = .ok s := by
  refine ⟨fun version edition hv => ?_, ?_⟩
  · simp only [convertSource, hv, convert, h]
    rfl
  obtain ⟨hproper, htext⟩ :=
    content_of_isFaithful hm ht h (Cursor.isPlain_iff.2 ⟨hdeferred, hreplaced⟩) hrest
  obtain ⟨ms, rfl⟩ := run_element h
  rw [content_element] at htext
  subst htext
  exact characterData_proper hproper hs

theorem xmlChars_of_all {s : String}
    (h : (s.toList.all fun ch => isXmlChar ch && ch != '\r') = true) :
    ∀ ch ∈ s.toList, isXmlChar ch = true ∧ ch ≠ '\r' := by
  intro ch hch
  have hboth := List.all_eq_true.1 h ch hch
  rwa [Bool.and_eq_true, bne_iff_ne] at hboth

/-- The source of `sampleTree`. -/
def sampleSource : String :=
  "def f( a, *b ) :\n  return a  + 1 # c\n"

/-- A function definition with blanks and a comment comes back. -/
theorem sample_characterData_restores_source :
    sampleTree.isModule Tree.operated = true ∧ Token.isFaithful sampleSource sampleTokens = true ∧
    (∀ ch ∈ sampleSource.toList, isXmlChar ch = true ∧ ch ≠ '\r') ∧
    ∃ m c e, run (Origin.memory.lines sampleSource) sampleTree sampleTokens = .ok (m, c) ∧
      c.rest = [e] ∧ Remark.deferred ∉ c.remarks ∧
      (∀ found written, Remark.replaced found written ∈ c.remarks → found = written) ∧
      convertSource ["3", "4"] .memory ⟨sampleSource, sampleTree, sampleTokens⟩ = .ok m ∧
      characterData .text m.render = .ok sampleSource := by
  have hm : sampleTree.isModule Tree.operated = true := by decide
  have ht : Token.isFaithful sampleSource sampleTokens = true := by decide +kernel
  have hs : ∀ ch ∈ sampleSource.toList, isXmlChar ch = true ∧ ch ≠ '\r' :=
    xmlChars_of_all (by decide)
  obtain ⟨m, c, h, hp⟩ := exists_run (Origin.memory.lines sampleSource) sampleTree sampleTokens
    (fun _ c => c.isPlain && c.rest = [Token.onRow 3 "" 0 .endMarker ""]) (by decide +kernel)
  rw [Bool.and_eq_true, decide_eq_true_eq] at hp
  obtain ⟨hdeferred, hreplaced⟩ := Cursor.isPlain_iff.1 hp.1
  obtain ⟨hconvert, hback⟩ :=
    characterData_restores_source hm ht h hp.2 hdeferred hreplaced hs
  exact ⟨hm, ht, hs, m, c, _, h, hp.2, hdeferred, hreplaced, hconvert _ _ rfl, hback⟩

/-- After an operation with no operand, the source comes back with a gap that is twice
    there. -/
theorem not_characterData_restores_source_of_emptyOperation : ¬ ∀ (s : String) (origin : Origin)
    (tree : Tree) (tokens : List Token) (m : Markup) (c : Cursor) (e : Token),
      tree.isModule Tree.valued = true → Token.isFaithful s tokens = true →
      run (origin.lines s) tree tokens = .ok (m, c) → c.rest = [e] →
      Remark.deferred ∉ c.remarks →
      (∀ found written, Remark.replaced found written ∈ c.remarks → found = written) →
      (∀ ch ∈ s.toList, isXmlChar ch = true ∧ ch ≠ '\r') →
      characterData .text m.render = .ok s := by
  intro hall
  obtain ⟨m, c, h, hp⟩ := exists_run (Origin.memory.lines "  pass\n") emptyOperation passTokens
    (fun m c => c.remarks = [] && c.rest = [Token.onRow 2 "" 0 .endMarker ""] &&
      characterData .text m.render = .ok "    pass\n")
    (by decide +kernel)
  simp only [Bool.and_eq_true, decide_eq_true_eq] at hp
  obtain ⟨⟨hremarks, hrest⟩, hdata⟩ := hp
  have hback := hall _ _ _ _ m c _ (by decide) (by decide +kernel) h hrest (by simp [hremarks])
    (by simp [hremarks]) (xmlChars_of_all (by decide))
  rw [hdata] at hback
  exact absurd hback (by decide)

end SourceScribe.Conversion
