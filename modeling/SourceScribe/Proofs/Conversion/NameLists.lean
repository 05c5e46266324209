/-
  The text of statements that are lists of names.

  A deletion, a declaration or an import writes every token it takes, and what stands
  before it, in order.  It differs from other statements in its gaps:

  * the gap after its last token is written, and the next statement writes it again;
  * the gaps inside a dotted name are left out, as are those between the dots and the
    module of a relative import;
  * if nothing stands between `from` and `import`, the gap between them is there twice.

  `nameListLayout` says so for each class, and `nameList_lays` that this is what is
  written, whatever the tokens are.
-/
import SourceScribe.Proofs.Conversion.Layout

namespace SourceScribe.Conversion

open Scan Markup Layout
open scoped Computability

/-! ## Layouts -/

/-- A keyword. -/
abbrev keyword (s : String) : Lead → Layout :=
  word (·.text = s)

/-- A dotted name.  Only its first token has a lead. -/
def dottedLayout (l : Lead) : Layout :=
  word (fun _ => true) l * (word (·.isOp .dot) .omitted * word (fun _ => true) .omitted)∗

/-- The dots of a relative import.  Only the first one has a lead. -/
def dotsLayout (l : Lead) : Layout :=
  word (·.isOp .dot) l * (word (·.isOp .dot) .omitted)∗

/-- A name that is deleted, or such a name between parentheses. -/
def targetLayout : Layout :=
  nameWord .once +
    group (·.isOp .lpar) .once * nameWord .once * group (·.isOp .rpar) .once

/-- An imported name, and the name it gets. -/
def aliasLayout : Tree → Layout
  | .node _ _ fields =>
    dottedLayout .once *
      (if (fields.lookup "asname").any Tree.isThere
        then keyword "as" .once * nameWord .once else 1)
  | _ => 0

/-- What stands between `from` and `import`, and the latter. -/
def originLayout : Layout :=
  (dotsLayout .once * (1 + dottedLayout .omitted) + dottedLayout .once) * keyword "import" .once +
    keyword "import" .twice

/-- Items with the commas after them. -/
def listLayout (F : Tree → Layout) (items : List Tree) : Layout :=
  (items.map fun t => F t * commas).prod

/-- How the statement of a class is laid out, without what stands before it. -/
def nameListLayout (fields : List (String × Tree)) : String → Layout
  | "Delete" => keyword "del" .once * listLayout (fun _ => targetLayout) (itemsOf fields "targets")
  | "Global" | "Nonlocal" =>
    nameWord .once *
      listLayout (fun _ => nameWord .once) (itemsOf fields "names")
  | "Import" => keyword "import" .once * listLayout aliasLayout (itemsOf fields "names")
  | "ImportFrom" =>
    let names := listLayout aliasLayout (itemsOf fields "names")
    keyword "from" .once * originLayout *
      (names + group (·.isOp .lpar) .once * names * group (fun _ => true) .once)
  | _ => 0

/-! ## Dotted names -/

variable {Q : Cursor → Cursor → Prop} {c c' c₁ : Cursor} {s : String} {e : Markup}
variable {ms : List Markup} {lines : List String} {path : Path} {ref : NodeRef}
variable {fields : List (String × Tree)}

theorem dot_laid (K : Regular Q) {t : Token} (ht : take c = .ok t c')
    (hdot : t.isOp .dot = true) (l : Lead) :
    Laid Q (word (·.isOp .dot) l) c l "." c' .omitted :=
  ((Laid.account K).take ht hdot trivial).congr (Token.text_of_isOp hdot (by decide))

theorem dottedFrom_laid (K : Regular Q) : ∀ (ts : List Token) {c c' : Cursor} {s : String},
    c.rest = ts → dottedFrom ts c = .ok s c' →
      Laid Q (word (·.isOp .dot) .omitted * word (fun _ => true) .omitted)∗ c .omitted s c' .omitted
  | [], c, c', s, _, h => (fail_ok.1 h).elim
  | [t], c, c', s, hr, h => by
    rw [dottedFrom] at h
    split at h
    · simp only [bind_ok] at h
      obtain ⟨_, _, ht, _, _, hu, -⟩ := h
      obtain ⟨us, hus, -⟩ := take_ok.1 hu
      rw [(take_cons hr ht).2] at hus
      cases hus
    · obtain ⟨rfl, rfl⟩ := pure_ok.1 h
      exact (Laid.refl c .omitted).mono one_le_kstar
  | t :: u :: ts, c, c', s, hr, h => by
    rw [dottedFrom] at h
    split at h
    · rename_i hdot
      simp only [bind_ok, pure_ok] at h
      obtain ⟨_, c₁, ht, _, c₂, hu, more, _, hmore, rfl, rfl⟩ := h
      obtain ⟨rfl, hr₁⟩ := take_cons hr ht
      obtain ⟨rfl, hr₂⟩ := take_cons hr₁ hu
      have hpair := Laid.trans K (dot_laid K ht hdot .omitted)
        ((Laid.account K).take (p := fun _ => true) hu rfl trivial)
      exact (Laid.trans K hpair (dottedFrom_laid K ts hr₂ hmore)).mono mul_kstar_le_kstar
    · obtain ⟨rfl, rfl⟩ := pure_ok.1 h
      exact (Laid.refl c .omitted).mono one_le_kstar

theorem dottedName_laid (K : Regular Q) (h : dottedName c = .ok s c') (l : Lead) :
    Laid Q (dottedLayout l) c l s c' .omitted := by
  simp only [dottedName, bind_ok, pure_ok, get_ok] at h
  obtain ⟨t, c₁, ht, _, _, ⟨rfl, rfl⟩, more, _, hmore, rfl, rfl⟩ := h
  exact Laid.trans K ((Laid.account K).take ht rfl trivial) (dottedFrom_laid K _ rfl hmore)

theorem dotsFrom_laid (K : Regular Q) {ts : List Token} (hr : c.rest = ts)
    (h : dotsFrom ts c = .ok s c') :
    Laid Q (word (·.isOp .dot) .omitted)∗ c .omitted s c' .omitted := by
  induction ts generalizing c s with
  | nil => exact (fail_ok.1 h).elim
  | cons t ts ih =>
    rw [dotsFrom] at h
    split at h
    · rename_i hdot
      simp only [bind_ok, pure_ok] at h
      obtain ⟨_, c₁, ht, more, _, hmore, rfl, rfl⟩ := h
      obtain ⟨rfl, hr₁⟩ := take_cons hr ht
      exact (Laid.trans K (dot_laid K ht hdot .omitted) (ih hr₁ hmore)).mono mul_kstar_le_kstar
    · obtain ⟨rfl, rfl⟩ := pure_ok.1 h
      exact (Laid.refl c .omitted).mono one_le_kstar

/-- Either there is no dot, or the first one has the lead that is written already. -/
theorem dots_laid (K : Regular Q) (h : dots c = .ok s c') (l : Lead) :
    (s = "" ∧ c = c') ∨ Laid Q (dotsLayout l) c l s c' .omitted := by
  simp only [dots, bind_ok, get_ok] at h
  obtain ⟨_, _, ⟨rfl, rfl⟩, h⟩ := h
  cases hr : c.rest with
  | nil =>
    rw [hr] at h
    exact (fail_ok.1 h).elim
  | cons t ts =>
    rw [hr, dotsFrom] at h
    split at h
    · rename_i hdot
      simp only [bind_ok, pure_ok] at h
      obtain ⟨_, c₁, ht, more, _, hmore, rfl, rfl⟩ := h
      obtain ⟨rfl, hr₁⟩ := take_cons hr ht
      exact Or.inr (Laid.trans K (dot_laid K ht hdot l) (dotsFrom_laid K hr₁ hmore))
    · exact Or.inl ((pure_ok.1 h).imp Eq.symm id)

theorem moduleName_laid (K : Regular Q) (h : moduleName c = .ok s c') (l : Lead) :
    (s = "" ∧ c = c') ∨ Laid Q (dottedLayout l) c l s c' .omitted := by
  simp only [moduleName, bind_ok, peek_ok] at h
  obtain ⟨next, _, ⟨-, rfl⟩, h⟩ := h
  split at h
  · exact Or.inr (dottedName_laid K h l)
  · exact Or.inl ((pure_ok.1 h).imp Eq.symm id)

/-- What stands between `from` and `import`, and the latter with the gaps around it. -/
theorem origin_laid (K : Regular Q) {c₂ c₃ c₄ : Cursor} {up name between : String} {t : Token}
    (hup : dots c = .ok up c₁) (hname : moduleName c₁ = .ok name c₂)
    (ht : expect (·.text = "import") c₂ = .ok t c₃) (hb : withGaps c₃ = .ok between c₄) :
    Laid Q originLayout c .once (up ++ name ++ between) c₄ .once := by
  have himport := fun n => (Laid.account K).expectWithGaps (n := n) ht hb trivial
  rcases dots_laid K hup .once with ⟨rfl, rfl⟩ | hdots
  · rcases moduleName_laid K hname .once with ⟨rfl, rfl⟩ | hname
    · exact ((himport 1).congr (by simp)).mono (le_add_of_nonneg_left bot_le)
    · refine ((Laid.trans K hname (himport 0)).congr (by simp)).mono ?_
      refine le_trans (mul_le_mul_left ?_ _) (le_add_of_nonneg_right bot_le)
      exact le_add_of_nonneg_left bot_le
  · have hmodule : Laid Q (1 + dottedLayout .omitted) c₁ .omitted name c₂ .omitted := by
      rcases moduleName_laid K hname .omitted with ⟨rfl, rfl⟩ | hname
      · exact (Laid.refl c₁ .omitted).mono (le_add_of_nonneg_right bot_le)
      · exact hname.mono (le_add_of_nonneg_left bot_le)
    refine (Laid.trans K (Laid.trans K hdots hmodule) (himport 0)).mono ?_
    refine le_trans (mul_le_mul_left ?_ _) (le_add_of_nonneg_right bot_le)
    exact le_add_of_nonneg_right bot_le

/-! ## Declarations and imports -/

/-- The items of a field that are laid out each by itself. -/
theorem names_laid (K : Regular Q) {f : Part → Scan (List Markup)} {F : Tree → Layout} {l : Lead}
    {name : String} {ps : List Part} {c₀ : Cursor} (hletter : ∀ c r c', f .letter c ≠ .ok r c')
    (hf : ∀ t ∈ itemsOf fields name, ∀ path c ms c', f (toPart lines path t) c = .ok ms c' →
      Laid Q (F t) c l (contents ms) c' l)
    (hps : (⟨ref, toFields lines path fields⟩ : Site).fieldItems name c₀ = .ok ps c₀)
    (h : forEach f ps c = .ok ms c') :
    Laid Q ((itemsOf fields name).map F).prod c l (contents ms) c' l := by
  rw [forEach_eq_addEach] at h
  refine (fieldItems_laid K (fun before c r c' hr => ?_) (fun t ht path => ?_) hps).alone h
  · obtain ⟨_, _, hx, -⟩ := bind_ok.1 hr
    exact hletter _ _ _ hx
  · exact .of_scan (hf t ht path)

theorem not_letter_declaredName (c : Cursor) (r : List Markup) (c' : Cursor) :
    declaredName .letter c ≠ .ok r c' := by
  intro h
  simp only [declaredName, bind_ok] at h
  obtain ⟨_, _, -, _, _, hvalue, -⟩ := h
  exact fail_ok.1 hvalue

theorem not_letter_importedName (c : Cursor) (r : List Markup) (c' : Cursor) :
    importedName .letter c ≠ .ok r c' := by
  intro h
  simp only [importedName, bind_ok] at h
  obtain ⟨_, _, -, _, _, hfield, -⟩ := h
  exact fail_ok.1 hfield

theorem declaredName_laid (K : Regular Q) {p : Part} (h : declaredName p c = .ok ms c') :
    Laid Q (nameWord .once * commas) c .once (contents ms) c' .once := by
  simp only [declaredName, bind_ok, pure_ok, inPlaceOf_ok] at h
  obtain ⟨t, c₁, ht, value, c₂, hvalue, inside, c₃, hin, _, _, rfl, comma, c₄, hcomma, rfl, rfl⟩ := h
  obtain rfl : c₁ = c₂ := by
    cases p with
    | leaf | list => exact (pure_ok.1 hvalue).2
    | letter | node => exact (fail_ok.1 hvalue).elim
  obtain ⟨-, -, rfl⟩ := Part.caption_ok hin
  have hname : Laid Q (nameWord .once) c .once (contents inside) _ .omitted :=
    ((Laid.account K).expect ht trivial).replaced K
  exact (Laid.trans K hname ((Laid.account K).delimiter hcomma)).congr (by simp)

theorem declareRule_laid (K : Regular Q)
    (h : declareRule ⟨ref, toFields lines path fields⟩ c = .ok e c') :
    Laid Q (nameWord .once *
        listLayout (fun _ => nameWord .once) (itemsOf fields "names"))
      c .once e.content c' .once := by
  simp only [declareRule, bind_ok, pure_ok] at h
  obtain ⟨t, c₁, ht, after, c₂, hafter, ps, c₃, hps, names, c₄, hnames, rfl, rfl⟩ := h
  obtain ⟨-, rfl⟩ := Site.fieldItems_ok.1 hps
  have hword := (Laid.account K).followed ((Laid.account K).expect (l := .once) ht trivial)
    ((Laid.account K).gapAfter hafter trivial)
  have hlist := names_laid K not_letter_declaredName
    (F := fun _ => nameWord .once * commas)
    (fun _ _ _ _ _ _ h => declaredName_laid K h) hps hnames
  exact (Laid.trans K hword hlist).congr (by simp)

/-- The name that an imported name gets. -/
theorem asname_laid (K : Regular Q) {asname : Part}
    (h : (do
      let _ ← expect (·.text = "as")
      let between ← withGaps
      let t ← expect (·.kind = .name)
      let inside ← asname.caption
      inPlaceOf t.text (contents inside)
      return [text between, element "asname" [] inside] : Scan (List Markup)) c = .ok ms c') :
    Laid Q (keyword "as" .once * nameWord .once) c .omitted (contents ms) c'
      .omitted := by
  simp only [bind_ok, pure_ok, inPlaceOf_ok] at h
  obtain ⟨_, c₁, ht, between, c₂, hb, u, c₃, hu, inside, c₄, hin, _, _, rfl, rfl, rfl⟩ := h
  obtain ⟨-, -, rfl⟩ := Part.caption_ok hin
  have hname : Laid Q (nameWord .once) c₂ .once (contents inside) _ .omitted :=
    ((Laid.account K).expect hu trivial).replaced K
  have has := (Laid.account K).expectWithGaps (n := 0) ht hb trivial
  exact (Laid.trans K has hname).congr (by simp)

theorem importedName_laid (K : Regular Q) {t : Tree}
    (h : importedName (toPart lines path t) c = .ok ms c') :
    Laid Q (aliasLayout t * commas) c .once (contents ms) c' .once := by
  cases t with
  | leaf v | list items =>
    rw [toPart] at h
    simp only [importedName, bind_ok] at h
    obtain ⟨_, _, -, _, _, hfield, -⟩ := h
    exact (fail_ok.1 hfield).elim
  | node cls places fields =>
    rw [toPart] at h
    simp only [importedName, bind_ok, pure_ok, inPlaceOf_ok, Part.field_ok, orFail_ok] at h
    obtain ⟨dotted, c₁, hdotted, p, _, ⟨-, rfl⟩, name, c₂, hname, _, _, rfl, asname, _, ⟨hlookup, rfl⟩,
      asPart, c₃, has, comma, c₄, hcomma, rfl, rfl⟩ := h
    obtain ⟨-, -, rfl⟩ := Part.caption_ok hname
    rw [lookup_toFields, Option.map_eq_some_iff] at hlookup
    obtain ⟨t, ht, rfl⟩ := hlookup
    rw [isPresent_toPart] at has
    have hfirst : Laid Q (dottedLayout .once) c .once (contents name) _ .omitted :=
      (dottedName_laid K hdotted .once).replaced K
    have hsecond := onlyIf_laid (fun _ ms c' hm => asname_laid K hm) has
    have hall := Laid.trans K (Laid.trans K hfirst hsecond) ((Laid.account K).delimiter hcomma)
    rw [aliasLayout, ht, Option.any_some]
    exact hall.congr (by simp [String.append_assoc])

theorem importedNames_laid (K : Regular Q) {ps : List Part} {c₀ : Cursor}
    (hps : (⟨ref, toFields lines path fields⟩ : Site).fieldItems "names" c₀ = .ok ps c₀)
    (h : forEach importedName ps c = .ok ms c') :
    Laid Q (listLayout aliasLayout (itemsOf fields "names")) c .once (contents ms) c' .once :=
  names_laid K not_letter_importedName (fun _ _ _ _ _ _ h => importedName_laid K h) hps h

theorem importRule_laid (K : Regular Q)
    (h : importRule ⟨ref, toFields lines path fields⟩ c = .ok e c') :
    Laid Q (keyword "import" .once * listLayout aliasLayout (itemsOf fields "names")) c .once
      e.content c' .once := by
  simp only [importRule, bind_ok, pure_ok] at h
  obtain ⟨t, c₁, ht, after, c₂, hafter, ps, c₃, hps, names, c₄, hnames, rfl, rfl⟩ := h
  obtain ⟨-, rfl⟩ := Site.fieldItems_ok.1 hps
  have hword := Laid.textAndGap K ht hafter .once
  exact (Laid.trans K hword (importedNames_laid K hps hnames)).congr (by simp)

theorem importFromRule_laid (K : Regular Q)
    (h : importFromRule ⟨ref, toFields lines path fields⟩ c = .ok e c') :
    Laid Q (nameListLayout fields "ImportFrom") c .once e.content c' .once := by
  simp only [importFromRule, bind_ok, pure_ok, Site.field_ok, peek_ok] at h
  obtain ⟨level, _, ⟨-, rfl⟩, t, c₁, ht, after, c₂, hafter, up, c₃, hup, name, c₄, hname, u, c₅, hu,
    between, c₆, hbetween, paren, _, ⟨hparen, rfl⟩, h⟩ := h
  obtain ⟨left, c₇, hleft, ps, c₈, hps, names, c₉, hnames, right, c₁₀, hright, rfl, rfl⟩ := h
  obtain ⟨-, rfl⟩ := Site.fieldItems_ok.1 hps
  have hfrom := Laid.textAndGap K ht hafter .once
  have horigin := Laid.trans K hfrom (origin_laid K hup hname hu hbetween)
  have hlist := importedNames_laid K hps hnames
  have hnames : Laid Q (listLayout aliasLayout (itemsOf fields "names") +
      group (·.isOp .lpar) .once * listLayout aliasLayout (itemsOf fields "names") *
        group (fun _ => true) .once) c₆ .once
      (contents left ++ contents names ++ contents right) c₁₀ .once := by
    cases hlpar : paren.isOp .lpar with
    | false =>
      rw [hlpar] at hleft hright
      obtain ⟨rfl, rfl⟩ := pure_ok.1 hleft
      obtain ⟨rfl, rfl⟩ := pure_ok.1 hright
      exact (hlist.congr (by simp)).mono (le_add_of_nonneg_right bot_le)
    | true =>
      rw [hlpar] at hleft hright
      simp only [onlyIf, if_true, bind_ok, pure_ok] at hleft hright
      obtain ⟨opening, _, hopening, rfl, rfl⟩ := hleft
      obtain ⟨closing, _, hclosing, rfl, rfl⟩ := hright
      have hpar := Laid.trans K (Laid.trans K (Laid.enclosedOp K hparen hlpar hopening 1) hlist)
        ((Laid.account K).enclosed (n := 1) (fun _ _ => rfl) hclosing trivial)
      exact (hpar.congr (by simp)).mono (le_add_of_nonneg_left bot_le)
  exact (Laid.trans K horigin hnames).congr (by simp [String.append_assoc])

/-! ## Deletions -/

/-- Whether the next token that is no line break or comment is followed by a closing
    parenthesis. -/
def closesAfterName (ts : List Token) : Bool :=
  match ts.dropWhile Token.isFiller with
  | [] => false
  | _ :: us => (us.dropWhile Token.isFiller).head?.any (·.isOp .rpar)

/-- Every opening parenthesis that the run takes encloses one token. -/
def Encloses (c c' : Cursor) : Prop :=
  ∀ t after, t :: after <:+ c.rest → c'.rest.length ≤ after.length → t.isOp .lpar = true →
    closesAfterName after = true

/-- Whether a remark tells of no other text in place of a token's. -/
def Remark.agrees : Remark → Bool
  | .deferred => true
  | .replaced found written => found = written
  | .idle _ => true

/-- The run writes the names of its tokens, and its parentheses enclose names. -/
structure NameRun (c c' : Cursor) : Prop where
  nothing : c.deferred = []
  agrees : Remarking Remark.agrees c c'
  encloses : Encloses c c'

theorem regular_agrees : Regular (Remarking Remark.agrees) where
  first h h₁ hq := (Remarking.parts h h₁ hq).1
  last h h₁ _ hq := (Remarking.parts h h₁ hq).2
  agrees h hq := by simpa [Remark.agrees] using Remarking.cons h hq

theorem regular_nameRun : Regular NameRun where
  first h h₁ hq := by
    refine ⟨hq.nothing, regular_agrees.first h h₁ hq.agrees, fun t after hsuffix hlen => ?_⟩
    exact hq.encloses t after hsuffix (h₁.rest.length_le.trans hlen)
  last h h₁ hd hq := by
    refine ⟨hd.trans hq.nothing, regular_agrees.last h h₁ hd hq.agrees, fun t after hsuffix => ?_⟩
    exact hq.encloses t after (hsuffix.trans h.rest)
  agrees h hq := regular_agrees.agrees h hq.agrees

theorem enclosedFrom_rest {want : Option ExactKind} {before : Bool} {ts : List Token}
    {r : String × Bool} (hr : c.rest = ts)
    (h : enclosedFrom want true before ts c = .ok r c') :
    c'.rest = ts.dropWhile Token.isFiller := by
  induction ts generalizing c c' r before with
  | nil => rw [enclosedFrom] at h; exact (fail_ok.1 h).elim
  | cons t ts ih =>
    rw [enclosedFrom] at h
    split at h
    · rename_i hfiller
      simp only [bind_ok, pure_ok] at h
      obtain ⟨_, c₁, ht, left, c₂, hl, ⟨more, taken⟩, c₃, hmore, -, rfl⟩ := h
      obtain rfl := gapBeforeIf_ok hl
      rw [ih (take_cons hr ht).2 hmore, List.dropWhile_cons_of_pos hfiller]
    · rename_i hfiller
      obtain ⟨-, rfl⟩ := pure_ok.1 h
      rw [hr, List.dropWhile_cons_of_neg hfiller]

/-- A token that is taken with what stands around it leaves no line break or comment
    behind. -/
theorem enclosed_rest {before after : Bool} {t : Token} {ts : List Token} (hr : c.rest = t :: ts)
    (ht : t.isFiller = false) (h : enclosed before after c = .ok s c') :
    c'.rest = ts.dropWhile Token.isFiller := by
  simp only [enclosed, enclosedOf, bind_ok, get_ok] at h
  obtain ⟨_, _, ⟨rfl, rfl⟩, r, c₁, h, hs⟩ := h
  rw [hr, enclosedFrom, if_neg (by simp [ht])] at h
  simp only [Bool.false_eq_true, if_false, Option.filter_none, Option.any_none, bind_ok,
    pure_ok] at h
  obtain ⟨_, c₂, htake, left, c₃, hl, ⟨more, taken⟩, c₄, hmore, rfl, rfl⟩ := h
  obtain rfl := gapBeforeIf_ok hl
  have hrest := enclosedFrom_rest (take_cons hr htake).2 hmore
  split at hs
  · simp only [bind_ok, pure_ok, gapAfter_ok] at hs
    obtain ⟨_, _, ⟨-, rfl⟩, -, rfl⟩ := hs
    exact hrest
  · obtain ⟨-, rfl⟩ := pure_ok.1 hs
    exact hrest

/-- A parenthesis that an expression took itself closes after it. -/
theorem closesHere_own {r : NodeRef} {start : Except Cause Position} {d : Deferred}
    {ds : List Deferred} {d? : Option Deferred} (hd : c.deferred = d :: ds)
    (howner : d.owner = r.path)
    (hnext : (c.rest.dropWhile Token.isFiller).head?.any (·.isOp .rpar) = true)
    (h : closesHere r start c = .ok d? c') : d? = some d ∧ { c with deferred := ds } = c' := by
  simp only [closesHere, bind_ok, get_ok, peekPastFiller_ok] at h
  obtain ⟨t, _, ⟨ht, rfl⟩, _, _, ⟨rfl, rfl⟩, h⟩ := h
  rw [ht, Option.any_some] at hnext
  simp only [hnext, hd] at h
  cases start with
  | error cause => exact (fail_ok.1 h).elim
  | ok p =>
    simp only [howner, or_true, if_true, bind_ok, pure_ok, set_ok] at h
    obtain ⟨_, _, rfl, rfl, rfl⟩ := h
    exact ⟨rfl, rfl⟩

theorem closesHere_goes {r : NodeRef} {start : Except Cause Position} {d? : Option Deferred}
    (h : closesHere r start c = .ok d? c') : Goes c c' := by
  rcases closesHere_ok h with ⟨-, rfl⟩ | ⟨d, ds, -, -, rfl⟩
  · exact Goes.refl c
  · exact ⟨List.suffix_rfl, List.suffix_rfl⟩

theorem nameRule_taken {n : Site} (h : nameRule n [] c = .ok ms c') :
    ∃ t ts, c.rest = t :: ts ∧ t.kind = .name ∧
      (c.after t ts).remark (.replaced t.text (contents ms)) = c' := by
  simp only [nameRule, bind_ok, pure_ok, Site.field_ok, inPlaceOf_ok, Site.fieldCls_ok,
    expectShown_ok, take_ok] at h
  obtain ⟨t, _, ⟨⟨ts, hr, rfl⟩, hk⟩, id, _, ⟨-, rfl⟩, inside, c₂, hin, _, _, rfl, ctx, _, ⟨-, rfl⟩, rfl,
    rfl⟩ := h
  obtain ⟨-, -, rfl⟩ := Part.caption_ok hin
  exact ⟨t, ts, hr, by simpa using hk, by simp⟩

section Target
variable {r : NodeRef} {start : Except Cause Position} {n : Site}

/-- A name before which no parenthesis is taken. -/
theorem bareName_lays {c₂ c₃ : Cursor} {d? : Option Deferred}
    (he : nameRule n [] c = .ok ms c₂) (hclose : closesHere r start c₂ = .ok d? c₃)
    (hq : NameRun c c₂) :
    d? = none ∧ c₂ = c₃ ∧ c₂.deferred = c.deferred ∧
      ∃ m ∈ nameWord .once, Lays c .once (contents ms) c₂ .omitted m := by
  obtain ⟨hd, m, hm, hlays⟩ := (nameRule_laid regular_nameRun he .once).lays hq
  rcases closesHere_ok hclose with ⟨rfl, rfl⟩ | ⟨d, ds, hds, -, -⟩
  · exact ⟨rfl, rfl, hd, m, hm, hlays⟩
  · simp [hd, hq.nothing] at hds

/-- A name whose opening parenthesis is taken: the one after it is its partner. -/
theorem enclosedName_lays {c₀ c₁ c₂ c₃ : Cursor} {par next : Token} {opening : String}
    {d? : Option Deferred} (hpar : c.rest.head? = some par) (hlpar : par.isOp .lpar = true)
    (hopening : enclosed false true c = .ok opening c₀)
    (hc₁ : { c₀.remark .deferred with
      deferred := ⟨opening, next.start, r.path⟩ :: c₀.deferred } = c₁)
    (he : nameRule n [] c₁ = .ok ms c₂) (hclose : closesHere r start c₂ = .ok d? c₃)
    (hgoes : Goes c₃ c') (hq : NameRun c c') :
    d? = some ⟨opening, next.start, r.path⟩ ∧ c₃.deferred = c.deferred ∧
      (c₃.rest.dropWhile Token.isFiller).head?.any (·.isOp .rpar) = true ∧
      ∃ m ∈ group (·.isOp .lpar) .once * nameWord .once,
        Lays c .once (opening ++ contents ms) c₃ .omitted m := by
  have K := regular_nameRun
  obtain ⟨after, hrest⟩ := List.head?_eq_some_iff.1 hpar
  have hafter : c₀.rest = after.dropWhile Token.isFiller :=
    enclosed_rest hrest (isFiller_of_isOp hlpar) hopening
  obtain ⟨t, ts, hr, hkind, hc₂⟩ := nameRule_taken he
  subst hc₁
  have hr₀ : c₀.rest = t :: ts := hr
  have hgoes₂ : Goes c₀ c₂ := by
    rw [← hc₂]
    exact ⟨(List.suffix_cons _ _).trans (List.suffix_cons _ _), hr₀ ▸ List.suffix_cons t ts⟩
  have hgoes₃ := (closesHere_goes hclose).trans hgoes
  have hclosed : closesAfterName after = true := by
    refine hq.encloses par after (hrest ▸ List.suffix_rfl) ?_ hlpar
    have hsuffix := hafter ▸ (hgoes₂.trans hgoes₃).rest
    exact (hsuffix.trans (List.dropWhile_suffix _)).length_le
  rw [closesAfterName, ← hafter, hr₀] at hclosed
  have hopen := tally_goes.enclosed hopening
  have hq₂ := K.first (hopen.trans hgoes₂) hgoes₃ hq
  subst hc₂
  obtain ⟨rfl, rfl⟩ := closesHere_own rfl rfl hclosed hclose
  have htext : t.text = contents ms :=
    K.agrees (hopen.trans ⟨List.suffix_cons _ _, hr₀ ▸ List.suffix_cons t ts⟩) hq₂
  obtain ⟨hd, m, hm, hlays⟩ :=
    (Laid.enclosedOp K hpar hlpar hopening 1).lays (K.first hopen (hgoes₂.trans hgoes₃) hq)
  have hname := Lays.token hr₀ .once
  refine ⟨rfl, hd, hclosed, m ++ [(.once, t)],
    Language.append_mem_mul hm (mem_word (by simpa using hkind)), ?_⟩
  rw [← htext]
  exact hlays.trans ⟨hname.rest, hname.recent, hname.text⟩

/-- A name that is deleted, with the parentheses around it. -/
theorem encloseName_laid :
    AddsLaid NameRun targetLayout .once .omitted (enclose r start (nameRule n)) := by
  have K := regular_nameRun
  have hone := Gives.addsOne (nameRule_gives n)
  have hrule := fun c ms c' (he : nameRule n [] c = .ok ms c') => (nameRule_laid K he .once).goes
  intro before c ms c' h
  obtain ⟨added, rfl, hadded⟩ := enclose_adds hone before c ms c' h
  refine ⟨added, rfl, enclose_goes hone hrule hadded, fun hq => ?_⟩
  simp only [enclose_eq hone, bind_ok, List.nil_append] at hadded
  obtain ⟨_, c₁, ho, name, c₂, he, d?, c₃, hclose, hend⟩ := hadded
  have hgoes : Goes c₃ c' := by
    cases d? with
    | none => exact (pure_ok.1 hend).2 ▸ Goes.refl _
    | some d =>
      obtain ⟨right, _, hr, hms⟩ := bind_ok.1 hend
      exact (pure_ok.1 hms).2 ▸ tally_goes.enclosed hr
  rcases openParenthesis_ok ho with rfl | ⟨par, opening, c₀, next, hpar, hlpar, hopening, -, hc₁⟩
  · have hq₂ := K.first (hrule _ _ _ he) ((closesHere_goes hclose).trans hgoes) hq
    obtain ⟨rfl, rfl, hd, m, hm, hlays⟩ := bareName_lays he hclose hq₂
    obtain ⟨rfl, rfl⟩ := pure_ok.1 hend
    exact ⟨hd, m, Or.inl hm, hlays⟩
  · obtain ⟨rfl, hd, hrpar, m, hm, hlays⟩ :=
      enclosedName_lays hpar hlpar hopening hc₁ he hclose hgoes hq
    simp only [bind_ok, pure_ok] at hend
    obtain ⟨closing, c₄, hr, rfl, rfl⟩ := hend
    have hright : Laid NameRun (group (·.isOp .rpar) .once) c₃ .omitted closing c₄ .omitted := by
      refine (Laid.account K).enclosed (n := 0) (fun t ht => ?_) hr trivial
      rwa [ht, Option.any_some] at hrpar
    have hgoes₃ : Goes c c₃ := ((openParenthesis_goes ho).trans (hrule _ _ _ he)).trans
      (closesHere_goes hclose)
    obtain ⟨hd', m', hm', hlays'⟩ := hright.lays (K.last hgoes₃ hgoes hd hq)
    exact ⟨hd'.trans hd, m ++ m', Or.inr (Language.append_mem_mul hm hm'),
      by simpa [String.append_assoc] using hlays.trans hlays'⟩

end Target

theorem deleteRule_laid
    (hnames : ∀ t ∈ itemsOf fields "targets", ∃ places fields, t = .node "Name" places fields)
    (h : deleteRule ⟨ref, toFields lines path fields⟩ c = .ok e c') :
    Laid NameRun (nameListLayout fields "Delete") c .once e.content c' .once := by
  have K := regular_nameRun
  simp only [deleteRule, bind_ok, pure_ok] at h
  obtain ⟨t, c₁, ht, after, c₂, hafter, ps, c₃, hps, targets, c₄, htargets, rfl, rfl⟩ := h
  obtain ⟨-, rfl⟩ := Site.fieldItems_ok.1 hps
  have hword := Laid.textAndGap K ht hafter .once
  have hlist : Laid NameRun (listLayout (fun _ => targetLayout) (itemsOf fields "targets")) c₂ .once
      (contents targets) c₄ .once := by
    refine (fieldItems_laid K not_letter_delimitedItem (fun t ht path => ?_) hps).alone htargets
    refine delimitedItem_laid K fun before c ms c' hw => ?_
    obtain ⟨places, fields, rfl⟩ := hnames t ht
    rw [toPart, Part.addTo] at hw
    exact encloseName_laid before c ms c' (within_ok.1 hw)
  exact (Laid.trans K hword hlist).congr (by simp)

/-! ## Statements -/

/-- The statements that are lists of names. -/
def nameLists : List String :=
  ["Delete", "Global", "Nonlocal", "Import", "ImportFrom"]

theorem afterGap_laid (K : Regular Q) {S : Layout} {rule : Scan Markup}
    (hrule : ∀ c e c', rule c = .ok e c' → Laid Q S c .once e.content c' .once)
    (h : afterGap rule [] c = .ok ms c') :
    Laid Q (many Token.isBetweenStatements * S) c .omitted (contents ms) c' .once := by
  simp only [afterGap, bind_ok, pure_ok] at h
  obtain ⟨before, c₁, hb, e, c₂, he, rfl, rfl⟩ := h
  have hbefore := (Laid.account K).betweenStatements hb
  exact (Laid.trans K hbefore (hrule _ _ _ he)).congr (by simp)

/-- The statement of a class other than deletions. -/
theorem nameList_laid {cls : String} {places : List Int} (hcls : cls ∈ nameLists)
    (hdelete : cls ≠ "Delete")
    (h : (toPart lines path (.node cls places fields)).write c = .ok ms c') :
    Laid (Remarking Remark.agrees) (many Token.isBetweenStatements * nameListLayout fields cls) c
      .omitted (contents ms) c' .once := by
  have K := regular_agrees
  rw [Part.write, toPart, Part.addTo] at h
  simp only [nameLists, List.mem_cons, List.not_mem_nil, or_false] at hcls
  rcases hcls with rfl | rfl | rfl | rfl | rfl
  · exact absurd rfl hdelete
  · exact afterGap_laid K (fun c e c' he => declareRule_laid K he) (within_ok.1 h)
  · exact afterGap_laid K (fun c e c' he => declareRule_laid K he) (within_ok.1 h)
  · exact afterGap_laid K (fun c e c' he => importRule_laid K he) (within_ok.1 h)
  · exact afterGap_laid K (fun c e c' he => importFromRule_laid K he) (within_ok.1 h)

/-- **What a statement that is a list of names writes**, whatever its tokens are: what
    stands before it and every token it takes, in order, with the gaps that
    `nameListLayout` gives them, and then the gap after the last one; if the names are
    those of the tokens.  A deletion is one of names, each at most between one pair of
    parentheses. -/
theorem nameList_lays {cls : String} {places : List Int} (hcls : cls ∈ nameLists)
    (hdelete : cls = "Delete" → c.deferred = [] ∧ Encloses c c' ∧
      ∀ t ∈ itemsOf fields "targets", ∃ places fields, t = .node "Name" places fields)
    (h : (toPart lines path (.node cls places fields)).write c = .ok ms c')
    (hp : Remarking Remark.agrees c c') :
    ∃ m ∈ many Token.isBetweenStatements * nameListLayout fields cls,
      c.rest = tokensOf m ++ c'.rest ∧ c'.recent = c.recent.pastAll (tokensOf m) ∧
      contents ms = spelledAs c.recent m ++ gapBetween c'.current c'.rest.head? := by
  have hlays : ∃ m ∈ many Token.isBetweenStatements * nameListLayout fields cls,
      Lays c .omitted (contents ms) c' .once m := by
    by_cases hcase : cls = "Delete"
    · obtain ⟨hd, henc, hnames⟩ := hdelete hcase
      subst hcase
      rw [Part.write, toPart, Part.addTo] at h
      exact ((afterGap_laid regular_nameRun (fun c e c' he => deleteRule_laid hnames he)
        (within_ok.1 h)).lays ⟨hd, hp, henc⟩).2
    · exact ((nameList_laid hcls hcase h).lays hp).2
  obtain ⟨m, hm, hlays⟩ := hlays
  refine ⟨m, hm, hlays.rest, hlays.recent, ?_⟩
  have htext := hlays.text
  rw [Cursor.pending_omitted, String.empty_append, Cursor.pending, Lead.text_once] at htext
  exact htext

/-- `from . . m . n import (a as b)`. -/
def relativeFields : List (String × Tree) :=
  [("module", .leaf (.str "m.n")),
    ("names", .list [.node "alias" [] [("name", .leaf (.str "a")), ("asname", .leaf (.str "b"))]]),
    ("level", .leaf (.int 2))]

/-- The cursor after `x`, before the tokens of `; from . . m . n import (a as b) ; c`. -/
def relativeCursor : Cursor :=
  let token := Token.onRow 1 "x; from . . m . n import (a as b) ; c\n"
  { rest := [token 1 .operator ";", token 3 .name "from", token 8 .operator ".",
      token 10 .operator ".", token 12 .name "m", token 14 .operator ".", token 16 .name "n",
      token 18 .name "import", token 25 .operator "(", token 26 .name "a", token 28 .name "as",
      token 31 .name "b", token 32 .operator ")", token 34 .operator ";", token 36 .name "c"]
    current := some (token 0 .name "x")
    previous := none
    deferred := []
    remarks := [] }

/-- `del (a), b`. -/
def deletedFields : List (String × Tree) :=
  let name (id : String) (column : Int) : Tree :=
    .node "Name" [1, column] [("id", .leaf (.str id)), ("ctx", .node "Del" [] [])]
  [("targets", .list [name "a" 8, name "b" 12])]

/-- The line on which it stands. -/
def deletionLine : String := "x; del (a), b ; c\n"

/-- The cursor after `x`, before the tokens of `; del (a), b ; c`. -/
def deletionCursor : Cursor :=
  let token := Token.onRow 1 deletionLine
  { rest := [token 1 .operator ";", token 3 .name "del", token 7 .operator "(", token 8 .name "a",
      token 9 .operator ")", token 10 .operator ",", token 12 .name "b", token 14 .operator ";",
      token 16 .name "c"]
    current := some (token 0 .name "x")
    previous := none
    deferred := []
    remarks := [] }

theorem encloses_of_tails {c c' : Cursor} (h : (c.rest.tails.all fun ts =>
    !ts.head?.any (·.isOp .lpar) || closesAfterName ts.tail) = true) : Encloses c c' := by
  intro t after hsuffix _ hopen
  have hhere := List.all_eq_true.1 h (t :: after) ((List.mem_tails _ _).2 hsuffix)
  simpa [hopen] using hhere

/-- The blanks between the dots and in the name of the module are gone, and those before the
    last semicolons are written.  The parentheses of the deletion are written with the name that
    they enclose. -/
theorem sample_nameList_lays :
    (∃ ms c', (toPart [] .root (.node "ImportFrom" [1, 3] relativeFields)).write relativeCursor
        = .ok ms c' ∧
      Remarking Remark.agrees relativeCursor c' ∧ contents ms = "; from ..m.n import (a as b) " ∧
      ∃ m ∈ many Token.isBetweenStatements * nameListLayout relativeFields "ImportFrom",
        relativeCursor.rest = tokensOf m ++ c'.rest ∧
        c'.recent = relativeCursor.recent.pastAll (tokensOf m) ∧
        contents ms = spelledAs relativeCursor.recent m ++
          gapBetween c'.current c'.rest.head?) ∧
    ∃ ms c', (toPart [deletionLine] .root (.node "Delete" [1, 3] deletedFields)).write
        deletionCursor = .ok ms c' ∧
      Remarking Remark.agrees deletionCursor c' ∧ Encloses deletionCursor c' ∧
      contents ms = "; del (a), b " ∧
      ∃ m ∈ many Token.isBetweenStatements * nameListLayout deletedFields "Delete",
        deletionCursor.rest = tokensOf m ++ c'.rest ∧
        c'.recent = deletionCursor.recent.pastAll (tokensOf m) ∧
        contents ms = spelledAs deletionCursor.recent m ++
          gapBetween c'.current c'.rest.head? := by
  constructor
  · obtain ⟨ms, c', h, hp⟩ := exists_ok
      (toPart [] .root (.node "ImportFrom" [1, 3] relativeFields)).write relativeCursor
      (fun ms c' => c'.remarks.all Remark.agrees && contents ms = "; from ..m.n import (a as b) ")
      (by decide +kernel)
    rw [Bool.and_eq_true, decide_eq_true_eq] at hp
    have hagrees : Remarking Remark.agrees relativeCursor c' := Remarking.of_nil rfl hp.1
    have hcls : "ImportFrom" ∈ nameLists := by simp [nameLists]
    exact ⟨ms, c', h, hagrees, hp.2, nameList_lays hcls (by simp) h hagrees⟩
  · obtain ⟨ms, c', h, hp⟩ := exists_ok
      (toPart [deletionLine] .root (.node "Delete" [1, 3] deletedFields)).write deletionCursor
      (fun ms c' => c'.remarks.all Remark.agrees && contents ms = "; del (a), b ")
      (by decide +kernel)
    rw [Bool.and_eq_true, decide_eq_true_eq] at hp
    have hagrees : Remarking Remark.agrees deletionCursor c' := Remarking.of_nil rfl hp.1
    have hencloses : Encloses deletionCursor c' := encloses_of_tails (by decide +kernel)
    have hnames : ∀ t ∈ itemsOf deletedFields "targets",
        ∃ places fields, t = .node "Name" places fields := by
      simp [itemsOf, deletedFields]
    have hcls : "Delete" ∈ nameLists := by simp [nameLists]
    exact ⟨ms, c', h, hagrees, hencloses, hp.2,
      nameList_lays hcls (fun _ => ⟨rfl, hencloses, hnames⟩) h hagrees⟩

end SourceScribe.Conversion
