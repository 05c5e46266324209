/-
  Markup that accounts for the tokens it is written for.

  `Written R c b ms c' b'`: the run from `c` to `c'` gave the markup `ms`, whose text is
  what the ledger `R` asks for and whose names and attributes are in order.  The rules
  of all classes are shown to give such markup if the parts they are given do.
-/
import SourceScribe.Proofs.Conversion.Ledger

namespace SourceScribe.Conversion

open Scan Markup

section
variable (R : Cursor → Bool → String → Cursor → Bool → Prop)

/-- A run from `c` to `c'` that accounts for its tokens by the markup `ms`. -/
structure Written (c : Cursor) (b : Bool) (ms : List Markup) (c' : Cursor) (b' : Bool) : Prop where
  spelt : R c b (contents ms) c' b'
  proper : ProperAll ms

/-! ## What parts promise -/

/-- What the field `name` holds, if it is there, is as `P` says. -/
def Holds (fields : List (String × Part)) (name : String) (P : Part → Prop) : Prop :=
  ∀ p, fields.lookup name = some p → P p

/-- Every item of the part is as `P` says. -/
def Each (P : Part → Prop) (p : Part) : Prop :=
  ∀ c ps c', p.items c = .ok ps c' → ∀ q ∈ ps, P q

/-- The markup that the part adds accounts for its tokens.  The gap before them is written
    already if `b` says so, the one after them is not written. -/
def Writes (b : Bool) (p : Part) : Prop :=
  p.addTo.Adds fun c ms c' => Written R c b ms c' false

/-- An expression, or nothing. -/
abbrev IsExpression : Part → Prop := Writes R true

/-- A statement, or nothing. -/
abbrev IsStatement : Part → Prop := Writes R false

/-- A node of a class whose name is a word. -/
def IsClassed (p : Part) : Prop :=
  ∀ c s c', p.cls c = .ok s c' → isWord s = true

/-- A keyword argument. -/
def IsKeyword (p : Part) : Prop :=
  Holds p.parts "value" (IsExpression R)

/-- A parameter. -/
def IsParameter (p : Part) : Prop :=
  Holds p.parts "annotation" (IsExpression R)

/-- The parameters of a function, with a starred one if there are keyword-only ones, unless
    the account allows for a star alone. -/
structure IsParameters (p : Part) : Prop where
  args : Holds p.parts "args" (Each (IsParameter R))
  defaults : Holds p.parts "defaults" (Each (IsExpression R))
  vararg : Holds p.parts "vararg" (IsParameter R)
  kwonlyargs : Holds p.parts "kwonlyargs" (Each (IsParameter R))
  kwDefaults : Holds p.parts "kw_defaults" (Each (IsExpression R))
  kwarg : Holds p.parts "kwarg" (IsParameter R)
  starred : Idles R ∨ Holds p.parts "kwonlyargs" fun kwonly =>
    kwonly.isPresent = true → Holds p.parts "vararg" fun vararg => vararg.isPresent = true

/-- One `for` of a comprehension. -/
structure IsComprehension (p : Part) : Prop where
  target : Holds p.parts "target" (IsExpression R)
  iter : Holds p.parts "iter" (IsExpression R)
  ifs : Holds p.parts "ifs" (Each (IsExpression R))

/-- A context of a `with` statement. -/
structure IsWithItem (p : Part) : Prop where
  context : Holds p.parts "context_expr" (IsExpression R)
  vars : Holds p.parts "optional_vars" (IsExpression R)

end

variable {R : Cursor → Bool → String → Cursor → Bool → Prop}
variable {c c' c₁ c₂ : Cursor} {b b' b₁ : Bool} {ms ms' : List Markup}

/-! ## Putting markup together -/

theorem Written.append (L : Ledger R) (h : Written R c b ms c₁ b₁)
    (h' : Written R c₁ b₁ ms' c' b') : Written R c b (ms ++ ms') c' b' :=
  ⟨Tally.congr (L.trans h.spelt h'.spelt) (by simp), by simp [h.proper, h'.proper]⟩

theorem Written.nil (L : Ledger R) (c : Cursor) (b : Bool) : Written R c b [] c b :=
  ⟨Tally.congr (L.refl c b) (by simp), by simp⟩

/-- A text. -/
theorem Written.text {s : String} (h : R c b s c' b') : Written R c b [text s] c' b' :=
  ⟨Tally.congr h (by simp), by simp⟩

/-- A text before further markup. -/
theorem Written.cons_text (L : Ledger R) {s : String} (h : R c b s c₁ b₁)
    (h' : Written R c₁ b₁ ms c' b') : Written R c b (.text s :: ms) c' b' :=
  Written.append L (Written.text h) h'

/-- A text that is left out if it is empty. -/
theorem Written.caption {s : String} (h : R c b s c' b') : Written R c b (caption s) c' b' :=
  ⟨Tally.congr h (by simp), by simp⟩

/-- An element without attributes. -/
theorem Written.element {tag : String} (ht : isWord tag = true) (h : Written R c b ms c' b') :
    Written R c b [element tag [] ms] c' b' :=
  ⟨Tally.congr h.spelt (by simp), by simp [ht, h.proper]⟩

/-- An element without attributes before further markup. -/
theorem Written.cons_element (L : Ledger R) {tag : String} (ht : isWord tag = true)
    (h : Written R c b ms c₁ b₁) (h' : Written R c₁ b₁ ms' c' b') :
    Written R c b (.element tag [] ms :: ms') c' b' :=
  Written.append L (Written.element ht h) h'

/-- An element with attributes. -/
theorem Written.elementWith {tag : String} {attrs : List (String × String)}
    (ht : isWord tag = true) (ha : attrsNamed attrs = true)
    (hd : ∀ a ∈ attrs, Drawn a.2 (contents ms)) (h : Written R c b ms c' b') :
    Written R c b [.element tag attrs ms] c' b' :=
  ⟨Tally.congr h.spelt (by simp),
    (properAll_cons _ _).2 ⟨(proper_element _ _ _).2 ⟨ht, ha, hd, h.proper⟩, properAll_nil⟩⟩

/-- An element with a text. -/
theorem Written.labelled {tag s : String} (ht : isWord tag = true) (h : R c b s c' b') :
    Written R c b [labelled tag s] c' b' :=
  Written.element ht (Written.caption h)

/-! ## Steps on parts -/

theorem writeField_written {n : Site} {name : String} (hf : Holds n.fields name (Writes R b))
    (h : n.writeField name c = .ok ms c') : Written R c b ms c' false := by
  obtain ⟨p, hp, h⟩ := Site.writeField_ok.1 h
  exact (hf p hp).alone h

theorem addField_written {n : Site} {name : String} (hf : Holds n.fields name (Writes R b)) :
    (n.addField name).Adds fun c ms c' => Written R c b ms c' false := by
  intro before c ms c' h
  obtain ⟨p, hp, h⟩ := Site.addField_ok.1 h
  exact hf p hp before c ms c' h

theorem fieldCls_isWord {n : Site} {name s : String} (hf : Holds n.fields name IsClassed)
    (h : n.fieldCls name c = .ok s c') : isWord s = true ∧ c = c' := by
  obtain ⟨⟨p, hp, hs⟩, rfl⟩ := Site.fieldCls_ok.1 h
  exact ⟨hf p hp _ _ _ hs, rfl⟩

theorem onlyIf_written (L : Ledger R) {asked : Bool} {m : Scan (List Markup)}
    (hm : asked = true → ∀ ms c', m c = .ok ms c' → Written R c b ms c' b)
    (h : onlyIf asked m c = .ok ms c') : Written R c b ms c' b := by
  cases asked with
  | false =>
    obtain ⟨rfl, rfl⟩ := pure_ok.1 h
    exact Written.nil L c b
  | true => exact hm rfl ms c' h

theorem forEach_written (L : Ledger R) {α : Type} {f : α → Scan (List Markup)} {as : List α}
    (hf : ∀ a ∈ as, ∀ c ms c', f a c = .ok ms c' → Written R c b ms c' b)
    (h : forEach f as c = .ok ms c') : Written R c b ms c' b := by
  induction as generalizing c ms with
  | nil =>
    obtain ⟨rfl, rfl⟩ := pure_ok.1 h
    exact Written.nil L c b
  | cons a as ih =>
    simp only [forEach, bind_ok, pure_ok] at h
    obtain ⟨x, c₁, hx, xs, c₂, hxs, rfl, rfl⟩ := h
    exact Written.append L (hf a (by simp) _ _ _ hx) (ih (fun a' ha' => hf a' (by simp [ha'])) hxs)

theorem addIf_written (L : Ledger R) {asked : Bool} {m : Into}
    (hm : asked = true → m.Adds fun c ms c' => Written R c b ms c' b) :
    (addIf asked m).Adds fun c ms c' => Written R c b ms c' b :=
  .addIf (fun c => Written.nil L c b) hm

theorem addEach_written (L : Ledger R) {α : Type} {f : α → Into} {as : List α}
    (hf : ∀ a ∈ as, (f a).Adds fun c ms c' => Written R c b ms c' b) :
    (addEach f as).Adds fun c ms c' => Written R c b ms c' b :=
  .addEach (fun c => Written.nil L c b) (Written.append L) hf

/-- A rule adds one element for an expression. -/
theorem enclose_written (L : Ledger R) {r : NodeRef} {start : Except Cause Position} {rule : Into}
    (hone : rule.AddsOne)
    (hrule : ∀ c ms c', rule [] c = .ok ms c' → Written R c true ms c' false) :
    (enclose r start rule).Adds fun c ms c' => Written R c true ms c' false := by
  intro before c ms c' h
  obtain ⟨added, rfl, hadded⟩ := enclose_adds hone before c ms c' h
  refine ⟨added, rfl, L.enclose hone (fun c ms c' hms => (hrule c ms c' hms).spelt) hadded, ?_⟩
  obtain ⟨c₁, e, c₂, -, he, ⟨rfl, -⟩ | ⟨d, ds, right, -, -, -, rfl⟩⟩ := enclose_ok hone hadded
  · exact (hrule _ _ _ he).proper
  · simpa using (hrule _ _ _ he).proper

end SourceScribe.Conversion
