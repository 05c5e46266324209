/-
  The text of subscripts.

  A subscript of names and numbers writes every token it takes, but not every gap:

  * the gap before the opening bracket is left out;
  * before the step of a slice stands, in place of the gap before it, the one before the
    token that comes before it, which is the second colon as a rule;
  * between several dimensions and the closing bracket the gap is there twice, since the
    list of dimensions writes the gap after it and the bracket the gap before it.

  `subscriptLayout` says so for each subscript, and `subscript_lays` that this is what is
  written, whatever the tokens are.
-/
import SourceScribe.Proofs.Conversion.Layout

namespace SourceScribe

open Layout

/-! ## Subscripts of names and numbers -/

namespace Tree

/-- A name or a number. -/
def isOperand : Tree → Bool
  | node cls _ _ => cls = "Name" || cls = "Num"
  | _ => false

/-- What a bound of a slice may be: absent, or a name or number. -/
def isBound (t : Tree) : Bool :=
  !t.isThere || t.isOperand

/-- An index or a slice. -/
def isDimension : Tree → Bool
  | node cls _ fields =>
    cls = "Index" && (fields.lookup "value").all isOperand ||
    cls = "Slice" && (fields.lookup "lower").all isBound && (fields.lookup "upper").all isBound &&
      (fields.lookup "step").all isBound
  | _ => false

/-- One dimension, or several. -/
def isDimensions : Tree → Bool
  | node cls places fields =>
    cls = "ExtSlice" && (Conversion.itemsOf fields "dims").all isDimension ||
      (node cls places fields).isDimension
  | _ => false

/-- A subscript of names and numbers. -/
def isSubscript : Tree → Bool
  | node cls _ fields =>
    cls = "Subscript" && (fields.lookup "value").all isOperand &&
      (fields.lookup "slice").all isDimensions
  | _ => false

end Tree

namespace Conversion

/-- The token of a name or a number. -/
def operandWord : Lead → Layout :=
  word fun t => t.kind = .name || t.kind = .number

/-- A token of any kind with the line breaks and comments around it. -/
abbrev anyGroup : Lead → Layout :=
  group fun _ => true

/-- A bound of a slice, if it is there. -/
def boundLayout (fields : List (String × Tree)) (name : String) (l : Lead) : Layout :=
  if (fields.lookup name).any Tree.isThere then operandWord l else 1

/-- How a slice is laid out: lower bound, colon, upper bound, second colon, step.  The
    step has the lead of the token before it. -/
def sliceLayout (fields : List (String × Tree)) : Layout :=
  boundLayout fields "lower" .once * anyGroup .once * boundLayout fields "upper" .once *
    (1 + group (·.isOp .colon) .once) * boundLayout fields "step" .former

/-- How an index or a slice is laid out. -/
def dimensionLayout : Tree → Layout
  | .node "Slice" _ fields => sliceLayout fields
  | _ => operandWord .once

/-- How the dimensions and the closing bracket are laid out. -/
def dimensionsLayout : Tree → Layout
  | .node "ExtSlice" _ fields =>
    ((itemsOf fields "dims").map fun t => dimensionLayout t * commas).prod * anyGroup .twice
  | t => dimensionLayout t * anyGroup .once

/-- How a subscript is laid out: value, opening bracket, dimensions, closing bracket.  The
    gap before the value is not part of it. -/
def subscriptLayout : Tree → Layout
  | .node _ _ fields =>
    operandWord .omitted * anyGroup .omitted * ((fields.lookup "slice").elim 1 dimensionsLayout)
  | _ => 0

/-! ## What is written -/

open Scan Markup

variable {lines : List String} {path : Path} {fields : List (String × Tree)} {ref : NodeRef}
variable {c c' c₁ : Cursor} {ms : List Markup} {l : Lead}

/-- The markup of a node that is neither expression nor statement is that of its rule. -/
theorem addTo_other {cls : String} {places : List Int} {rule : Into}
    (he : expressionRule? ⟨⟨path, cls, places⟩, toFields lines path fields⟩ = none)
    (hs : statementRule? ⟨⟨path, cls, places⟩, toFields lines path fields⟩ = none)
    (ho : otherRule? ⟨⟨path, cls, places⟩, toFields lines path fields⟩ = some rule) :
    (toPart lines path (.node cls places fields)).addTo =
      fun before => within ⟨path, cls, places⟩ (rule before) := by
  funext before
  rw [toPart, Part.addTo, addNode, he, hs, ho]

/-- A name or a number is one token. -/
theorem operand_laid {t : Tree} (ht : t.isOperand = true) (l : Lead) :
    AddsLaid PlainRun (operandWord l) l .omitted (toPart lines path t).addTo := by
  have K := regular_plainRun
  cases t with
  | leaf v => cases ht
  | list items => cases ht
  | node cls places fields =>
    simp only [Tree.isOperand, Bool.or_eq_true, decide_eq_true_eq] at ht
    intro before c ms c' h
    rw [toPart, Part.addTo] at h
    rcases ht with rfl | rfl
    · refine enclose_laid (Gives.addsOne (nameRule_gives _)) (fun c ms c' he => ?_) _ _ _ _
        (within_ok.1 h)
      refine (nameRule_laid K he l).mono (word_mono fun t ht => ?_)
      simpa using Or.inl (of_decide_eq_true ht)
    · refine enclose_laid (Gives.addsOne numberRule_gives) (fun c ms c' he => ?_) _ _ _ _
        (within_ok.1 h)
      simp only [numberRule, bind_ok, pure_ok] at he
      obtain ⟨u, c₁, hu, rfl, rfl⟩ := he
      refine (((Laid.account K).expectShown hu trivial).congr (by simp)).mono
        (word_mono fun t ht => ?_)
      simpa using Or.inr (of_decide_eq_true ht)

/-- The value of a field that holds a name or a number. -/
theorem operandField_laid {name : String} (ht : (fields.lookup name).all Tree.isOperand = true)
    (h : (⟨ref, toFields lines path fields⟩ : Site).writeField name c = .ok ms c') (l : Lead) :
    Laid PlainRun (operandWord l) c l (contents ms) c' .omitted := by
  obtain ⟨p, hp, hw⟩ := Site.writeField_ok.1 h
  rw [lookup_toFields, Option.map_eq_some_iff] at hp
  obtain ⟨t, hlookup, rfl⟩ := hp
  rw [hlookup, Option.all_some] at ht
  exact (operand_laid ht l).alone hw

/-- A bound of a slice is written if it is there. -/
theorem bound_laid {name : String} {p : Part} {m : Scan (List Markup)} {l' : Lead}
    (hp : (toFields lines path fields).lookup name = some p)
    (ht : (fields.lookup name).all Tree.isBound = true)
    (hm : AddsLaid PlainRun (operandWord l') l' .omitted p.addTo →
      ∀ ms c', m c = .ok ms c' → Laid PlainRun (operandWord l') c l (contents ms) c' l)
    (h : onlyIf p.isPresent m c = .ok ms c') :
    Laid PlainRun (boundLayout fields name l') c l (contents ms) c' l := by
  rw [lookup_toFields, Option.map_eq_some_iff] at hp
  obtain ⟨t, hlookup, rfl⟩ := hp
  rw [hlookup, Option.all_some, Tree.isBound, Bool.or_eq_true, Bool.not_eq_true'] at ht
  rw [isPresent_toPart] at h
  rw [boundLayout, hlookup, Option.any_some]
  refine onlyIf_laid (fun hthere => hm ?_) h
  have hoperand : t.isOperand = true := ht.resolve_left (by rw [hthere]; exact Bool.noConfusion)
  exact operand_laid hoperand l'

theorem sliceRule_laid (hlower : (fields.lookup "lower").all Tree.isBound = true)
    (hupper : (fields.lookup "upper").all Tree.isBound = true)
    (hstep : (fields.lookup "step").all Tree.isBound = true) :
    AddsLaid PlainRun (sliceLayout fields) .once .omitted
      (sliceRule ⟨ref, toFields lines path fields⟩) := by
  intro before c ms c' h
  have K := regular_plainRun
  simp only [sliceRule, bind_ok, pure_ok, Site.field_ok, peek_ok] at h
  obtain ⟨lower, _, ⟨hl, rfl⟩, lowerPart, c₁, h₁, colon, c₂, h₂, upper, _, ⟨hu, rfl⟩, upperPart, c₃,
    h₃, next, _, ⟨hnext, rfl⟩, second, c₄, h₄, step, _, ⟨hs, rfl⟩, stepPart, c₅, h₅, rfl, rfl⟩ := h
  have hlowerPart : Laid PlainRun (boundLayout fields "lower" .once) c .once
      (contents lowerPart) c₁ .once := by
    refine bound_laid hl hlower (fun hw ms c' hm => ?_) h₁
    simp only [bind_ok, pure_ok] at hm
    obtain ⟨inside, c₂, hin, after, c₃, hafter, rfl, rfl⟩ := hm
    exact ((Laid.account K).followed (hw.alone hin)
      ((Laid.account K).gapAfter hafter trivial)).congr (by simp)
  have hcolon : Laid PlainRun (anyGroup .once) c₁ .once colon c₂ .omitted :=
    (Laid.account K).enclosed (fun _ _ => rfl) h₂ trivial
  have hupperPart : Laid PlainRun (boundLayout fields "upper" .once) c₂ .omitted
      (contents upperPart) c₃ .omitted := by
    refine bound_laid hu hupper (fun hw ms c' hm => ?_) h₃
    simp only [bind_ok, pure_ok] at hm
    obtain ⟨after, c₃, hafter, inside, c₄, hin, rfl, rfl⟩ := hm
    exact ((Laid.account K).before ((Laid.account K).gapAfter hafter trivial)
      (hw.alone hin)).congr (by simp)
  have hsecond : Laid PlainRun (1 + group (·.isOp .colon) .once) c₃ .omitted
      (contents second) c₄ .omitted := by
    refine (onlyIf_laid (S := group (·.isOp .colon) .once) (fun hcolon ms c' hm => ?_) h₄).mono ?_
    · simp only [bind_ok, pure_ok] at hm
      obtain ⟨text, c₄, htext, rfl, rfl⟩ := hm
      exact (Laid.enclosedOp K hnext hcolon htext 0).congr (by simp)
    · split
      · exact le_add_of_nonneg_left bot_le
      · exact le_add_of_nonneg_right bot_le
  have hstepPart : Laid PlainRun (boundLayout fields "step" .former) c₄ .omitted
      (contents stepPart) c₅ .omitted := by
    refine bound_laid hs hstep (fun hw ms c' hm => ?_) h₅
    simp only [bind_ok, pure_ok] at hm
    obtain ⟨before, c₃, hbefore, inside, c₄, hin, rfl, rfl⟩ := hm
    exact ((Laid.account K).before (Laid.former hbefore) (hw.alone hin)).congr (by simp)
  have hall := Laid.trans K (Laid.trans K (Laid.trans K (Laid.trans K hlowerPart hcolon) hupperPart)
    hsecond) hstepPart
  exact ⟨_, rfl, hall.congr (by simp [String.append_assoc])⟩

/-- An index or a slice. -/
theorem dimension_laid {t : Tree} (ht : t.isDimension = true) :
    AddsLaid PlainRun (dimensionLayout t) .once .omitted (toPart lines path t).addTo := by
  intro before c ms c' h
  cases t with
  | leaf v => cases ht
  | list items => cases ht
  | node cls places fields =>
    simp only [Tree.isDimension, Bool.or_eq_true, Bool.and_eq_true, decide_eq_true_eq] at ht
    rcases ht with ⟨rfl, hvalue⟩ | ⟨⟨⟨rfl, hlower⟩, hupper⟩, hstep⟩
    · rw [addTo_other rfl rfl rfl, within_ok] at h
      simp only [indexRule, bind_ok, pure_ok] at h
      obtain ⟨value, c₁, hv, rfl, rfl⟩ := h
      exact ⟨_, rfl, (operandField_laid hvalue hv .once).congr (by simp)⟩
    · rw [addTo_other rfl rfl rfl, within_ok] at h
      exact sliceRule_laid hlower hupper hstep _ _ _ _ h

/-- Several dimensions, each with what separates it from the next. -/
theorem extSliceRule_laid (hdims : (itemsOf fields "dims").all Tree.isDimension = true) :
    AddsLaid PlainRun ((itemsOf fields "dims").map fun t => dimensionLayout t * commas).prod .once
      .once (extSliceRule ⟨ref, toFields lines path fields⟩) := by
  intro before c ms c' h
  obtain ⟨ps, c₁, hps, h⟩ := bind_ok.1 h
  obtain ⟨-, rfl⟩ := Site.fieldItems_ok.1 hps
  refine fieldItems_laid regular_plainRun not_letter_delimitedItem (fun t ht path => ?_)
    hps before c ms c' h
  exact delimitedItem_laid regular_plainRun (dimension_laid (List.all_eq_true.1 hdims t ht))

/-- The dimensions and the closing bracket. -/
theorem dimensions_laid {t : Tree} {before : List Markup} {right : String}
    (ht : t.isDimensions = true) (h : (toPart lines path t).addTo before c = .ok ms c₁)
    (hr : enclosed true false c₁ = .ok right c') :
    ∃ added, ms = before ++ added ∧
      Laid PlainRun (dimensionsLayout t) c .once (contents added ++ right) c' .omitted := by
  have K := regular_plainRun
  cases t with
  | leaf v => cases ht
  | list items => cases ht
  | node cls places fields =>
    rw [Tree.isDimensions, Bool.or_eq_true, Bool.and_eq_true, decide_eq_true_eq] at ht
    rcases ht with ⟨rfl, hdims⟩ | hdim
    · rw [addTo_other rfl rfl rfl, within_ok] at h
      obtain ⟨added, rfl, hadded⟩ := extSliceRule_laid hdims _ _ _ _ h
      exact ⟨added, rfl,
        Laid.trans K hadded ((Laid.account K).enclosed (n := 1) (fun _ _ => rfl) hr trivial)⟩
    · have hne : cls ≠ "ExtSlice" := by
        rintro rfl
        simp [Tree.isDimension] at hdim
      have hlayout : dimensionsLayout (.node cls places fields) =
          dimensionLayout (.node cls places fields) * anyGroup .once := by
        unfold dimensionsLayout
        split
        · rename_i heq
          exact absurd (Tree.node.inj heq).1 hne
        · rfl
      rw [hlayout]
      obtain ⟨added, rfl, hadded⟩ := dimension_laid hdim _ _ _ _ h
      exact ⟨added, rfl,
        Laid.trans K hadded ((Laid.account K).enclosed (n := 0) (fun _ _ => rfl) hr trivial)⟩

/-- **What a subscript of names and numbers writes**, whatever its tokens are: every token
    it takes, in order, with the gaps that `subscriptLayout` gives them, if the names are
    those of the tokens and no parenthesis is kept aside. -/
theorem subscript_lays {tree : Tree} (ht : tree.isSubscript = true)
    (h : (toPart lines path tree).write c = .ok ms c') (hd : c.deferred = [])
    (hp : Remarking Remark.isPlain c c') :
    ∃ m ∈ subscriptLayout tree, c.rest = tokensOf m ++ c'.rest ∧
      contents ms = spelledAs c.recent m := by
  have K := regular_plainRun
  cases tree with
  | leaf v => cases ht
  | list items => cases ht
  | node cls places fields =>
    simp only [Tree.isSubscript, Bool.and_eq_true, decide_eq_true_eq] at ht
    obtain ⟨⟨rfl, hvalue⟩, hslice⟩ := ht
    rw [Part.write, toPart, Part.addTo] at h
    have hlaid : Laid PlainRun (subscriptLayout (.node "Subscript" places fields)) c .omitted
        (contents ms) c' .omitted := by
      refine (enclose_laid (Gives.addsOne (subscriptRule_gives _)) (fun c ms c' he => ?_)).alone
        (within_ok.1 h)
      simp only [subscriptRule, bind_ok, pure_ok, Site.fieldCls_ok] at he
      obtain ⟨ctx, _, ⟨-, rfl⟩, value, c₁, hv, left, c₂, hl, slice, c₃, hs, right, c₄, hr, rfl, rfl⟩ :=
        he
      obtain ⟨p, hp, hs⟩ := Site.addField_ok.1 hs
      rw [lookup_toFields, Option.map_eq_some_iff] at hp
      obtain ⟨t, hlookup, rfl⟩ := hp
      rw [hlookup, Option.all_some] at hslice
      obtain ⟨added, rfl, hadded⟩ := dimensions_laid hslice hs hr
      have hopen := Laid.trans K (operandField_laid hvalue hv .omitted)
        ((Laid.account K).enclosed (n := 0) (fun _ _ => rfl) hl trivial)
      have hall := Laid.trans K hopen hadded
      rw [subscriptLayout, hlookup]
      exact hall.congr (by simp [String.append_assoc])
    obtain ⟨-, m, hm, hlays⟩ := hlaid.lays ⟨hd, hp⟩
    exact ⟨m, hm, hlays.rest, by simpa using hlays.text⟩

/-- `x [a:b: c, d ]`. -/
def spacedSubscript : Tree :=
  .node "Subscript" [1, 0] [
    ("value", .node "Name" [1, 0] [("id", .leaf (.str "x")), ("ctx", .node "Load" [] [])]),
    ("slice", .node "ExtSlice" [] [("dims", .list [
      .node "Slice" [] [
        ("lower", .node "Name" [1, 3] [("id", .leaf (.str "a")), ("ctx", .node "Load" [] [])]),
        ("upper", .node "Name" [1, 5] [("id", .leaf (.str "b")), ("ctx", .node "Load" [] [])]),
        ("step", .node "Name" [1, 8] [("id", .leaf (.str "c")), ("ctx", .node "Load" [] [])])],
      .node "Index" [] [
        ("value", .node "Name" [1, 11] [("id", .leaf (.str "d")), ("ctx", .node "Load" [] [])])]])]),
    ("ctx", .node "Load" [] [])]

/-- The cursor before the tokens of `x [a:b: c, d ]`. -/
def spacedCursor : Cursor :=
  let token := Token.onRow 1 "x [a:b: c, d ]\n"
  { rest := [token 0 .name "x", token 2 .operator "[", token 3 .name "a", token 4 .operator ":",
      token 5 .name "b", token 6 .operator ":", token 8 .name "c", token 9 .operator ",",
      token 11 .name "d", token 13 .operator "]", token 14 .newline "\n"]
    current := some ⟨.encoding, "utf-8", ⟨0, 0⟩, ⟨0, 0⟩, ""⟩
    previous := none
    deferred := []
    remarks := [] }

/-- All three: no gap before the bracket, none before the step, and two at the end. -/
theorem spaced_subscript_lays : ∃ ms c',
    (toPart [] .root spacedSubscript).write spacedCursor = .ok ms c' ∧
      spacedSubscript.isSubscript = true ∧ spacedCursor.deferred = [] ∧
      Remarking Remark.isPlain spacedCursor c' ∧ contents ms = "x[a:b:c, d  ]" ∧
      ∃ m ∈ subscriptLayout spacedSubscript, spacedCursor.rest = tokensOf m ++ c'.rest ∧
        contents ms = spelledAs spacedCursor.recent m := by
  have hs : spacedSubscript.isSubscript = true := by decide
  obtain ⟨ms, c', h, hp⟩ := exists_ok (toPart [] .root spacedSubscript).write spacedCursor
    (fun ms c' => c'.isPlain && contents ms = "x[a:b:c, d  ]") (by decide +kernel)
  rw [Bool.and_eq_true, decide_eq_true_eq] at hp
  have hplain : Remarking Remark.isPlain spacedCursor c' := Remarking.of_nil rfl hp.1
  exact ⟨ms, c', h, hs, rfl, hplain, hp.2, subscript_lays hs h rfl hplain⟩

end Conversion

end SourceScribe
