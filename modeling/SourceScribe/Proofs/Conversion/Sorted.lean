/-
  Well-sorted trees account for their tokens.

  A slot of a class promises something of the part it holds, by its category
  (`Means`).  A tree that fits a slot keeps the promise: by induction on the tree, with
  one case for every class, from the rules of the classes.
-/
import SourceScribe.Proofs.Conversion.Statements
import SourceScribe.Proofs.Tree.Lookup
import SourceScribe.Proofs.Tree.Sorts

namespace SourceScribe.Conversion

open Scan
open SourceScribe.Tree (Category Count Slot Slots slots? fits fitsItems fitsFields hasRequired
  isStarred)

variable {R : Cursor → Bool → String → Cursor → Bool → Prop}

/-! ## What slots promise -/

/-- What a part of the category is like. -/
def Means (R : Cursor → Bool → String → Cursor → Bool → Prop) : Category → Part → Prop
  | .expression => IsExpression R
  | .statement | .handler => IsStatement R
  | .comprehension => IsComprehension R
  | .arguments => IsParameters R
  | .arg => IsParameter R
  | .keyword => IsKeyword R
  | .withItem => IsWithItem R
  | .context | .boolOperator | .operator | .unaryOperator | .comparison => IsClassed
  | .module => fun p => Holds p.parts "body" (Each (IsStatement R))
  | .identifier | .number | .string | .bytes | .singleton => fun _ => True

/-- What a part in the slot is like. -/
def Fills (R : Cursor → Bool → String → Cursor → Bool → Prop) (s : Slot) (p : Part) : Prop :=
  (if s.isMany then Each (Means R s.category) p else Means R s.category p) ∧
    (s = ⟨.expression, .one⟩ → p.isPresent = true)

/-- A scalar has no markup, no class and no fields. -/
theorem means_leaf (k : Category) (v : Scalar) : Means R k (.leaf v) := by
  have hfields : ∀ name P, Holds (Part.leaf v).parts name P :=
    fun _ _ _ h => by simp [Part.parts] at h
  have hwrite : ∀ b, Writes R b (.leaf v) := fun _ _ _ _ _ h => (fail_ok.1 h).elim
  have hcls : IsClassed (.leaf v) := fun _ _ _ h => (fail_ok.1 h).elim
  cases k with
  | expression | statement | handler => exact hwrite _
  | context | boolOperator | operator | unaryOperator | comparison => exact hcls
  | arg | keyword | module => exact hfields _ _
  | comprehension => exact ⟨hfields _ _, hfields _ _, hfields _ _⟩
  | withItem => exact ⟨hfields _ _, hfields _ _⟩
  | arguments =>
    exact ⟨hfields _ _, hfields _ _, hfields _ _, hfields _ _, hfields _ _, hfields _ _,
      Or.inr (hfields _ _)⟩
  | identifier | number | string | bytes | singleton => trivial

/-- Every field is one of the slots and is as that slot promises. -/
def Filled (R : Cursor → Bool → String → Cursor → Bool → Prop) (slots : Slots)
    (fields : List (String × Part)) : Prop :=
  ∀ name p, fields.lookup name = some p → ∃ s, slots.lookup name = some s ∧ Fills R s p

section
variable {slots : Slots} {fields : List (String × Part)} {name : String}

theorem Filled.single (hf : Filled R slots fields) (k : Category)
    (hs : (slots.lookup name).all (fun s => s.category = k && !s.isMany) = true) :
    Holds fields name (Means R k) := by
  intro p hp
  obtain ⟨s, hsome, h⟩ := hf name p hp
  simp only [hsome, Option.all_some, Bool.and_eq_true, decide_eq_true_eq, Bool.not_eq_true'] at hs
  simpa [hs] using h.1

theorem Filled.each (hf : Filled R slots fields) (k : Category)
    (hs : (slots.lookup name).all (fun s => s.category = k && s.isMany) = true) :
    Holds fields name (Each (Means R k)) := by
  intro p hp
  obtain ⟨s, hsome, h⟩ := hf name p hp
  simp only [hsome, Option.all_some, Bool.and_eq_true, decide_eq_true_eq] at hs
  simpa [hs] using h.1

theorem Filled.there (hf : Filled R slots fields)
    (hs : slots.lookup name = some ⟨.expression, .one⟩) :
    Holds fields name fun p => p.isPresent = true := by
  intro p hp
  obtain ⟨s, hsome, h⟩ := hf name p hp
  rw [hs, Option.some.injEq] at hsome
  exact h.2 hsome.symm

end

/-! ## Rules, class by class -/

theorem isWord_of_expressionSlots {cls : String} {slots : Slots}
    (hs : Tree.expressionSlots cls = some slots) : Markup.isWord cls = true := by
  unfold Tree.expressionSlots at hs
  split at hs <;> first | decide | cases hs

theorem isWord_of_statementSlots {cls : String} {slots : Slots}
    (hs : Tree.statementSlots cls = some slots) : Markup.isWord cls = true := by
  unfold Tree.statementSlots at hs
  split at hs <;> first | decide | cases hs

/-- A category with one class. -/
theorem sole_of_slots {k : Category} {cls name : String} {slots slots' : Slots}
    (hk : Tree.soleClass k = some (name, slots')) (hs : slots? k cls = some slots) :
    cls = name ∧ slots' = slots := by
  cases k <;> cases hk <;>
  · simp only [slots?, Tree.soleClass] at hs
    split at hs
    · exact ⟨by assumption, Option.some.inj hs⟩
    · cases hs

/-- A category whose classes have no fields. -/
theorem mem_bare_of_slots {k : Category} {cls : String} {slots : Slots}
    (hk : slots? k cls = if cls ∈ Tree.bareClasses k then some [] else none)
    (hs : slots? k cls = some slots) : cls ∈ Tree.bareClasses k := by
  rw [hk] at hs
  split at hs
  · assumption
  · cases hs

theorem isWord_of_bare {k : Category} {cls : String} (h : cls ∈ Tree.bareClasses k) :
    Markup.isWord cls = true := by
  have hall : ∀ k, ∀ cls ∈ Tree.bareClasses k, Markup.isWord cls = true := by
    intro k; cases k <;> decide
  exact hall k cls h

theorem addNode_handler {n : Site} {start : Except Cause Position}
    (hc : n.ref.cls = "ExceptHandler") (before : List Markup) :
    addNode start n before = within n.ref (exceptHandlerRule n before) := by
  obtain ⟨⟨path, cls, places⟩, fields⟩ := n
  cases hc
  rfl

variable (L : Ledger R) {slots : Slots} {n : Site}
include L

/-- The rule of a class of expression accounts for its tokens. -/
theorem expressionRule_written (hs : Tree.expressionSlots n.ref.cls = some slots)
    (hf : Filled R slots n.fields)
    (hop : n.ref.cls = "BoolOp" → Holds n.fields "values" fun p => p.isPresent = true)
    (hthere : Idles R ∨ ∀ name, (n.ref.cls, name) ∈ Tree.valued →
      Holds n.fields name fun p => p.isPresent = true) :
    ∃ rule, expressionRule? n = some rule ∧
      ∀ c ms c', rule [] c = .ok ms c' → Written R c true ms c' false := by
  have hw := isWord_of_expressionSlots hs
  obtain ⟨⟨path, cls, places⟩, fields⟩ := n
  simp only at hs hf hop hthere hw
  unfold Tree.expressionSlots at hs
  split at hs <;> cases hs
  · exact ⟨_, rfl, fun _ _ _ => boolOpRule_written L hw (hf.single .boolOperator rfl)
      (hf.each .expression rfl) (hop rfl)⟩
  · exact ⟨_, rfl, fun _ _ _ => binOpRule_written L hw (hf.single .expression rfl)
      (hf.single .operator rfl) (hf.single .expression rfl)⟩
  · exact ⟨_, rfl, fun _ _ _ => unaryOpRule_written L hw (hf.single .unaryOperator rfl)
      (hf.single .expression rfl)⟩
  · exact ⟨_, rfl, fun _ _ _ => lambdaRule_written L (hf.single .arguments rfl)
      (hf.single .expression rfl)⟩
  · exact ⟨_, rfl, fun _ _ _ => ifExpRule_written L (hf.single .expression rfl)
      (hf.single .expression rfl) (hf.single .expression rfl)⟩
  · exact ⟨_, rfl, fun _ _ _ => dictRule_written L (hf.each .expression rfl)
      (hf.each .expression rfl)⟩
  · exact ⟨_, rfl, fun _ _ _ => listRule_written L hw (hf.single .context rfl)
      (hf.each .expression rfl)⟩
  · exact ⟨_, rfl, fun _ _ _ => comprehensionRule_written L hw (hf.single .expression rfl)
      (hf.single .expression rfl) (hf.single .expression rfl) (hf.each .comprehension rfl)⟩
  · exact ⟨_, rfl, fun _ _ _ => comprehensionRule_written L hw (hf.single .expression rfl)
      (hf.single .expression rfl) (hf.single .expression rfl) (hf.each .comprehension rfl)⟩
  · exact ⟨_, rfl, fun _ _ _ => comprehensionRule_written L hw (hf.single .expression rfl)
      (hf.single .expression rfl) (hf.single .expression rfl) (hf.each .comprehension rfl)⟩
  · exact ⟨_, rfl, fun _ _ _ => comprehensionRule_written L hw (hf.single .expression rfl)
      (hf.single .expression rfl) (hf.single .expression rfl) (hf.each .comprehension rfl)⟩
  · exact ⟨_, rfl, fun _ _ _ => yieldRule_written L hw (hf.single .expression rfl)
      (hthere.imp (fun I => ⟨I, by simp⟩) fun hall => hall _ (by decide))⟩
  · exact ⟨_, rfl, fun _ _ _ => yieldRule_written L hw (hf.single .expression rfl)
      (Or.inr (hf.there rfl))⟩
  · exact ⟨_, rfl, fun _ _ _ => compareRule_written L hw (hf.single .expression rfl)
      (hf.each .expression rfl)⟩
  · exact ⟨_, rfl, fun _ _ _ => callRule_written L (hf.single .expression rfl)
      (hf.each .expression rfl) (hf.each .keyword rfl) (hf.single .expression rfl)
      (hf.single .expression rfl)⟩
  · exact ⟨_, rfl, fun _ _ _ => numberRule_written L⟩
  · exact ⟨_, rfl, fun _ _ _ => stringRule_written L hw⟩
  · exact ⟨_, rfl, fun _ _ _ => stringRule_written L hw⟩
  · exact ⟨_, rfl, fun _ _ _ => nameConstantRule_written L⟩
  · exact ⟨_, rfl, fun _ _ _ => ellipsisRule_written L⟩
  · exact ⟨_, rfl, fun _ _ _ => attributeRule_written L (hf.single .context rfl)
      (hf.single .expression rfl)⟩
  · exact ⟨_, rfl, fun _ _ _ => starredRule_written L (hf.single .context rfl)
      (hf.single .expression rfl)⟩
  · exact ⟨_, rfl, fun _ _ _ => nameRule_written L (hf.single .context rfl)⟩
  · exact ⟨_, rfl, fun _ _ _ => listRule_written L hw (hf.single .context rfl)
      (hf.each .expression rfl)⟩
  · exact ⟨_, rfl, fun _ _ _ => tupleRule_written L (hf.single .context rfl)
      (hf.each .expression rfl)⟩

/-- The rule of a class of statement accounts for its tokens. -/
theorem statementRule_written (hs : Tree.statementSlots n.ref.cls = some slots)
    (hf : Filled R slots n.fields) :
    ∃ rule, expressionRule? n = none ∧ statementRule? n = some rule ∧
      ∀ c e c', rule c = .ok e c' → Written R c true [e] c' false := by
  have hw := isWord_of_statementSlots hs
  obtain ⟨⟨path, cls, places⟩, fields⟩ := n
  simp only at hs hf hw
  unfold Tree.statementSlots at hs
  split at hs <;> cases hs
  · exact ⟨_, rfl, rfl, fun _ _ _ => functionDefRule_written L (hf.each .expression rfl)
      (hf.single .arguments rfl) (hf.single .expression rfl) (hf.each .statement rfl)⟩
  · exact ⟨_, rfl, rfl, fun _ _ _ => classDefRule_written L (hf.each .expression rfl)
      (hf.each .expression rfl) (hf.each .keyword rfl) (hf.single .expression rfl)
      (hf.single .expression rfl) (hf.each .statement rfl)⟩
  · exact ⟨_, rfl, rfl, fun _ _ _ => returnRule_written L (hf.single .expression rfl)⟩
  · exact ⟨_, rfl, rfl, fun _ _ _ => assignRule_written L (hf.each .expression rfl)
      (hf.single .expression rfl)⟩
  · exact ⟨_, rfl, rfl, fun _ _ _ => augAssignRule_written L (hf.single .expression rfl)
      (hf.single .operator rfl) (hf.single .expression rfl)⟩
  · exact ⟨_, rfl, rfl, fun _ _ _ => forRule_written L hw (hf.single .expression rfl)
      (hf.single .expression rfl) (hf.each .statement rfl) (hf.each .statement rfl)⟩
  · exact ⟨_, rfl, rfl, fun _ _ _ => conditionRule_written L hw (hf.single .expression rfl)
      (hf.each .statement rfl) (hf.each .statement rfl)⟩
  · exact ⟨_, rfl, rfl, fun _ _ _ => conditionRule_written L hw (hf.single .expression rfl)
      (hf.each .statement rfl) (hf.each .statement rfl)⟩
  · exact ⟨_, rfl, rfl, fun _ _ _ => withRule_written L hw (hf.each .withItem rfl)
      (hf.each .statement rfl)⟩
  · exact ⟨_, rfl, rfl, fun _ _ _ => raiseRule_written L (hf.single .expression rfl)
      (hf.single .expression rfl)⟩
  · exact ⟨_, rfl, rfl, fun _ _ _ => tryRule_written L (hf.each .statement rfl)
      (hf.each .handler rfl) (hf.each .statement rfl) (hf.each .statement rfl)⟩
  · exact ⟨_, rfl, rfl, fun _ _ _ => assertRule_written L (hf.single .expression rfl)
      (hf.single .expression rfl)⟩
  · exact ⟨_, rfl, rfl, fun _ _ _ => exprRule_written (hf.single .expression rfl)⟩
  · exact ⟨_, rfl, rfl, fun _ _ _ => wordRule_written L hw⟩
  · exact ⟨_, rfl, rfl, fun _ _ _ => wordRule_written L hw⟩
  · exact ⟨_, rfl, rfl, fun _ _ _ => wordRule_written L hw⟩

/-- A node whose fields are as the slots of its class promise is as its category
    promises. -/
theorem node_means {k : Category} {start : Except Cause Position}
    (hs : slots? k n.ref.cls = some slots) (hf : Filled R slots n.fields)
    (hop : n.ref.cls = "BoolOp" → Holds n.fields "values" fun p => p.isPresent = true)
    (hthere : Idles R ∨ ∀ name, (n.ref.cls, name) ∈ Tree.valued →
      Holds n.fields name fun p => p.isPresent = true)
    (hstar : Idles R ∨ (n.ref.cls = "arguments" → Holds n.fields "kwonlyargs" fun kwonly =>
      kwonly.isPresent = true → Holds n.fields "vararg" fun vararg => vararg.isPresent = true)) :
    Means R k (.node n.ref n.fields start (addNode start n)) := by
  cases k with
  | expression =>
    obtain ⟨rule, hrule, hw⟩ := expressionRule_written L hs hf hop hthere
    intro before c ms c' h
    simp only [Part.addTo, addNode, hrule, within_ok] at h
    exact enclose_written L (expressionRule?_addsOne hrule) hw before c ms c' h
  | statement =>
    obtain ⟨rule, hnone, hrule, hw⟩ := statementRule_written L hs hf
    intro before c ms c' h
    simp only [Part.addTo, addNode, hnone, hrule, within_ok] at h
    exact afterGap_written L hw before c ms c' h
  | handler =>
    obtain ⟨hc, rfl⟩ := sole_of_slots rfl hs
    intro before c ms c' h
    simp only [Part.addTo, addNode_handler hc, within_ok] at h
    refine exceptHandlerRule_written L (hf.single .expression rfl)
      (hthere.imp_right fun hall => hall _ ?_) (hf.each .statement rfl) before c ms c' h
    rw [hc]; decide
  | comprehension =>
    obtain ⟨-, rfl⟩ := sole_of_slots rfl hs
    exact ⟨hf.single .expression rfl, hf.single .expression rfl, hf.each .expression rfl⟩
  | arguments =>
    obtain ⟨hc, rfl⟩ := sole_of_slots rfl hs
    exact ⟨hf.each .arg rfl, hf.each .expression rfl, hf.single .arg rfl, hf.each .arg rfl,
      hf.each .expression rfl, hf.single .arg rfl, hstar.imp_right fun hstarred => hstarred hc⟩
  | arg =>
    obtain ⟨-, rfl⟩ := sole_of_slots rfl hs
    exact hf.single .expression rfl
  | keyword =>
    obtain ⟨-, rfl⟩ := sole_of_slots rfl hs
    exact hf.single .expression rfl
  | withItem =>
    obtain ⟨-, rfl⟩ := sole_of_slots rfl hs
    exact ⟨hf.single .expression rfl, hf.single .expression rfl⟩
  | module =>
    obtain ⟨-, rfl⟩ := sole_of_slots rfl hs
    exact hf.each .statement rfl
  | context | boolOperator | operator | unaryOperator | comparison =>
    intro c s c' h
    obtain ⟨rfl, -⟩ := pure_ok.1 h
    exact isWord_of_bare (mem_bare_of_slots rfl hs)
  | identifier | number | string | bytes | singleton => trivial

omit L

/-! ## Trees -/

/-- What is required of a tree is enough for the account: a boolean operation has an
    operand, and no other part is missing, unless the account allows for that. -/
structure Suffices (R : Cursor → Bool → String → Cursor → Bool → Prop)
    (required : List (String × String)) (starred : Bool) : Prop where
  operand : ("BoolOp", "values") ∈ required
  missing : Idles R ∨ (∀ r ∈ Tree.valued, r ∈ required) ∧ starred = true

theorem suffices_operated : Suffices R Tree.operated true :=
  ⟨List.mem_cons_self, Or.inr ⟨fun _ => List.mem_cons_of_mem _, rfl⟩⟩

variable {lines : List String} {required : List (String × String)} {starred : Bool}

theorem isMany_item (s : Slot) : s.item.isMany = false := by
  obtain ⟨k, q⟩ := s
  cases q <;> rfl

theorem isPresent_toPart (path : Path) (t : Tree) :
    (toPart lines path t).isPresent = t.isThere := by
  cases t with
  | leaf v => rw [toPart, Part.isPresent, Tree.isThere]
  | node cls places fields => rw [toPart, Part.isPresent, Tree.isThere]
  | list items =>
    rw [toPart, Part.isPresent, Tree.isThere]
    cases items <;> rfl

theorem lookup_toFields (path : Path) (fields : List (String × Tree)) (name : String) :
    (toFields lines path fields).lookup name =
      (fields.lookup name).map (toPart lines (path.field name)) :=
  Tree.lookup_of_fieldwise (f := fun name => toPart lines (path.field name)) (by rw [toFields])
    (fun _ _ _ => by rw [toFields]) fields name

/-- A required field is there in the part as it is in the tree. -/
theorem holds_there {path : Path} {fields : List (String × Tree)} {name : String}
    (h : (fields.lookup name).all Tree.isThere = true) :
    Holds (toFields lines path fields) name fun p => p.isPresent = true := by
  intro p hp
  rw [lookup_toFields, Option.map_eq_some_iff] at hp
  obtain ⟨t, ht, rfl⟩ := hp
  rw [ht, Option.all_some] at h
  rwa [isPresent_toPart]

theorem holds_required {path : Path} {cls : String} {fields : List (String × Tree)}
    (h : hasRequired required cls fields = true) (name : String)
    (hname : (cls, name) ∈ required) :
    Holds (toFields lines path fields) name fun p => p.isPresent = true := by
  have hr := List.all_eq_true.1 h _ hname
  exact holds_there (by simpa using hr)

theorem holds_starred {path : Path} {fields : List (String × Tree)}
    (h : isStarred fields = true) :
    Holds (toFields lines path fields) "kwonlyargs" fun kwonly => kwonly.isPresent = true →
      Holds (toFields lines path fields) "vararg" fun vararg => vararg.isPresent = true := by
  intro p hp hpresent
  rw [lookup_toFields, Option.map_eq_some_iff] at hp
  obtain ⟨t, ht, rfl⟩ := hp
  rw [isPresent_toPart] at hpresent
  exact holds_there (by simpa [isStarred, ht, hpresent] using h)

mutual

/-- **A tree that fits a slot keeps the promise of the slot**, whatever the tokens are. -/
theorem fills_of_fits (L : Ledger R) (hreq : Suffices R required starred) :
    ∀ (t : Tree) (path : Path) (s : Slot),
      t.fits required starred s = true → Fills R s (toPart lines path t)
  | .leaf v, path, s, h => by
    rw [fits, Slot.admits, Bool.and_eq_true] at h
    refine ⟨?_, fun hs => ?_⟩
    · rw [if_neg (by simpa using h.1)]
      exact means_leaf _ v
    · subst hs
      simp [Category.holds] at h
  | .list items, path, s, h => by
    rw [fits, Bool.and_eq_true] at h
    refine ⟨?_, fun hs => ?_⟩
    · rw [if_pos h.1]
      intro c ps c' hps q hq
      obtain ⟨rfl, -⟩ := pure_ok.1 hps
      exact means_of_fitsItems L hreq items path 0 s.item (isMany_item s) h.2 q hq
    · subst hs
      simp [Slot.isMany] at h
  | .node cls places fields, path, s, h => by
    rw [fits] at h
    split at h
    · cases h
    · rename_i slots hslots
      simp only [Bool.and_eq_true, Bool.not_eq_true', Bool.or_eq_true, decide_eq_true_eq] at h
      obtain ⟨⟨⟨hm, hf⟩, hr⟩, hstar⟩ := h
      refine ⟨?_, fun _ => rfl⟩
      rw [if_neg (by simp [hm])]
      refine node_means L (n := ⟨⟨path, cls, places⟩, _⟩) hslots
        (filled_of_fitsFields L hreq fields path slots hf) (fun (hc : cls = "BoolOp") => ?_)
        (hreq.missing.imp_right fun hall name hname => ?_)
        (hreq.missing.imp_right fun hall hc => ?_)
      · exact holds_required hr _ (hc ▸ hreq.operand)
      · exact holds_required hr name (hall.1 _ hname)
      · simp only [hall.2, Bool.true_eq_false, false_or] at hstar
        exact holds_starred (hstar.resolve_left fun hne => hne hc)

theorem means_of_fitsItems (L : Ledger R) (hreq : Suffices R required starred) :
    ∀ (items : List Tree) (path : Path) (i : Nat) (s : Slot), s.isMany = false →
      fitsItems required starred s items = true →
      ∀ q ∈ toItems lines path i items, Means R s.category q
  | [], _, _, _, _, _, q, hq => by cases hq
  | t :: items, path, i, s, hm, h, q, hq => by
    rw [fitsItems, Bool.and_eq_true] at h
    rw [toItems, List.mem_cons] at hq
    rcases hq with rfl | hq
    · have hfills := fills_of_fits L hreq t (path.item i) s h.1
      rw [Fills, if_neg (by simp [hm])] at hfills
      exact hfills.1
    · exact means_of_fitsItems L hreq items path (i + 1) s hm h.2 q hq

theorem filled_of_fitsFields (L : Ledger R) (hreq : Suffices R required starred) :
    ∀ (fields : List (String × Tree)) (path : Path) (slots : Slots),
      fitsFields required starred slots fields = true →
      Filled R slots (toFields lines path fields)
  | [], _, _, _, _, _, hp => by cases hp
  | (key, t) :: fields, path, slots, h, name, p, hp => by
    rw [fitsFields, Bool.and_eq_true] at h
    rw [toFields, List.lookup_cons] at hp
    split at hp
    · rename_i hkey
      obtain rfl := eq_of_beq hkey
      obtain rfl := Option.some.inj hp
      have ht := h.1
      split at ht
      · cases ht
      · rename_i s hs
        exact ⟨s, hs, fills_of_fits L hreq t _ s ht⟩
    · exact filled_of_fitsFields L hreq fields path slots h.2 name p hp

end

/-! ## Whole modules -/

/-- A module that fits is a node whose statements account for their tokens. -/
theorem module_of_fits (L : Ledger R) (lines : List String) {tree : Tree}
    (h : tree.isModule Tree.operated = true) :
    ∃ ref fields start add, toPart lines .root tree = .node ref fields start add ∧
      ref.cls = "Module" ∧ Holds fields "body" (Each (IsStatement R)) := by
  have hfills : Fills R ⟨.module, .one⟩ (toPart lines .root tree) :=
    fills_of_fits L suffices_operated tree _ _ h
  cases tree with
  | leaf v => simp [Tree.isModule, fits, Slot.admits, Category.holds] at h
  | list items => simp [Tree.isModule, fits, Slot.isMany] at h
  | node cls places fields =>
    rw [Tree.isModule, fits] at h
    split at h
    · cases h
    · rename_i hslots
      exact ⟨_, _, _, _, rfl, (sole_of_slots rfl hslots).1, hfills.1⟩

/-- The run on a module that fits accounts for its tokens, up to the gap after the last
    one. -/
theorem run_written (L : Ledger R) {tree : Tree} {tokens : List Token} {m : Markup} {c : Cursor}
    (hm : tree.isModule Tree.operated = true) (h : run lines tree tokens = .ok (m, c)) :
    ∃ c₀, Cursor.start? tokens = some c₀ ∧ Written R c₀ false [m] c true ∧ c.rest ≠ [] := by
  obtain ⟨ref, fields, start, add, hpart, hcls, hbody⟩ := module_of_fits L lines hm
  obtain ⟨c₀, hstart, hw⟩ := run_ok h
  rw [hpart, rootRule, if_pos hcls] at hw
  refine ⟨c₀, hstart, wholeModule_written L hbody hw, ?_⟩
  -- the gap after the last token was written, so there is a token after it
  simp only [wholeModule, betweenStatements, if_true, bind_ok, pure_ok, gapAfter_ok] at hw
  obtain ⟨_, _, -, _, _, ⟨_, _, -, _, _, ⟨⟨_, _, -, hnext, -⟩, rfl⟩, -, rfl⟩, -, rfl⟩ := hw
  intro hnil
  simp [hnil] at hnext

end SourceScribe.Conversion
