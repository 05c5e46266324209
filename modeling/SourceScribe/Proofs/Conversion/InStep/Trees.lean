/-
  Whole trees in step.

  `watched` is a tree as a part with one thing added: a conversion halts at an expression if
  a column counted in bytes would count there.  A column counts in two ways.  An opening
  parenthesis before the recorded place is taken, and the start of the expression decides
  whether a parenthesis closes.

  `watched_matches`: as long as it does not halt, the conversion of a tree goes in step with
  the conversion of any tree that matches.
-/
import SourceScribe.Proofs.Conversion.InStep.Statements
import SourceScribe.Proofs.Conversion.Sorted
import SourceScribe.Proofs.Tree.Lookup

namespace SourceScribe

/-! ## Trees that match -/

variable (σ : Likeness)

mutual

/-- Trees of the same shape, with scalars and places that match.  The level of an import is
    a scalar. -/
inductive Tree.Matches : Tree → Tree → Prop where
  | leaf {v v' : Scalar} (h : v.Matches σ v') : Tree.Matches (.leaf v) (.leaf v')
  | list {items items' : List Tree} (h : List.Forall₂ Tree.Matches items items') :
      Tree.Matches (.list items) (.list items')
  | node {cls : String} {places places' : List Int} {fields fields' : List (String × Tree)}
      (hlength : places.length = places'.length)
      (hplace : Option.Rel σ.place (Tree.startOf? places) (Tree.startOf? places'))
      (hlevel : cls = "ImportFrom" → ∀ t, fields.lookup "level" = some t → ∃ v, t = .leaf v)
      (hfields : List.Forall₂ Field.Matches fields fields') :
      Tree.Matches (.node cls places fields) (.node cls places' fields')

/-- Fields of the same name that hold trees that match. -/
inductive Field.Matches : String × Tree → String × Tree → Prop where
  | mk {name : String} {t t' : Tree} (h : Tree.Matches t t') : Field.Matches (name, t) (name, t')

end

/-- Nothing matches but what is the same. -/
def Likeness.same : Likeness where
  letter := (· = ·)
  place := (· = ·)
  refl := fun _ => rfl
  place_lt := by rintro p _ q _ rfl rfl; rfl

variable {σ}

/-- Fields of the same name that hold trees so related. -/
abbrev Field.Rel {α β : Type} (R : α → β → Prop) (f : String × α) (f' : String × β) : Prop :=
  f.1 = f'.1 ∧ R f.2 f'.2

theorem lookup_rel {α β : Type} {R : α → β → Prop} {fields : List (String × α)}
    {fields' : List (String × β)} (h : List.Forall₂ (Field.Rel R) fields fields') (name : String) :
    Option.Rel R (fields.lookup name) (fields'.lookup name) := by
  induction h with
  | nil => exact .none
  | @cons f f' _ _ hf _ ih =>
    obtain ⟨key, t⟩ := f
    obtain ⟨_, t'⟩ := f'
    obtain ⟨rfl, ht⟩ := hf
    rw [List.lookup_cons, List.lookup_cons]
    cases name == key with
    | true => exact .some ht
    | false => exact ih

theorem rel_map {α β γ δ : Type} {R : α → β → Prop} {S : γ → δ → Prop} {f : α → γ} {g : β → δ}
    {o : Option α} {o' : Option β} (h : Option.Rel R o o') (hfg : ∀ a b, R a b → S (f a) (g b)) :
    Option.Rel S (o.map f) (o'.map g) := by
  cases h with
  | none => exact .none
  | some h => exact .some (hfg _ _ h)

theorem eq_of_rel {α : Type} {o o' : Option α} (h : Option.Rel (· = ·) o o') : o = o' := by
  cases h with
  | none => rfl
  | some h => exact congrArg some h

theorem forall₂_of_mem {α β : Type} {R S : α → β → Prop} {l : List α} {l' : List β}
    (h : List.Forall₂ R l l') (hmem : ∀ a ∈ l, ∀ b, R a b → S a b) : List.Forall₂ S l l' := by
  have hboth := (List.forall₂_and_left l l').2 ⟨hmem, h⟩
  exact hboth.imp fun a b hab => hab.1 b hab.2

/-- What holds of leaves that match, and of lists and nodes that match if it holds of all
    their items or fields, holds of all trees that match. -/
theorem Tree.Matches.inductionOn {P : Tree → Tree → Prop}
    (hleaf : ∀ {v v' : Scalar}, v.Matches σ v' → P (.leaf v) (.leaf v'))
    (hlist : ∀ {items items'}, List.Forall₂ P items items' → P (.list items) (.list items'))
    (hnode : ∀ {cls places places' fields fields'},
      Tree.Matches σ (.node cls places fields) (.node cls places' fields') →
        List.Forall₂ (Field.Rel P) fields fields' →
          P (.node cls places fields) (.node cls places' fields'))
    {t t' : Tree} (h : t.Matches σ t') : P t t' := by
  induction t using Tree.inductionOn generalizing t' with
  | hleaf v =>
    cases h with
    | leaf hv => exact hleaf hv
  | hlist items ih =>
    cases h with
    | list hitems => exact hlist (forall₂_of_mem hitems fun t ht t' h => ih t ht h)
  | hnode cls places fields ih =>
    have h' := h
    cases h with
    | node _ _ _ hfields =>
      refine hnode h' (forall₂_of_mem hfields fun f hf f' h => ?_)
      cases h with
      | mk h => exact ⟨rfl, ih _ hf h⟩

theorem forall₂_self {α β : Type} {R : α → α → Prop} {l : List α} {l' : List β}
    (h : List.Forall₂ (fun a _ => R a a) l l') : List.Forall₂ R l l := by
  induction h with
  | nil => exact .nil
  | cons ha _ ih => exact .cons ha ih

/-- A tree that matches some tree is the same as itself. -/
theorem Tree.Matches.same {t t' : Tree} (h : t.Matches σ t') : t.Matches .same t := by
  refine Tree.Matches.inductionOn (P := fun t _ => t.Matches .same t) ?_ ?_ ?_ h
  · intro v _ _
    exact .leaf (.refl v)
  · intro items _ ih
    exact .list (forall₂_self ih)
  · intro cls places _ fields _ h ih
    cases h with
    | node _ _ hlevel _ =>
      have hplace := Conversion.rel_refl (R := Likeness.same.place) (fun _ => rfl)
        (Tree.startOf? places)
      exact .node rfl hplace hlevel (forall₂_self (ih.imp fun f _ hf => .mk hf.2))

theorem isPlacedItems_eq {items items' : List Tree}
    (h : List.Forall₂ (fun t t' => t.Matches σ t' ∧ t.isPlaced = t'.isPlaced) items items') :
    Tree.isPlacedItems items = Tree.isPlacedItems items' := by
  induction h with
  | nil => rfl
  | cons ht _ ih =>
    obtain ⟨hmatch, hplaced⟩ := ht
    cases hmatch <;> simp_all [Tree.isPlacedItems]

theorem isPlacedFields_eq {fields fields' : List (String × Tree)}
    (h : List.Forall₂ (Field.Rel fun t t' => t.Matches σ t' ∧ t.isPlaced = t'.isPlaced)
      fields fields') : Tree.isPlacedFields fields = Tree.isPlacedFields fields' := by
  induction h with
  | nil => rfl
  | cons ht _ ih => rw [Tree.isPlacedFields, Tree.isPlacedFields, ht.2.2, ih]

theorem Tree.Matches.isPlaced {t t' : Tree} (h : t.Matches σ t') : t.isPlaced = t'.isPlaced := by
  -- whether an item is a list has to be known too
  refine (Tree.Matches.inductionOn (P := fun t t' => t.Matches σ t' ∧ t.isPlaced = t'.isPlaced)
    ?_ ?_ ?_ h).2
  · intro v v' hv
    exact ⟨.leaf hv, by rw [Tree.isPlaced, Tree.isPlaced]⟩
  · intro items items' ih
    refine ⟨.list (ih.imp fun _ _ => And.left), ?_⟩
    rw [Tree.isPlaced, Tree.isPlaced, isPlacedItems_eq ih]
  · intro cls places places' fields fields' h ih
    refine ⟨h, ?_⟩
    cases h with
    | node hlength => rw [Tree.isPlaced, Tree.isPlaced, hlength, isPlacedFields_eq ih]

namespace Conversion

open Scan Markup

/-! ## Nodes -/

section
variable {n n' : Site}

theorem expressionRule?_inStep (h : n.Matches σ n') :
    Option.Rel (AddsInStep σ) (expressionRule? n) (expressionRule? n') := by
  rw [expressionRule?, expressionRule?, ← h.cls]
  generalize n.ref.cls = cls
  split
  · exact .some numberRule_inStep
  · exact .some (stringRule_inStep h)
  · exact .some (stringRule_inStep h)
  · exact .some (tupleRule_inStep h)
  · exact .some (listRule_inStep h)
  · exact .some (listRule_inStep h)
  · exact .some (dictRule_inStep h)
  · exact .some (nameRule_inStep h)
  · exact .some nameConstantRule_inStep
  · exact .some ellipsisRule_inStep
  · exact .some (starredRule_inStep h)
  · exact .some (attributeRule_inStep h)
  · exact .some (subscriptRule_inStep h)
  · exact .some (yieldRule_inStep h)
  · exact .some (yieldRule_inStep h)
  · exact .some (binOpRule_inStep h)
  · exact .some (boolOpRule_inStep h)
  · exact .some (unaryOpRule_inStep h)
  · exact .some (compareRule_inStep h)
  · exact .some (callRule_inStep h)
  · exact .some (ifExpRule_inStep h)
  · exact .some (comprehensionRule_inStep h)
  · exact .some (comprehensionRule_inStep h)
  · exact .some (comprehensionRule_inStep h)
  · exact .some (comprehensionRule_inStep h)
  · exact .some (lambdaRule_inStep h)
  · simp [*]

theorem statementRule?_inStep (h : n.Matches σ n')
    (hlevel : n.ref.cls = "ImportFrom" →
      ∀ part, n.fields.lookup "level" = some part → ∃ v, part = .leaf v) :
    Option.Rel (InStep σ (Markup.Matches σ)) (statementRule? n) (statementRule? n') := by
  rw [statementRule?, statementRule?, ← h.cls]
  generalize n.ref.cls = cls at hlevel
  split
  · exact .some (exprRule_inStep h)
  · exact .some (wordRule_inStep h)
  · exact .some (wordRule_inStep h)
  · exact .some (wordRule_inStep h)
  · exact .some (assertRule_inStep h)
  · exact .some (assignRule_inStep h)
  · exact .some (deleteRule_inStep h)
  · exact .some (declareRule_inStep h)
  · exact .some (declareRule_inStep h)
  · exact .some (augAssignRule_inStep h)
  · exact .some (importRule_inStep h)
  · exact .some (importFromRule_inStep h (hlevel rfl))
  · exact .some (returnRule_inStep h)
  · exact .some (functionDefRule_inStep h)
  · exact .some (classDefRule_inStep h)
  · exact .some (conditionRule_inStep h)
  · exact .some (conditionRule_inStep h)
  · exact .some (forRule_inStep h)
  · exact .some (raiseRule_inStep h)
  · exact .some (tryRule_inStep h)
  · exact .some (withRule_inStep h)
  · simp [*]

theorem otherRule?_inStep (h : n.Matches σ n') :
    Option.Rel (AddsInStep σ) (otherRule? n) (otherRule? n') := by
  rw [otherRule?, otherRule?, ← h.cls]
  generalize n.ref.cls = cls
  split
  · exact .some fun _ _ hparent => (moduleRule_inStep h).bind fun _ _ _ => .pure hparent
  · exact .some (indexRule_inStep h)
  · exact .some (sliceRule_inStep h)
  · exact .some (extSliceRule_inStep h)
  · exact .some (exceptHandlerRule_inStep h)
  · simp [*]

/-- Nodes that match, if an expression starts at the same place in both and a parenthesis
    before it is on the same side. -/
theorem addNode_outcome {start start' : Except Cause Position} {c c' : Cursor}
    {parent parent' : List Markup} (h : n.Matches σ n')
    (hlevel : n.ref.cls = "ImportFrom" →
      ∀ part, n.fields.lookup "level" = some part → ∃ v, part = .leaf v)
    (hc : c.Matches σ c')
    (hexpression : (expressionRule? n).isSome = true →
      start = start' ∧ SameSide c n.ref.start? n'.ref.start?)
    (hparent : AllMatch σ parent parent') :
    Outcome σ (AllMatch σ) (addNode start n parent c) (addNode start' n' parent' c') := by
  have hexpressions := expressionRule?_inStep h
  have hone {rule : Into} : expressionRule? n = some rule → rule.AddsOne :=
    expressionRule?_addsOne
  have hone' {rule : Into} : expressionRule? n' = some rule → rule.AddsOne :=
    expressionRule?_addsOne
  have hstatements := statementRule?_inStep h hlevel
  have hothers := otherRule?_inStep h
  rw [addNode, addNode]
  generalize expressionRule? n = e, expressionRule? n' = e' at hexpressions hone hone' hexpression
  generalize statementRule? n = s, statementRule? n' = s' at hstatements
  generalize otherRule? n = o, otherRule? n' = o' at hothers
  cases hexpressions with
  | some he =>
    obtain ⟨rfl, hside⟩ := hexpression rfl
    exact (enclose_outcome (hone rfl) (hone' rfl) hc h.place h.path hside start he hparent).within
  | none =>
    cases hstatements with
    | some hs => exact (afterGap_inStep hs parent parent' hparent).within c c' hc
    | none =>
      cases hothers with
      | some ho => exact (ho parent parent' hparent).within c c' hc
      | none => exact .fail

end

/-! ## Watched trees -/

/-- The node at the same place with its column in characters. -/
def inCharacters (lines : List String) (r : NodeRef) : NodeRef :=
  match recordedStart lines r with
  | .ok p => { r with places := [p.row, p.column] }
  | .error _ => r

/-- Where the text of a node starts, if the place of a binary operation is in characters as
    all the others are. -/
def startInCharacters (lines : List String) (r : NodeRef) (fields : List (String × Part)) :
    Except Cause Position :=
  startOfNode lines (if r.cls = "BinOp" then inCharacters lines r else r) fields

/-- Whether it makes no difference at `r` that its place is in bytes: `start` is where the
    text starts, `start'` where it starts if all columns are in characters. -/
def Indifferent (lines : List String) (r : NodeRef) (start start' : Except Cause Position)
    (c : Cursor) : Prop :=
  start = start' ∧ SameSide c r.start? (recordedStart lines r).toOption

instance (c : Cursor) (place place' : Option Position) : Decidable (SameSide c place place') :=
  inferInstanceAs (Decidable (∀ t ∈ c.rest.head?, t.isOp .lpar = true → ∀ p ∈ place, ∀ p' ∈ place',
    (t.start < p ↔ t.start < p')))

instance (lines : List String) (r : NodeRef) (start start' : Except Cause Position) (c : Cursor) :
    Decidable (Indifferent lines r start start' c) :=
  inferInstanceAs (Decidable (_ ∧ _))

/-- Follows the rule of a node, but halts at an expression where bytes make a difference. -/
def watchNode (lines : List String) (start start' : Except Cause Position) (n : Site) : Into :=
  fun parent c =>
    if (expressionRule? n).isSome → Indifferent lines n.ref start start' c then
      addNode start n parent c
    else Scan.fail .rowWithoutColumn c

mutual

/-- The tree at `path` as a part that is watched.  It starts where it does if all columns
    are in characters. -/
def watched (lines : List String) (path : Path) : Tree → Part
  | .leaf v => .leaf v
  | .list items => .list (watchedItems lines path 0 items)
  | .node cls places fields =>
    let ref : NodeRef := ⟨path, cls, places⟩
    let parts := watchedFields lines path fields
    let start := startOfNode lines ref (toFields lines path fields)
    let start' := startInCharacters lines ref parts
    .node ref parts start' (watchNode lines start start' ⟨ref, parts⟩)

/-- The fields of the node at `path` as parts that are watched. -/
def watchedFields (lines : List String) (path : Path) :
    List (String × Tree) → List (String × Part)
  | [] => []
  | (name, t) :: fields =>
    (name, watched lines (path.field name) t) :: watchedFields lines path fields

/-- The items from index `i` on of the list at `path` as parts that are watched. -/
def watchedItems (lines : List String) (path : Path) (i : Nat) : List Tree → List Part
  | [] => []
  | t :: items => watched lines (path.item i) t :: watchedItems lines path (i + 1) items

end

theorem lookup_watchedFields (lines : List String) (path : Path) (fields : List (String × Tree))
    (name : String) : (watchedFields lines path fields).lookup name =
      (fields.lookup name).map (watched lines (path.field name)) :=
  Tree.lookup_of_fieldwise (f := fun name => watched lines (path.field name)) (by rw [watchedFields])
    (fun _ _ _ => by rw [watchedFields]) fields name

theorem watchedItems_rel {lines lines' : List String} {path : Path} {items items' : List Tree}
    (h : List.Forall₂ (fun t t' => ∀ path,
      (watched lines path t).Matches σ (toPart lines' path t')) items items') (i : Nat) :
    List.Forall₂ (Part.Matches σ) (watchedItems lines path i items)
      (toItems lines' path i items') := by
  induction h generalizing i with
  | nil =>
    rw [watchedItems, toItems]
    exact .nil
  | cons ht _ ih =>
    rw [watchedItems, toItems]
    exact .cons (ht _) (ih _)

theorem watchNode_inStep {lines : List String} {start inCharacters start' : Except Cause Position}
    {n n' : Site} (h : n.Matches σ n')
    (hlevel : n.ref.cls = "ImportFrom" →
      ∀ part, n.fields.lookup "level" = some part → ∃ v, part = .leaf v)
    (hexpression : ∀ c, Indifferent lines n.ref start inCharacters c →
      start = start' ∧ SameSide c n.ref.start? n'.ref.start?) :
    AddsInStep σ (watchNode lines start inCharacters n) (addNode start' n') := by
  intro parent parent' hparent c c' hc
  rw [watchNode]
  split
  · rename_i hcalm
    exact addNode_outcome h hlevel hc (fun he => hexpression c (hcalm he)) hparent
  · exact .halt rfl

/-- **Trees in step.**  A watched tree and a tree that matches it, over the same lines or
    others. -/
theorem watched_matches {lines lines' : List String}
    (hside : ∀ (r r' : NodeRef) c, Option.Rel σ.place r.start? r'.start? →
      SameSide c r.start? (recordedStart lines r).toOption → SameSide c r.start? r'.start?)
    (hstart : ∀ path {t t' : Tree}, t.Matches σ t' →
      (toPart lines path t).start = (watched lines path t).start →
        (toPart lines path t).start = (toPart lines' path t').start)
    {t t' : Tree} (h : t.Matches σ t') (path : Path) :
    (watched lines path t).Matches σ (toPart lines' path t') := by
  refine Tree.Matches.inductionOn
    (P := fun t t' => ∀ path, (watched lines path t).Matches σ (toPart lines' path t'))
    ?_ ?_ ?_ h path
  · intro v v' hv path
    rw [watched, toPart]
    exact .leaf hv
  · intro items items' ih path
    rw [watched, toPart]
    exact .list (watchedItems_rel ih 0)
  · intro cls places places' fields fields' h ih path
    have hstarts := hstart path h
    cases h with
    | node _ hplace hlevel _ =>
      have hfields (name : String) : Option.Rel (Part.Matches σ)
          ((watchedFields lines path fields).lookup name)
          ((toFields lines' path fields').lookup name) := by
        rw [lookup_watchedFields, lookup_toFields]
        exact rel_map (lookup_rel ih name) fun _ _ ht => ht _
      rw [watched, toPart] at hstarts ⊢
      rw [toPart] at hstarts
      refine .node rfl hplace hfields (watchNode_inStep ⟨rfl, rfl, hplace, hfields⟩ ?_ ?_) rfl
      · intro hcls part hpart
        rw [lookup_watchedFields, Option.map_eq_some_iff] at hpart
        obtain ⟨t, ht, rfl⟩ := hpart
        obtain ⟨v, rfl⟩ := hlevel hcls t ht
        exact ⟨v, by rw [watched]⟩
      · intro c hcalm
        exact ⟨hstarts hcalm.1, hside _ _ c hplace hcalm.2⟩

/-! ## Whole modules -/

theorem rootRule_inStep {p q : Part} (h : p.Matches σ q) :
    InStep σ (Markup.Matches σ) (rootRule p) (rootRule q) := by
  have hfails {p q : Part} (h : p.Matches σ q) :
      InStep σ (Markup.Matches σ) (noModule p) (noModule q) :=
    h.write.bind fun _ _ _ => (InStep.betweenStatements true).bind fun _ _ _ => .fail
  have h' := h
  cases h with
  | @node ref ref' fields fields' _ _ _ _ hcls hplace hfields _ hpath =>
    have hsite : Site.Matches σ ⟨ref, fields⟩ ⟨ref', fields'⟩ := ⟨hpath, hcls, hplace, hfields⟩
    rw [rootRule, rootRule, hcls]
    refine .ite ?_ (hfails h')
    exact (moduleRule_inStep hsite).within.bind fun _ _ hms =>
      (InStep.betweenStatements true).bind fun _ _ hafter =>
        .pure (.bare (hms.append (.one (.text hafter))))
  | leaf | letter | list => exact hfails h'

end Conversion

end SourceScribe
