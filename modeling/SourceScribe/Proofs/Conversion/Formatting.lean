/-
  Formatting does not change the structure of the markup.

  Elements, their attributes and their order come from the tree.  What comes from the
  tokens is text, and the number of `s` elements in a string.  So any two runs on one tree
  that succeed give markup of the same skeleton (`skeleton_eq_skeleton`), over any sources
  and any tokens, fitting or not.

  `Tree.isSteady` leaves out the two cases in which the tokens decide more than that.
-/
import SourceScribe.Proofs.Conversion.Conservation
import SourceScribe.Proofs.Conversion.Skeleton.Statements

namespace SourceScribe

namespace Tree

/-- Whether there is at most one statement after `else`. -/
def hasSoleElse (fields : List (String × Tree)) : Bool :=
  match fields.lookup "orelse" with
  | some (list items) => items.length ≤ 1
  | _ => true

mutual

/-- There is no class definition in the tree, and no `if` or `while` with several
    statements after `else`. -/
def isSteady : Tree → Bool
  | leaf _ => true
  | node cls _ fields =>
    cls ≠ "ClassDef" && (cls ∉ ["If", "While"] || hasSoleElse fields) && isSteadyFields fields
  | list items => isSteadyItems items

/-- `isSteady` of all fields. -/
def isSteadyFields : List (String × Tree) → Bool
  | [] => true
  | (_, t) :: fields => t.isSteady && isSteadyFields fields

/-- `isSteady` of all items. -/
def isSteadyItems : List Tree → Bool
  | [] => true
  | t :: items => t.isSteady && isSteadyItems items

end

end Tree

namespace Conversion

open Scan Markup

/-! ## Nodes -/

section
variable {n n' : Site}

theorem expressionRule?_agrees (h : n.Alike n') :
    Option.Rel AddsSimilar (expressionRule? n) (expressionRule? n') := by
  rw [expressionRule?, expressionRule?, ← congrArg NodeRef.cls h.ref]
  generalize n.ref.cls = cls
  split
  · exact .some numberRule_agrees
  · exact .some (stringRule_agrees h)
  · exact .some (stringRule_agrees h)
  · exact .some (tupleRule_agrees h)
  · exact .some (listRule_agrees h)
  · exact .some (listRule_agrees h)
  · exact .some (dictRule_agrees h)
  · exact .some (nameRule_agrees h)
  · exact .some nameConstantRule_agrees
  · exact .some ellipsisRule_agrees
  · exact .some (starredRule_agrees h)
  · exact .some (attributeRule_agrees h)
  · exact .some (subscriptRule_agrees h)
  · exact .some (yieldRule_agrees h)
  · exact .some (yieldRule_agrees h)
  · exact .some (binOpRule_agrees h)
  · exact .some (boolOpRule_agrees h)
  · exact .some (unaryOpRule_agrees h)
  · exact .some (compareRule_agrees h)
  · exact .some (callRule_agrees h)
  · exact .some (ifExpRule_agrees h)
  · exact .some (comprehensionRule_agrees h)
  · exact .some (comprehensionRule_agrees h)
  · exact .some (comprehensionRule_agrees h)
  · exact .some (comprehensionRule_agrees h)
  · exact .some (lambdaRule_agrees h)
  · simp [*]

theorem statementRule?_agrees (h : n.Alike n') (hclass : n.ref.cls ≠ "ClassDef")
    (hsole : n.ref.cls ∈ ["If", "While"] →
      ∀ items, n.fields.lookup "orelse" = some (.list items) → items.length ≤ 1) :
    Option.Rel (Agrees SimilarOne) (statementRule? n) (statementRule? n') := by
  rw [statementRule?, statementRule?, ← congrArg NodeRef.cls h.ref]
  generalize n.ref.cls = cls at hclass hsole
  split
  · exact .some (exprRule_agrees h)
  · exact .some (wordRule_agrees h)
  · exact .some (wordRule_agrees h)
  · exact .some (wordRule_agrees h)
  · exact .some (assertRule_agrees h)
  · exact .some (assignRule_agrees h)
  · exact .some (deleteRule_agrees h)
  · exact .some (declareRule_agrees h)
  · exact .some (declareRule_agrees h)
  · exact .some (augAssignRule_agrees h)
  · exact .some (importRule_agrees h)
  · exact .some (importFromRule_agrees h)
  · exact .some (returnRule_agrees h)
  · exact .some (functionDefRule_agrees h)
  · exact absurd rfl hclass
  · exact .some (conditionRule_agrees h (hsole (by decide)))
  · exact .some (conditionRule_agrees h (hsole (by decide)))
  · exact .some (forRule_agrees h)
  · exact .some (raiseRule_agrees h)
  · exact .some (tryRule_agrees h)
  · exact .some (withRule_agrees h)
  · simp [*]

theorem otherRule?_agrees (h : n.Alike n') :
    Option.Rel AddsSimilar (otherRule? n) (otherRule? n') := by
  rw [otherRule?, otherRule?, ← congrArg NodeRef.cls h.ref]
  generalize n.ref.cls = cls
  split
  · exact .some fun _ _ hparent => .skip fun _ _ => .pure hparent
  · exact .some (indexRule_agrees h)
  · exact .some (sliceRule_agrees h)
  · exact .some (extSliceRule_agrees h)
  · exact .some (exceptHandlerRule_agrees h)
  · simp [*]

/-- Parentheses around an expression are text. -/
theorem enclose_skeleton {r : NodeRef} {start : Except Cause Position} {rule : Into}
    (hrule : rule.AddsOne) {c c' : Cursor} {parent ms : List Markup}
    (h : enclose r start rule parent c = .ok ms c') :
    ∃ c₁ fragment c₂, rule [] c₁ = .ok fragment c₂ ∧
      skeletons ms = skeletons parent ++ skeletons fragment := by
  obtain ⟨c₁, e, c₂, -, he, ⟨rfl, -, -⟩ | ⟨d, ds, right, -, -, -, rfl⟩⟩ := enclose_ok hrule h
  · exact ⟨c₁, [e], c₂, he, by simp⟩
  · exact ⟨c₁, [e], c₂, he, by simp⟩

theorem enclose_agrees {r r' : NodeRef} {start start' : Except Cause Position}
    {rule rule' : Into} (hone : rule.AddsOne) (hone' : rule'.AddsOne)
    (h : AddsSimilar rule rule') : AddsSimilar (enclose r start rule) (enclose r' start' rule') := by
  intro parent parent' hparent c ms c₁ c' ms' c₁' hms hms'
  obtain ⟨_, fragment, _, hf, hskeleton⟩ := enclose_skeleton hone hms
  obtain ⟨_, fragment', _, hf', hskeleton'⟩ := enclose_skeleton hone' hms'
  rw [Similar, hskeleton, hskeleton', hparent, h.alone _ _ _ _ _ _ hf hf']

/-- A node over two sources, wherever its text starts in them. -/
theorem addNode_agrees (h : n.Alike n') (start start' : Except Cause Position)
    (hclass : n.ref.cls ≠ "ClassDef")
    (hsole : n.ref.cls ∈ ["If", "While"] →
      ∀ items, n.fields.lookup "orelse" = some (.list items) → items.length ≤ 1) :
    AddsSimilar (addNode start n) (addNode start' n') := by
  intro parent parent' hparent
  have hexpression := expressionRule?_agrees h
  have hone {rule : Into} : expressionRule? n = some rule → rule.AddsOne :=
    expressionRule?_addsOne
  have hone' {rule : Into} : expressionRule? n' = some rule → rule.AddsOne :=
    expressionRule?_addsOne
  have hstatement := statementRule?_agrees h hclass hsole
  have hother := otherRule?_agrees h
  rw [addNode, addNode]
  generalize expressionRule? n = e, expressionRule? n' = e' at hexpression hone hone'
  generalize statementRule? n = s, statementRule? n' = s' at hstatement
  generalize otherRule? n = o, otherRule? n' = o' at hother
  cases hexpression with
  | some he => exact (enclose_agrees (hone rfl) (hone' rfl) he parent parent' hparent).within
  | none =>
    cases hstatement with
    | some hs => exact (afterGap_agrees hs parent parent' hparent).within
    | none =>
      cases hother with
      | some ho => exact (ho parent parent' hparent).within
      | none => exact .fail_left

end

/-! ## Trees -/

variable {lines lines' : List String}

theorem length_toItems (path : Path) (i : Nat) (items : List Tree) :
    (toItems lines path i items).length = items.length := by
  induction items generalizing i with
  | nil => rfl
  | cons t items ih => rw [toItems, List.length_cons, List.length_cons, ih]

theorem sole_of_hasSoleElse {path : Path} {fields : List (String × Tree)}
    (h : Tree.hasSoleElse fields = true) (items : List Part)
    (hitems : (toFields lines path fields).lookup "orelse" = some (.list items)) :
    items.length ≤ 1 := by
  rw [lookup_toFields, Option.map_eq_some_iff] at hitems
  obtain ⟨t, ht, hpart⟩ := hitems
  rw [Tree.hasSoleElse, ht] at h
  cases t with
  | list ts =>
    rw [toPart] at hpart
    obtain rfl := Part.list.inj hpart
    rw [length_toItems]
    simpa using h
  | leaf | node => rw [toPart] at hpart; cases hpart

mutual

/-- **A steady tree gives parts that are alike over any two sources.** -/
theorem alike_toPart : ∀ (t : Tree) (path : Path), t.isSteady = true →
    (toPart lines path t).Alike (toPart lines' path t)
  | .leaf v, path, _ => by
    rw [toPart, toPart]
    exact .leaf v
  | .list items, path, h => by
    rw [toPart, toPart]
    exact .list (alike_toItems items path 0 h)
  | .node cls places fields, path, h => by
    simp only [Tree.isSteady, Bool.and_eq_true, Bool.or_eq_true, decide_eq_true_eq] at h
    obtain ⟨⟨hclass, helse⟩, hsteady⟩ := h
    have hfields := alike_toFields fields path hsteady
    rw [toPart, toPart]
    refine .node hfields (addNode_agrees (.of_fields hfields) _ _ hclass fun hcls => ?_)
    exact sole_of_hasSoleElse (helse.resolve_left fun hnot => hnot hcls)

theorem alike_toFields : ∀ (fields : List (String × Tree)) (path : Path),
    Tree.isSteadyFields fields = true → ∀ name, Option.Rel Part.Alike
      ((toFields lines path fields).lookup name) ((toFields lines' path fields).lookup name)
  | [], _, _, _ => .none
  | (key, t) :: fields, path, h, name => by
    rw [Tree.isSteadyFields, Bool.and_eq_true] at h
    rw [toFields, toFields, List.lookup_cons, List.lookup_cons]
    cases name == key with
    | true => exact .some (alike_toPart t _ h.1)
    | false => exact alike_toFields fields path h.2 name

theorem alike_toItems : ∀ (items : List Tree) (path : Path) (i : Nat),
    Tree.isSteadyItems items = true →
      List.Forall₂ Part.Alike (toItems lines path i items) (toItems lines' path i items)
  | [], _, _, _ => .nil
  | t :: items, path, i, h => by
    rw [Tree.isSteadyItems, Bool.and_eq_true] at h
    rw [toItems, toItems]
    exact .cons (alike_toPart t _ h.1) (alike_toItems items path (i + 1) h.2)

end

/-! ## Whole modules -/

theorem rootRule_agrees {p q : Part} (h : p.Alike q) :
    Agrees SimilarOne (rootRule p) (rootRule q) := by
  have hfails (p q : Part) : Agrees SimilarOne (noModule p) (noModule q) :=
    .skip fun _ _ => .skip fun _ _ => .fail_left
  cases h with
  | node hfields =>
    refine .ite ?_ (hfails _ _)
    refine (moduleRule_agrees (.of_fields hfields)).within.bind fun ms ms' hms => ?_
    exact .skip fun _ _ => .pure (by simp [SimilarOne, hms])
  | leaf | letter | list => exact hfails _ _

/-- **Formatting never changes the structure.**  If two conversions of a steady tree both
    succeed, over whatever sources and tokens, their markup has the same elements with the
    same attributes, in the same order and nested in the same way.  That holds of a node in
    the tree at any cursor, and of the whole tree. -/
theorem skeleton_eq_skeleton {tree : Tree} (hsteady : tree.isSteady = true) :
    (∀ path c ms c₁ c' ms' c₁', (toPart lines path tree).write c = .ok ms c₁ →
      (toPart lines' path tree).write c' = .ok ms' c₁' → skeletons ms = skeletons ms') ∧
    (∀ tokens m c tokens' m' c', run lines tree tokens = .ok (m, c) →
      run lines' tree tokens' = .ok (m', c') → m.skeleton = m'.skeleton) := by
  constructor
  · intro path
    exact (alike_toPart tree path hsteady).write
  · intro tokens m c tokens' m' c' h h'
    obtain ⟨c₀, -, hroot⟩ := run_ok h
    obtain ⟨c₀', -, hroot'⟩ := run_ok h'
    exact rootRule_agrees (alike_toPart tree .root hsteady) _ _ _ _ _ _ hroot hroot'

/-- `if a: pass` with `elif b: pass` after it. -/
def elifTree : Tree :=
  let name (id : String) (places : List Int) : Tree :=
    .node "Name" places [("id", .leaf (.str id)), ("ctx", .node "Load" [] [])]
  let pass (places : List Int) : Tree := .list [.node "Pass" places []]
  .node "Module" [] [("body", .list [.node "If" [1, 0] [("test", name "a" [1, 5]),
    ("body", pass [1, 8]), ("orelse", .list [.node "If" [2, 5] [("test", name "b" [2, 5]),
      ("body", pass [2, 8]), ("orelse", .list [])]])]])]

/-- `if   a: pass` and `elif b: pass`. -/
def elifTokens : List Token :=
  let first := Token.onRow 1 "if   a: pass\n"
  let second := Token.onRow 2 "elif b: pass\n"
  [⟨.encoding, "utf-8", ⟨0, 0⟩, ⟨0, 0⟩, ""⟩,
    first 0 .name "if", first 5 .name "a", first 6 .operator ":", first 8 .name "pass",
    first 12 .newline "\n",
    second 0 .name "elif", second 5 .name "b", second 6 .operator ":", second 8 .name "pass",
    second 12 .newline "\n", Token.onRow 3 "" 0 .endMarker ""]

/-- The same with parentheses, a comment, and a condition of its own after `else`. -/
def elseTokens : List Token :=
  let first := Token.onRow 1 "if ( a ):pass # c\n"
  let second := Token.onRow 2 "else:\n"
  let third := Token.onRow 3 " if b:pass\n"
  [⟨.encoding, "utf-8", ⟨0, 0⟩, ⟨0, 0⟩, ""⟩,
    first 0 .name "if", first 3 .operator "(", first 5 .name "a", first 7 .operator ")",
    first 8 .operator ":", first 9 .name "pass", first 14 .comment "# c", first 17 .newline "\n",
    second 0 .name "else", second 4 .operator ":", second 5 .newline "\n",
    third 0 .indent " ", third 1 .name "if", third 4 .name "b", third 5 .operator ":",
    third 6 .name "pass", third 10 .newline "\n",
    Token.onRow 4 "" 0 .dedent "", Token.onRow 4 "" 0 .endMarker ""]

theorem elifTree_skeleton_eq_skeleton : ∃ m c m' c',
    elifTree.isSteady = true ∧
      run ["if   a: pass\n", "elif b: pass\n"] elifTree elifTokens = .ok (m, c) ∧
      run ["if ( a ):pass # c\n", "else:\n", " if b:pass\n"] elifTree elseTokens = .ok (m', c') ∧
      m.content = "if   a: pass\nelif b: pass\n" ∧
      m'.content = "if ( a ):pass # c\nelse:\n if b:pass\n" ∧ m.skeleton = m'.skeleton := by
  have hsteady : elifTree.isSteady = true := by decide
  obtain ⟨m, c, h, hcontent⟩ := exists_run ["if   a: pass\n", "elif b: pass\n"] elifTree elifTokens
    (fun m _ => m.content = "if   a: pass\nelif b: pass\n") (by decide +kernel)
  obtain ⟨m', c', h', hcontent'⟩ := exists_run
    ["if ( a ):pass # c\n", "else:\n", " if b:pass\n"] elifTree elseTokens
    (fun m _ => m.content = "if ( a ):pass # c\nelse:\n if b:pass\n") (by decide +kernel)
  rw [decide_eq_true_eq] at hcontent hcontent'
  exact ⟨m, c, m', c', hsteady, h, h', hcontent, hcontent',
    (skeleton_eq_skeleton hsteady).2 _ _ _ _ _ _ h h'⟩

end Conversion

end SourceScribe
