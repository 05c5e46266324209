/-
  An expression adds one element to its parent.

  The rule of an expression adds what it writes to a fragment.  When the rule is done, the
  children of the fragment are moved to the parent one by one, by their numbers, and each that
  goes closes up the others behind it.  So a child after another would be passed over
  (`Move.fragment_run_eq_nil_iff`); but the rule of every class adds just one element
  (`expressionRule?_gives`), and the fragment is moved whole (`enclose_eq`).

  `expression_adds_one_element` says what the parent gets: the element, alone or between the
  texts of one parenthesis that was kept aside and of the one that closes it.
-/
import SourceScribe.Proofs.Conversion.Steps
import SourceScribe.Proofs.Token.Spelling

namespace SourceScribe.Conversion

open Scan Markup

/-! ## Moving children -/

namespace Move

variable (m : Move)

theorem length_fragment_step (i : Nat) :
    (m.step i).fragment.length = m.fragment.length - if i < m.fragment.length then 1 else 0 := by
  by_cases hi : i < m.fragment.length
  · rw [step, List.getElem?_eq_getElem hi, if_pos hi]
    exact List.length_eraseIdx_of_lt hi
  · rw [step, List.getElem?_eq_none (Nat.le_of_not_lt hi), if_neg hi]
    rfl

/-- The numbers run ahead of the children that are left until half of these have gone. -/
theorem length_fragment_steps (k : Nat) :
    (m.steps k).fragment.length = max (m.fragment.length - k) (m.fragment.length / 2) := by
  induction k with
  | zero => rw [steps]; omega
  | succ k ih =>
    rw [steps, length_fragment_step, ih]
    split <;> omega

/-- Every second child is left behind, so all are moved just if there are no two of them. -/
theorem fragment_run_eq_nil_iff : m.run.fragment = [] ↔ m.fragment.length ≤ 1 := by
  rw [← List.length_eq_zero_iff, run, length_fragment_steps]
  omega

theorem parent_run_single (parent : List Markup) (e : Markup) :
    (Move.mk parent [e]).run.parent = parent ++ [e] := rfl

end Move

/-! ## Rules add one element -/

/-- Whenever the step gives a result, it is the children `before` with one element of this tag
    after them. -/
def Gives (tag : String) (before : List Markup) (m : Scan (List Markup)) : Prop :=
  ∀ c ms c', m c = .ok ms c' → ∃ attrs children, ms = before ++ [element tag attrs children]

namespace Gives

variable {α : Type} {tag : String} {before : List Markup}

theorem bind {m : Scan α} {k : α → Scan (List Markup)} (h : ∀ a, Gives tag before (k a)) :
    Gives tag before (m >>= k) := by
  intro c ms c' hms
  obtain ⟨a, c₁, -, hk⟩ := bind_ok.1 hms
  exact h a c₁ ms c' hk

theorem element (attrs : List (String × String)) (children : List Markup) :
    Gives tag before (pure (before ++ [Markup.element tag attrs children])) := by
  intro c ms c' hms
  obtain ⟨rfl, -⟩ := pure_ok.1 hms
  exact ⟨attrs, children, rfl⟩

theorem ite {p : Prop} [Decidable p] {m m' : Scan (List Markup)} (h : Gives tag before m)
    (h' : Gives tag before m') : Gives tag before (if p then m else m') := by
  split
  · exact h
  · exact h'

end Gives

section
variable (n : Site) (fragment : List Markup)

theorem numberRule_gives : Gives "Num" fragment (numberRule fragment) :=
  .bind fun _ => .element _ _

theorem stringRule_gives : Gives n.ref.cls fragment (stringRule n fragment) :=
  .bind fun _ => .bind fun _ => .bind fun _ => .bind fun _ => .element _ _

theorem tupleRule_gives : Gives "Tuple" fragment (tupleRule n fragment) := by
  refine .bind fun ctx => .bind fun elts => .ite ?_ ?_
  · refine .bind fun items => ?_
    cases items with
    | nil => exact .element _ _
    | cons item items => exact .bind fun _ => .bind fun _ => .element _ _
  · exact .bind fun _ => .bind fun _ => .bind fun _ => .element _ _

theorem listRule_gives : Gives n.ref.cls fragment (listRule n fragment) :=
  .bind fun _ => .bind fun _ => .bind fun _ => .bind fun _ => .bind fun _ => .element _ _

theorem dictRule_gives : Gives "Dict" fragment (dictRule n fragment) :=
  .bind fun _ => .bind fun _ => .bind fun _ => .bind fun _ => .bind fun _ =>
    .bind fun _ => .bind fun _ => .element _ _

theorem nameRule_gives : Gives "Name" fragment (nameRule n fragment) :=
  .bind fun _ => .bind fun _ => .bind fun _ => .bind fun _ => .bind fun _ => .element _ _

theorem nameConstantRule_gives : Gives "NameConstant" fragment (nameConstantRule fragment) :=
  .bind fun _ => .element _ _

theorem ellipsisRule_gives : Gives "Ellipsis" fragment (ellipsisRule fragment) :=
  .bind fun _ => .element _ _

theorem starredRule_gives : Gives "Starred" fragment (starredRule n fragment) :=
  .bind fun _ => .bind fun _ => .bind fun _ => .bind fun _ => .element _ _

theorem attributeRule_gives : Gives "Attribute" fragment (attributeRule n fragment) :=
  .bind fun _ => .bind fun _ => .bind fun _ => .bind fun _ => .element _ _

theorem subscriptRule_gives : Gives "Subscript" fragment (subscriptRule n fragment) :=
  .bind fun _ => .bind fun _ => .bind fun _ => .bind fun _ => .bind fun _ => .element _ _

theorem yieldRule_gives : Gives n.ref.cls fragment (yieldRule n fragment) :=
  .bind fun _ => .bind fun _ => .bind fun _ => .bind fun _ => .bind fun _ => .element _ _

theorem binOpRule_gives : Gives n.ref.cls fragment (binOpRule n fragment) :=
  .bind fun _ => .bind fun _ => .bind fun _ => .bind fun _ => .bind fun _ => .element _ _

theorem boolOpRule_gives : Gives n.ref.cls fragment (boolOpRule n fragment) := by
  refine .bind fun op => .bind fun operands => ?_
  cases operands with
  | nil => exact .element _ _
  | cons operand operands => exact .bind fun _ => .bind fun _ => .element _ _

theorem unaryOpRule_gives : Gives n.ref.cls fragment (unaryOpRule n fragment) :=
  .bind fun _ => .bind fun _ => .bind fun _ => .bind fun _ => .element _ _

theorem compareRule_gives : Gives n.ref.cls fragment (compareRule n fragment) :=
  .bind fun _ => .bind fun _ => .bind fun _ => .bind fun _ => .bind fun _ =>
    .bind fun _ => .element _ _

theorem callRule_gives : Gives "Call" fragment (callRule n fragment) :=
  .bind fun _ => .bind fun _ => .bind fun _ => .bind fun _ => .bind fun _ =>
    .bind fun _ => .bind fun _ => .bind fun _ => .element _ _

theorem ifExpRule_gives : Gives "IfExpr" fragment (ifExpRule n fragment) :=
  .bind fun _ => .bind fun _ => .bind fun _ => .bind fun _ => .bind fun _ => .element _ _

theorem comprehensionRule_gives : Gives n.ref.cls fragment (comprehensionRule n fragment) :=
  .bind fun _ => .bind fun _ => .bind fun _ => .bind fun _ => .bind fun _ => .element _ _

theorem lambdaRule_gives : Gives "Lambda" fragment (lambdaRule n fragment) :=
  .bind fun _ => .bind fun _ => .bind fun _ => .bind fun _ => .bind fun _ => .element _ _

end

/-- The tag of the element for a class of expressions. -/
def tagOf (cls : String) : String :=
  if cls = "IfExp" then "IfExpr" else cls

/-- The rule of an expression adds one element, whatever the sub-expressions add to theirs. -/
theorem expressionRule?_gives {n : Site} {rule : Into} (h : expressionRule? n = some rule)
    (fragment : List Markup) : Gives (tagOf n.ref.cls) fragment (rule fragment) := by
  rw [expressionRule?] at h
  split at h <;> rename_i hcls <;> cases h <;>
    simp only [tagOf, hcls, String.reduceEq, if_false, if_true]
  · exact numberRule_gives fragment
  · exact hcls ▸ stringRule_gives n fragment
  · exact hcls ▸ stringRule_gives n fragment
  · exact tupleRule_gives n fragment
  · exact hcls ▸ listRule_gives n fragment
  · exact hcls ▸ listRule_gives n fragment
  · exact dictRule_gives n fragment
  · exact nameRule_gives n fragment
  · exact nameConstantRule_gives fragment
  · exact ellipsisRule_gives fragment
  · exact starredRule_gives n fragment
  · exact attributeRule_gives n fragment
  · exact subscriptRule_gives n fragment
  · exact hcls ▸ yieldRule_gives n fragment
  · exact hcls ▸ yieldRule_gives n fragment
  · exact hcls ▸ binOpRule_gives n fragment
  · exact hcls ▸ boolOpRule_gives n fragment
  · exact hcls ▸ unaryOpRule_gives n fragment
  · exact hcls ▸ compareRule_gives n fragment
  · exact callRule_gives n fragment
  · exact ifExpRule_gives n fragment
  · exact hcls ▸ comprehensionRule_gives n fragment
  · exact hcls ▸ comprehensionRule_gives n fragment
  · exact hcls ▸ comprehensionRule_gives n fragment
  · exact hcls ▸ comprehensionRule_gives n fragment
  · exact lambdaRule_gives n fragment

/-- The rule adds one child to a fragment. -/
def Into.AddsOne (rule : Into) : Prop :=
  rule.Adds fun _ added _ => ∃ e, added = [e]

theorem Gives.addsOne {tag : String} {rule : Into}
    (h : ∀ fragment, Gives tag fragment (rule fragment)) : rule.AddsOne := by
  intro fragment c ms c' hms
  obtain ⟨attrs, children, rfl⟩ := h fragment c ms c' hms
  exact ⟨_, rfl, _, rfl⟩

theorem expressionRule?_addsOne {n : Site} {rule : Into} (h : expressionRule? n = some rule) :
    rule.AddsOne :=
  Gives.addsOne (expressionRule?_gives h)

section
variable {r : NodeRef} {start : Except Cause Position} {rule : Into} (hrule : rule.AddsOne)
include hrule

/-- Of a rule that adds one child, the fragment is moved whole, and what the parent has stays. -/
theorem enclose_eq (parent : List Markup) :
    enclose r start rule parent = (do
      openParenthesis r
      let fragment ← rule []
      match ← closesHere r start with
      | some d =>
        let right ← enclosed true false
        return parent ++ (text d.text :: fragment ++ [text right])
      | none => return parent ++ fragment) := by
  rw [enclose]
  refine bind_congr fun _ => bind_congr_ok fun c fragment c' hfragment => ?_
  obtain ⟨e, rfl⟩ := hrule.alone hfragment
  refine congrFun (bind_congr fun d? => ?_) c'
  cases d? with
  | none => rfl
  | some d => simp [Move.parent_run_single]

/-- The parent keeps what it has and gets the element, alone or between the texts of the
    parenthesis kept aside last and of the one that closes it. -/
theorem enclose_ok {c c' : Cursor} {parent ms : List Markup}
    (h : enclose r start rule parent c = .ok ms c') :
    ∃ c₁ e c₂, openParenthesis r c = .ok () c₁ ∧ rule [] c₁ = .ok [e] c₂ ∧
      ((ms = parent ++ [e] ∧ c₂ = c' ∧ ∀ d, ¬ Closes r start d c₂) ∨
        ∃ d ds right, c₂.deferred = d :: ds ∧ Closes r start d c₂ ∧
          enclosed true false { c₂ with deferred := ds } = .ok right c' ∧
          ms = parent ++ [.text d.text, e, .text right]) := by
  simp only [enclose_eq hrule, bind_ok] at h
  obtain ⟨_, c₁, ho, fragment, c₂, he, d?, c₃, hd, h⟩ := h
  obtain ⟨e, rfl⟩ := hrule.alone he
  refine ⟨c₁, e, c₂, ho, he, ?_⟩
  rcases closesHere_cases hd with ⟨rfl, rfl, hno⟩ | ⟨d, ds, hds, rfl, rfl, hcloses⟩
  · obtain ⟨rfl, rfl⟩ := pure_ok.1 h
    exact Or.inl ⟨rfl, rfl, hno⟩
  · simp only [bind_ok, pure_ok] at h
    obtain ⟨right, _, hr, rfl, rfl⟩ := h
    exact Or.inr ⟨d, ds, right, hds, hcloses, hr, rfl⟩

/-- What an expression adds does not depend on what the parent has. -/
theorem enclose_adds :
    (enclose r start rule).Adds fun c added c' => enclose r start rule [] c = .ok added c' := by
  intro before c ms c' h
  have hsplit : enclose r start rule before = (do return before ++ (← enclose r start rule [])) := by
    simp only [enclose_eq hrule, bind_assoc, List.nil_append]
    refine bind_congr fun _ => bind_congr fun fragment => bind_congr fun d? => ?_
    cases d? <;> simp
  rw [hsplit, bind_ok] at h
  obtain ⟨added, c₁, hadded, h⟩ := h
  obtain ⟨rfl, rfl⟩ := pure_ok.1 h
  exact ⟨added, rfl, hadded⟩

end

/-! ## Taking tokens -/

/-- The tokens `ts` are taken between `c` and `c'`, and `s` is their text, each with the gap
    before it. -/
structure Passes (c : Cursor) (ts : List Token) (s : String) (c' : Cursor) : Prop where
  rest : c.rest = ts ++ c'.rest
  deferred : c'.deferred = c.deferred
  spelled : ∃ a, c.current = some a ∧ s = a.spelled ts

/-- The next token is there and is no line break or comment. -/
def Cursor.AtToken (c : Cursor) : Prop :=
  ∃ t ts, c.rest = t :: ts ∧ t.isFiller = false

section
variable {c c' : Cursor} {t : Token} {ts : List Token} {r : String × Bool}

theorem Passes.nil {a : Token} (ha : c.current = some a) : Passes c [] "" c :=
  ⟨rfl, rfl, a, ha, rfl⟩

theorem Passes.cons {a : Token} {us : List Token} {s : String} (ha : c.current = some a)
    (hr : c.rest = t :: ts) (h : Passes (c.after t ts) us s c') :
    Passes c (t :: us) (a.gap t ++ t.text ++ s) c' := by
  obtain ⟨b, hb, rfl⟩ := h.spelled
  obtain rfl : t = b := by simpa using hb
  refine ⟨?_, h.deferred, a, ha, rfl⟩
  rw [hr, List.cons_append, ← h.rest, Cursor.after_rest]

/-- A token is taken with the gap before it, then `m` goes on. -/
theorem enclosedStep_ok {m : Scan (String × Bool)} (hr : c.rest = t :: ts)
    (h : (do
      let _ ← Scan.take
      let left ← Scan.gapBeforeIf true
      let (more, taken) ← m
      return (left ++ t.text ++ more, taken) : Scan (String × Bool)) c = .ok r c') :
    ∃ a more, c.current = some a ∧ m (c.after t ts) = .ok more c' ∧
      r.1 = a.gap t ++ t.text ++ more.1 := by
  simp only [bind_ok, pure_ok, take_ok] at h
  obtain ⟨u, _, ⟨us, hus, rfl⟩, left, c₂, hleft, more, c₃, hmore, rfl, rfl⟩ := h
  obtain ⟨rfl, rfl⟩ := List.cons.inj (hr.symm.trans hus)
  obtain ⟨⟨a, b, ha, hb, rfl⟩, rfl⟩ := gapBefore_ok.1 hleft
  obtain rfl : t = b := by simpa using hb
  exact ⟨a, more, ha, hmore, rfl⟩

/-- Behind the token, all line breaks and comments are taken. -/
theorem enclosedFrom_found {want : Option ExactKind} {a : Token} (hr : c.rest = ts)
    (ha : c.current = some a) (h : enclosedFrom want true true ts c = .ok r c') :
    ∃ after, Passes c after r.1 c' ∧ (∀ t ∈ after, t.isFiller = true) ∧ c'.AtToken := by
  induction ts generalizing c a r with
  | nil => rw [enclosedFrom] at h; exact (fail_ok.1 h).elim
  | cons t ts ih =>
    rw [enclosedFrom] at h
    split at h
    · rename_i hfiller
      obtain ⟨b, more, hb, hmore, htext⟩ := enclosedStep_ok hr h
      obtain ⟨after, hpasses, hafter, hnext⟩ := ih rfl rfl hmore
      exact ⟨t :: after, htext ▸ hpasses.cons hb hr, List.forall_mem_cons.2 ⟨hfiller, hafter⟩,
        hnext⟩
    · rename_i hfiller
      obtain ⟨rfl, rfl⟩ := pure_ok.1 h
      exact ⟨[], .nil ha, by simp, t, ts, hr, by simpa using hfiller⟩

/-- One token is taken, with all line breaks and comments before and behind it. -/
theorem enclosedFrom_one (hr : c.rest = ts) (h : enclosedFrom none false true ts c = .ok r c') :
    ∃ before t after, Passes c (before ++ t :: after) r.1 c' ∧
      (∀ u ∈ before ++ after, u.isFiller = true) ∧ t.isFiller = false ∧ c'.AtToken := by
  induction ts generalizing c r with
  | nil => rw [enclosedFrom] at h; exact (fail_ok.1 h).elim
  | cons t ts ih =>
    rw [enclosedFrom] at h
    split at h
    · rename_i hfiller
      obtain ⟨a, more, ha, hmore, htext⟩ := enclosedStep_ok hr h
      obtain ⟨before, u, after, hpasses, hfillers, hu, hnext⟩ := ih rfl hmore
      exact ⟨t :: before, u, after, htext ▸ hpasses.cons ha hr,
        List.forall_mem_cons.2 ⟨hfiller, hfillers⟩, hu, hnext⟩
    · rename_i hfiller
      simp only [Bool.false_eq_true, if_false, Option.any_none] at h
      obtain ⟨a, more, ha, hmore, htext⟩ := enclosedStep_ok hr h
      have hrest : (c.after t ts).rest = ts := rfl
      obtain ⟨after, hpasses, hafter, hnext⟩ := enclosedFrom_found hrest rfl hmore
      exact ⟨[], t, after, htext ▸ hpasses.cons ha hr, hafter, by simpa using hfiller, hnext⟩

theorem enclosed_one {s : String} (h : enclosed true false c = .ok s c') :
    ∃ before t after, Passes c (before ++ t :: after) s c' ∧
      (∀ u ∈ before ++ after, u.isFiller = true) ∧ t.isFiller = false ∧ c'.AtToken := by
  simp only [enclosed, enclosedOf, bind_ok, get_ok, Bool.and_false, Bool.false_eq_true, if_false,
    pure_ok] at h
  obtain ⟨_, _, ⟨rfl, rfl⟩, r, _, h, rfl, rfl⟩ := h
  exact enclosedFrom_one rfl h

/-! ## What a parent gets -/

/-- What is added to the parent of the expression `r` when its rule has given `e` at `c`. -/
inductive Contributes (r : NodeRef) (start : Except Cause Position) (e : Markup) (c : Cursor) :
    List Markup → Cursor → Prop
  | alone (unclosed : ∀ d, ¬ Closes r start d c) : Contributes r start e c [e] c
  | between {d : Deferred} {ds : List Deferred} {before after : List Token} {rpar : Token}
      {right : String} {c' : Cursor} (closes : Closes r start d c) (removed : c.deferred = d :: ds)
      (passes : Passes { c with deferred := ds } (before ++ rpar :: after) right c')
      (closing : rpar.isOp .rpar = true) (fillers : ∀ t ∈ before ++ after, t.isFiller = true)
      (next : c'.AtToken) : Contributes r start e c [text d.text, e, text right] c'

end

theorem enclose_contributes {r : NodeRef} {start : Except Cause Position} {rule : Into}
    {c c' : Cursor} {earlier ms : List Markup} (hrule : rule.AddsOne)
    (h : enclose r start rule earlier c = .ok ms c') :
    ∃ e c₁ c₂ added, openParenthesis r c = .ok () c₁ ∧ rule [] c₁ = .ok [e] c₂ ∧
      Contributes r start e c₂ added c' ∧ ms = earlier ++ added := by
  obtain ⟨c₁, e, c₂, hopen, he, ⟨hms, rfl, hno⟩ | ⟨d, ds, right, hds, hcloses, hright, hms⟩⟩ :=
    enclose_ok hrule h
  · exact ⟨e, c₁, c₂, [e], hopen, he, .alone hno, hms⟩
  · obtain ⟨before, t, after, hpasses, hfillers, ht, hnext⟩ := enclosed_one hright
    refine ⟨e, c₁, c₂, _, hopen, he, .between hcloses hds hpasses ?_ hfillers hnext, hms⟩
    -- the token taken is the one that was seen behind the line breaks and comments
    have hbefore : ∀ u ∈ before, u.isFiller = true := fun u hu => hfillers u (by simp [hu])
    have hrest : c₂.rest = before ++ t :: (after ++ c'.rest) := by simpa using hpasses.rest
    have hrpar := hcloses.next
    rw [hrest, List.dropWhile_append_of_pos hbefore, List.dropWhile_cons_of_neg (by simp [ht])]
      at hrpar
    simpa using hrpar

/-! ## Expressions -/

/-- The classes of expressions. -/
def expressionNames : List String :=
  ["Num", "Str", "Bytes", "Tuple", "List", "Set", "Dict", "Name", "NameConstant", "Ellipsis",
   "Starred", "Attribute", "Subscript", "Yield", "YieldFrom", "BinOp", "BoolOp", "UnaryOp",
   "Compare", "Call", "IfExp", "GeneratorExp", "ListComp", "SetComp", "DictComp", "Lambda"]

theorem isSome_expressionRule?_iff (n : Site) :
    (expressionRule? n).isSome = true ↔ n.ref.cls ∈ expressionNames := by
  rw [expressionRule?]
  split <;> simp_all [expressionNames]

/-- **An expression adds one element to its parent**, alone or between the texts of a pair of
    parentheses.  What the parent has stays, and moving the fragment leaves nothing in it. -/
theorem expression_adds_one_element {lines : List String} {path : Path} {cls : String}
    {places : List Int} {fields : List (String × Tree)} {c c' : Cursor} {earlier ms : List Markup}
    (hcls : cls ∈ expressionNames)
    (h : (toPart lines path (.node cls places fields)).addTo earlier c = .ok ms c') :
    let r : NodeRef := ⟨path, cls, places⟩
    let start := startOfNode lines r (toFields lines path fields)
    ∃ rule fragment attrs children c₁ c₂ added,
      expressionRule? ⟨r, toFields lines path fields⟩ = some rule ∧
      openParenthesis r c = .ok () c₁ ∧
      rule [] c₁ = .ok fragment c₂ ∧
      fragment = [element (tagOf cls) attrs children] ∧
      (∀ parent, (Move.mk parent fragment).run.fragment = []) ∧
      Contributes r start (element (tagOf cls) attrs children) c₂ added c' ∧
      ms = earlier ++ added := by
  intro r start
  obtain ⟨rule, hrule⟩ := Option.isSome_iff_exists.1
    ((isSome_expressionRule?_iff ⟨r, toFields lines path fields⟩).2 hcls)
  have hadded : enclose r start rule earlier c = .ok ms c' := by
    rw [toPart, Part.addTo, addNode, hrule] at h
    exact within_ok.1 h
  obtain ⟨e, c₁, c₂, added, hopen, he, hcontributes, hms⟩ :=
    enclose_contributes (expressionRule?_addsOne hrule) hadded
  obtain ⟨attrs, children, helement⟩ := expressionRule?_gives hrule [] c₁ [e] c₂ he
  obtain rfl : e = element (tagOf cls) attrs children := by simpa using helement
  refine ⟨rule, _, attrs, children, c₁, c₂, added, hrule, hopen, he, rfl, fun parent => ?_,
    hcontributes, hms⟩
  exact (Move.fragment_run_eq_nil_iff _).2 (Nat.le_refl 1)

/-- The cursor before `(a # c` and, on the next row, `)`. -/
def beforeCommented : Cursor where
  rest := [.onRow 1 "(a # c\n" 0 .operator "(", .onRow 1 "(a # c\n" 1 .name "a",
    .onRow 1 "(a # c\n" 3 .comment "# c", .onRow 1 "(a # c\n" 6 .lineBreak "\n",
    .onRow 2 ")\n" 0 .operator ")", .onRow 2 ")\n" 1 .newline "\n"]
  current := some ⟨.encoding, "utf-8", ⟨0, 0⟩, ⟨0, 0⟩, ""⟩
  previous := none
  deferred := []
  remarks := []

/-- The cursor after these parentheses. -/
def afterCommented : Cursor where
  rest := [.onRow 2 ")\n" 1 .newline "\n"]
  current := some (.onRow 2 ")\n" 0 .operator ")")
  previous := some (.onRow 1 "(a # c\n" 6 .lineBreak "\n")
  deferred := []
  remarks := [.replaced "a" "a", .deferred]

/-- The name between them. -/
def commentedFields : List (String × Tree) :=
  [("id", .leaf (.str "a")), ("ctx", .node "Load" [] [])]

/-- What the name adds: the comment and the line break go with the closing parenthesis. -/
def commentedMarkup : List Markup :=
  [text "(", element "Name" [("name", "a"), ("ctx", "Load")] [text "a"], text " # c\n)"]

theorem commented_adds_one_element :
    "Name" ∈ expressionNames ∧
    (toPart ["(a # c\n", ")\n"] .root (.node "Name" [1, 1] commentedFields)).addTo
        [text "b", labelled "Add" "+"] beforeCommented =
      .ok (text "b" :: labelled "Add" "+" :: commentedMarkup) afterCommented ∧
    ∃ rule fragment attrs children c₁ c₂,
      expressionRule? ⟨⟨.root, "Name", [1, 1]⟩, toFields ["(a # c\n", ")\n"] .root commentedFields⟩ =
        some rule ∧
      rule [] c₁ = .ok fragment c₂ ∧
      fragment = [element "Name" attrs children] ∧
      (∀ parent, (Move.mk parent fragment).run.fragment = []) ∧
      Contributes ⟨.root, "Name", [1, 1]⟩ (.ok ⟨1, 1⟩) (element "Name" attrs children) c₂
        commentedMarkup afterCommented := by
  have hname : "Name" ∈ expressionNames := by decide
  have hadd : (toPart ["(a # c\n", ")\n"] .root (.node "Name" [1, 1] commentedFields)).addTo
      [text "b", labelled "Add" "+"] beforeCommented =
      .ok (text "b" :: labelled "Add" "+" :: commentedMarkup) afterCommented := rfl
  obtain ⟨rule, fragment, attrs, children, c₁, c₂, added, hrule, -, hfragment, hone, hmoved,
    hcontributes, hms⟩ := expression_adds_one_element hname hadd
  obtain rfl : commentedMarkup = added := by simpa using hms
  exact ⟨hname, hadd, rule, fragment, attrs, children, c₁, c₂, hrule, hfragment, hone, hmoved,
    hcontributes⟩

end SourceScribe.Conversion
