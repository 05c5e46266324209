/-
  What stands at a path of a tree, and induction over trees.

  `Tree.get?` follows a path down from the top.  Steps are kept with the last one first, so
  steps that go on below a place come before the steps to it (`follow?_append`).

  `Tree.inductionOn` is induction over trees with the items of a list and the fields of a
  node as members of their lists.

  A recursion over trees goes through the fields and the items with functions of its own.
  `forall_mem_of_check` and `lookup_of_fieldwise` say what such a function does to a whole
  list, from what it does to the first member.
-/
import SourceScribe.Tree.Basic
import SourceScribe.Tree.Path

namespace SourceScribe.Tree

/-! ## Fields and items -/

/-- What a check asks of the first member, before it goes on to the others, holds of all
    members. -/
theorem forall_mem_of_check {α : Type} {P : α → Prop} {check : List α → Bool}
    (hcons : ∀ a as, check (a :: as) = true → P a ∧ check as = true) {as : List α}
    (h : check as = true) : ∀ a ∈ as, P a := by
  induction as with
  | nil => exact fun a ha => absurd ha List.not_mem_nil
  | cons a as ih =>
    obtain ⟨ha, has⟩ := hcons a as h
    exact List.forall_mem_cons.2 ⟨ha, ih has⟩

/-- What is worked out field by field is found under the name of the tree it comes from. -/
theorem lookup_of_fieldwise {α : Type} {f : String → Tree → α}
    {g : List (String × Tree) → List (String × α)} (hnil : g [] = [])
    (hcons : ∀ name t fields, g ((name, t) :: fields) = (name, f name t) :: g fields)
    (fields : List (String × Tree)) (name : String) :
    (g fields).lookup name = (fields.lookup name).map (f name) := by
  induction fields with
  | nil => rw [hnil]; rfl
  | cons field fields ih =>
    obtain ⟨key, t⟩ := field
    rw [hcons, List.lookup_cons, List.lookup_cons]
    split
    · rename_i hkey
      rw [Option.map_some, eq_of_beq hkey]
    · exact ih

theorem mem_of_lookup {name : String} {t : Tree} {fields : List (String × Tree)}
    (h : fields.lookup name = some t) : (name, t) ∈ fields := by
  obtain ⟨before, after, rfl, -⟩ := List.lookup_eq_some_iff.1 h
  exact List.mem_append_right before List.mem_cons_self

/-! ## Paths -/

/-- What stands one step below the top of a tree.  A list inside a list is not looked
    into. -/
def step? : Tree → Step → Option Tree
  | node _ _ fields, .field name => fields.lookup name
  | list items, .item i =>
    match items[i]? with
    | some (list _) => none
    | found => found
  | _, _ => none

/-- What the steps lead to, the last one first. -/
def follow? (t : Tree) : List Step → Option Tree
  | [] => some t
  | s :: up => (t.follow? up).bind (·.step? s)

/-- What stands at a path. -/
def get? (t : Tree) (p : Path) : Option Tree := t.follow? p.steps

theorem follow?_append (t : Tree) (q up : List Step) :
    t.follow? (q ++ up) = (t.follow? up).bind (·.follow? q) := by
  induction q with
  | nil => cases h : t.follow? up <;> simp [follow?, h]
  | cons s q ih => rw [List.cons_append, follow?, ih, Option.bind_assoc]; rfl

/-- The first step down, then the others. -/
theorem follow?_concat (t : Tree) (q : List Step) (s : Step) :
    t.follow? (q ++ [s]) = (t.step? s).bind (·.follow? q) := by
  rw [follow?_append]
  rfl

theorem step?_item {items : List Tree} {i : Nat} {t : Tree} :
    (list items).step? (.item i) = some t ↔ items[i]? = some t ∧ ∀ inner, t ≠ list inner := by
  rw [step?]
  split
  · rename_i inner h
    rw [h]
    simp only [Option.some.injEq, false_iff, not_and, reduceCtorEq]
    rintro rfl
    simp
  · rename_i h
    constructor
    · intro ht
      exact ⟨ht, fun inner hinner => h inner (hinner ▸ ht)⟩
    · exact And.left

/-! ## Induction -/

/-- What holds of a leaf, and of a list or a node if it holds of all its items or fields,
    holds of every tree. -/
theorem inductionOn {P : Tree → Prop} (hleaf : ∀ v, P (leaf v))
    (hlist : ∀ items, (∀ t ∈ items, P t) → P (list items))
    (hnode : ∀ cls places fields, (∀ f ∈ fields, P f.2) → P (node cls places fields)) :
    ∀ t, P t :=
  @Tree.rec P (fun fields => ∀ f ∈ fields, P f.2) (fun items => ∀ t ∈ items, P t)
    (fun f => P f.2) hleaf hnode hlist
    (fun _ h => absurd h List.not_mem_nil) (fun _ _ h more => List.forall_mem_cons.2 ⟨h, more⟩)
    (fun _ h => absurd h List.not_mem_nil) (fun _ _ h more => List.forall_mem_cons.2 ⟨h, more⟩)
    (fun _ _ h => h)

/-- What holds of a tree if it holds of all that stands one step below it holds of every tree. -/
theorem inductionOnSteps {P : Tree → Prop}
    (h : ∀ t, (∀ s u, t.step? s = some u → P u) → P t) (t : Tree) : P t := by
  induction t using inductionOn with
  | hleaf v =>
    refine h _ fun s u hu => ?_
    cases s <;> cases hu
  | hlist items ih =>
    refine h _ fun s u hu => ?_
    cases s with
    | field name => cases hu
    | item i => exact ih u (List.mem_of_getElem? (step?_item.1 hu).1)
  | hnode cls places fields ih =>
    refine h _ fun s u hu => ?_
    cases s with
    | item i => cases hu
    | field name => exact ih (name, u) (mem_of_lookup hu)

end SourceScribe.Tree
