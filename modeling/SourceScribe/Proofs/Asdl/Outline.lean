/-
  What a source of a grammar says, apart from how it is stored.

  The outline of a source has the pieces of its first line and, for every definition, the
  category with its types (`Clause`).  It does not depend on what was read before, while
  reading stores one thing after the other.  `read_eq_outline`: reading a source is making its
  outline and storing what is in it, and fails just if there is no outline.

  `mem_types_grammar` says which names have a type then.  If no name comes twice, nothing is
  replaced, and all is kept in the order of the outline (`types_grammar`,
  `categories_grammar`).
-/
import SourceScribe.Proofs.Asdl.Reading

namespace SourceScribe.Asdl

open Entries

/-! ## Clauses -/

/-- What a definition says: a category and its types. -/
structure Clause where
  category : String
  types : List NodeType

namespace Clause

/-- The names of the types. -/
def typeNames (c : Clause) : List String := c.types.map (·.name)

/-- The category as it is stored. -/
def categoryEntry (c : Clause) : String × Category :=
  (c.category, ⟨c.category, c.typeNames, false⟩)

/-- The types as they are stored. -/
def typeEntries (c : Clause) : List (String × NodeType) := c.types.map fun t => (t.name, t)

/-- Stores a clause. -/
def addTo (c : Clause) (g : Grammar) : Grammar :=
  (c.types.foldl .addType g).addCategory c.category c.categoryEntry.2

end Clause

/-- The name of a constructor, from its text. -/
def constructorName (text : String) : String := Text.strip (Text.before "(" text)

/-- The types of the constructors of a sum. -/
def sumTypes (category : String) (attributes : List String) :
    List String → Except Fault (List NodeType)
  | [] => .ok []
  | c :: cs => do
    let t ← NodeType.ofTexts (constructorName c) category (inParentheses c) attributes
    let ts ← sumTypes category attributes cs
    return t :: ts

/-- The type of a product. -/
def productType (category : String) (attributes : List String) (c : String) :
    Except Fault NodeType :=
  NodeType.ofTexts (if constructorName c = "" then category else constructorName c) category
    (inParentheses c) attributes

/-- The types of constructors: a product if there is just one. -/
def constructorTypes (category : String) (attributes : List String) :
    List String → Except Fault (List NodeType)
  | [c] => do return [← productType category attributes c]
  | cs => sumTypes category attributes cs

/-- What the text between the equals sign and the attributes says. -/
def clauseFrom (category sum : String) (attributes : List String) : Except Fault Clause := do
  return ⟨category, ← constructorTypes category attributes
    ((Text.splitOn "|" sum).map Text.strip)⟩

/-- What a definition says. -/
def clauseOf (definition : String) : Except Fault Clause :=
  match Text.splitOn "=" definition with
  | [left, right] =>
    match Text.splitOn "attributes" right with
    | [sum] => clauseFrom (Text.strip left) sum []
    | [sum, list] => clauseFrom (Text.strip left) sum (inParentheses list)
    | _ => .error .severalAttributeLists
  | _ => .error .severalEqualsSigns

/-- What definitions say. -/
def clausesOf : List (Option String) → Except Fault (List Clause)
  | [] => .ok []
  | none :: _ => .error .noDefinition
  | some d :: ds => do
    let c ← clauseOf d
    let cs ← clausesOf ds
    return c :: cs

/-! ## Outlines -/

/-- What a source says. -/
structure Outline where
  /-- The pieces of the first line. -/
  pieces : List String
  clauses : List Clause

/-- The type that a piece of the first line names. -/
def lastWord (piece : String) : String := (Text.splitOn " " piece).getLastD ""

namespace Outline

/-- All names of types, in their order. -/
def typeNames (o : Outline) : List String :=
  o.pieces.map lastWord ++ o.clauses.flatMap (·.typeNames)

/-- All names of categories, in their order. -/
def categoryNames (o : Outline) : List String :=
  o.pieces ++ o.clauses.map (·.category)

/-- All that is said, stored one after the other. -/
def grammar (o : Outline) : Grammar :=
  o.clauses.foldl (fun g c => c.addTo g) (o.pieces.foldl addBuiltin .empty)

end Outline

/-- The outline of a source. -/
def outline (s : String) : Except Fault Outline :=
  match Text.physicalLines (Text.unifyNewlines s) with
  | [] => .error .noFirstLine
  | first :: rest => do
    let ds ← definitions (first :: rest)
    let cs ← clausesOf ds
    return ⟨Text.splitOn "," first, cs⟩

/-! ## Reading is storing the outline -/

/-- What came of a step, without what a failed step has stored. -/
def settled {α : Type} : EStateM.Result Fault Grammar α → Except Fault (α × Grammar)
  | .ok a g => .ok (a, g)
  | .error f _ => .error f

theorem settled_bind {α β : Type} (m : Reading α) (k : α → Reading β) (g : Grammar) :
    settled ((m >>= k) g) = settled (m g) >>= fun r => settled (k r.1 r.2) := by
  show settled (EStateM.bind m k g) = _
  unfold EStateM.bind
  cases m g <;> rfl

theorem name_ofTexts {name category : String} {fields attributes : List String} {t : NodeType}
    (h : NodeType.ofTexts name category fields attributes = .ok t) : t.name = name := by
  rw [NodeType.ofTexts] at h
  cases hfields : fieldsOf fields with
  | error f => rw [hfields] at h; cases h
  | ok fs => rw [hfields] at h; cases h; rfl

theorem settled_addConstructors (category : String) (attributes cs : List String) (g : Grammar) :
    settled (addConstructors category attributes cs g) =
      (sumTypes category attributes cs).map fun ts => (ts.map (·.name), ts.foldl .addType g) := by
  induction cs generalizing g with
  | nil => rfl
  | cons c cs ih =>
    rw [addConstructors, sumTypes, constructorName]
    cases ht : NodeType.ofTexts (Text.strip (Text.before "(" c)) category (inParentheses c)
      attributes with
    | error f => rfl
    | ok t =>
      rw [← name_ofTexts ht]
      refine (settled_bind _ _ g).trans ?_
      show settled ((addConstructors category attributes cs >>= fun names =>
        pure (t.name :: names)) (g.addType t)) = _
      rw [settled_bind, ih]
      show _ = ((sumTypes category attributes cs) >>= fun ts => Except.ok (t :: ts)).map _
      cases sumTypes category attributes cs <;> rfl

theorem settled_addProduct (category : String) (attributes : List String) (c : String)
    (g : Grammar) : settled (addProduct category attributes c g) =
      (productType category attributes c).map fun t => ([t.name], g.addType t) := by
  rw [addProduct, productType, constructorName]
  generalize (if Text.strip (Text.before "(" c) = "" then category
    else Text.strip (Text.before "(" c)) = name
  cases ht : NodeType.ofTexts name category (inParentheses c) attributes with
  | error f => rfl
  | ok t =>
    rw [← name_ofTexts ht]
    rfl

theorem settled_addTypes (category : String) (attributes cs : List String) (g : Grammar) :
    settled (addTypes category attributes cs g) =
      (constructorTypes category attributes cs).map fun ts =>
        (ts.map (·.name), ts.foldl .addType g) := by
  rcases cs with _ | ⟨c, _ | ⟨c', cs⟩⟩
  · exact settled_addConstructors _ _ _ _
  · rw [addTypes, settled_addProduct, constructorTypes]
    cases productType category attributes c <;> rfl
  · exact settled_addConstructors _ _ _ _

theorem splitOn_ne_nil (sep s : String) : Text.splitOn sep s ≠ [] := by
  rw [Text.splitOn, ne_eq, List.map_eq_nil_iff]
  exact Text.splitChars_ne_nil _ _

theorem settled_clauseFrom (left sum : String) (attributes : List String) (g : Grammar) :
    settled ((do
      let names ← addTypes (Text.strip left) attributes ((Text.splitOn "|" sum).map Text.strip)
      modify fun g => g.addCategory (Text.strip left) ⟨Text.strip left, names, false⟩ :
        Reading Unit) g) =
      (clauseFrom (Text.strip left) sum attributes).map fun c => ((), c.addTo g) := by
  rw [settled_bind, settled_addTypes, clauseFrom]
  cases constructorTypes (Text.strip left) attributes ((Text.splitOn "|" sum).map Text.strip) <;>
    rfl

/-- Storing a definition is storing what it says. -/
theorem settled_define (d : String) (g : Grammar) :
    settled (define d g) = (clauseOf d).map fun c => ((), c.addTo g) := by
  unfold clauseOf
  split
  · rename_i left right hequals
    split
    · rename_i sum hparts
      rw [define_eq hequals (.inl ⟨hparts, rfl⟩)]
      exact settled_clauseFrom left sum [] g
    · rename_i sum list hparts
      rw [define_eq hequals (.inr ⟨list, hparts, rfl⟩)]
      exact settled_clauseFrom left sum (inParentheses list) g
    · rename_i hone htwo
      rw [define, hequals]
      have hparts : (Text.splitOn "attributes" right).length ≥ 3 := by
        rcases hsplit : Text.splitOn "attributes" right with _ | ⟨x, _ | ⟨y, _ | ⟨z, rest⟩⟩⟩
        · exact absurd hsplit (splitOn_ne_nil _ _)
        · exact absurd hsplit (hone x)
        · exact absurd hsplit (htwo x y)
        · simp
      simp only [if_pos hparts]
      rfl
  · rename_i hequals
    rw [define]
    rcases hsplit : Text.splitOn "=" d with _ | ⟨x, _ | ⟨y, _ | ⟨z, rest⟩⟩⟩
    · rfl
    · rfl
    · exact absurd hsplit (hequals x y)
    · rfl

theorem settled_defineAll (ds : List (Option String)) (g : Grammar) :
    settled (defineAll ds g) =
      (clausesOf ds).map fun cs => ((), cs.foldl (fun g c => c.addTo g) g) := by
  induction ds generalizing g with
  | nil => rfl
  | cons d ds ih =>
    cases d with
    | none => rfl
    | some d =>
      rw [defineAll, clausesOf, settled_bind, settled_define]
      cases clauseOf d with
      | error f => rfl
      | ok c =>
        show settled (defineAll ds (c.addTo g)) = _
        rw [ih]
        show _ = ((clausesOf ds) >>= fun cs => Except.ok (c :: cs)).map _
        cases clausesOf ds <;> rfl

/-- **Reading is storing the outline.** -/
theorem read_eq_outline (s : String) : Grammar.read s = (outline s).map Outline.grammar := by
  rw [Grammar.read, outline]
  cases Text.physicalLines (Text.unifyNewlines s) with
  | nil => rfl
  | cons first rest =>
    simp only [bind, Except.bind]
    cases definitions (first :: rest) with
    | error f => rfl
    | ok ds =>
      have hall := settled_defineAll ds (builtins first)
      simp only
      cases hds : defineAll ds (builtins first) with
      | ok u g =>
        rw [hds] at hall
        cases hcs : clausesOf ds with
        | error f => rw [hcs] at hall; cases hall
        | ok cs =>
          rw [hcs] at hall
          cases hall
          rfl
      | error f g =>
        rw [hds] at hall
        cases hcs : clausesOf ds with
        | error f' =>
          rw [hcs] at hall
          cases hall
          rfl
        | ok cs => rw [hcs] at hall; cases hall

/-! ## Names of types -/

theorem ok_of_bind_ok {α β : Type} {x : Except Fault α} {f : α → Except Fault β} {b : β}
    (h : x >>= f = .ok b) : ∃ a, x = .ok a ∧ f a = .ok b := by
  cases x with
  | error fault => cases h
  | ok a => exact ⟨a, rfl, h⟩

theorem exists_strip_of_sumTypes {category : String} {attributes cs : List String}
    {types : List NodeType} (h : sumTypes category attributes cs = .ok types) {t : NodeType}
    (ht : t ∈ types) : ∃ text, t.name = Text.strip text := by
  induction cs generalizing types with
  | nil =>
    cases h
    exact absurd ht List.not_mem_nil
  | cons c cs ih =>
    obtain ⟨first, hfirst, h⟩ := ok_of_bind_ok h
    obtain ⟨rest, hrest, h⟩ := ok_of_bind_ok h
    cases h
    rcases List.mem_cons.1 ht with rfl | ht
    · exact ⟨_, name_ofTexts hfirst⟩
    · exact ih hrest ht

/-- The name of a type in a clause is a text without white space at its ends. -/
theorem exists_strip_of_clauseFrom {left sum : String} {attributes : List String} {c : Clause}
    (h : clauseFrom (Text.strip left) sum attributes = .ok c) {t : NodeType} (ht : t ∈ c.types) :
    ∃ text, t.name = Text.strip text := by
  obtain ⟨types, htypes, h⟩ := ok_of_bind_ok h
  cases h
  unfold constructorTypes at htypes
  split at htypes
  · obtain ⟨product, hproduct, h⟩ := ok_of_bind_ok htypes
    cases h
    obtain rfl := List.mem_singleton.1 ht
    rw [name_ofTexts hproduct]
    split_ifs
    · exact ⟨left, rfl⟩
    · exact ⟨_, rfl⟩
  · exact exists_strip_of_sumTypes htypes ht

theorem exists_strip_of_clausesOf {ds : List (Option String)} {cs : List Clause}
    (h : clausesOf ds = .ok cs) {c : Clause} (hc : c ∈ cs) {t : NodeType} (ht : t ∈ c.types) :
    ∃ text, t.name = Text.strip text := by
  induction ds generalizing cs with
  | nil =>
    cases h
    exact absurd hc List.not_mem_nil
  | cons d ds ih =>
    cases d with
    | none => cases h
    | some d =>
      obtain ⟨first, hfirst, h⟩ := ok_of_bind_ok h
      obtain ⟨rest, hrest, h⟩ := ok_of_bind_ok h
      cases h
      rcases List.mem_cons.1 hc with rfl | hc
      · unfold clauseOf at hfirst
        split at hfirst
        · split at hfirst
          · exact exists_strip_of_clauseFrom hfirst ht
          · exact exists_strip_of_clauseFrom hfirst ht
          · cases hfirst
        · cases hfirst
      · exact ih hrest hc

/-! ## What is stored -/

theorem update_append {α : Type} (entries more later : List (String × α)) :
    update entries (more ++ later) = update (update entries more) later :=
  List.foldl_append

namespace Outline

variable (o : Outline)

/-- The categories in the order of the outline. -/
def categoryEntries : List (String × Category) :=
  (o.pieces.map fun p => (p, ⟨p, [lastWord p], true⟩)) ++ o.clauses.map (·.categoryEntry)

/-- The types in the order of the outline. -/
def typeEntries : List (String × NodeType) :=
  (o.pieces.map fun p => (lastWord p, ⟨lastWord p, p, [], []⟩)) ++
    o.clauses.flatMap (·.typeEntries)

theorem map_fst_categoryEntries : o.categoryEntries.map Prod.fst = o.categoryNames := by
  simp [categoryEntries, categoryNames, Function.comp_def, Clause.categoryEntry]

theorem map_fst_typeEntries : o.typeEntries.map Prod.fst = o.typeNames := by
  simp [typeEntries, typeNames, Function.comp_def, Clause.typeEntries, Clause.typeNames,
    List.map_flatMap]

theorem foldl_addTo (cs : List Clause) (g : Grammar) :
    cs.foldl (fun g c => c.addTo g) g = ⟨update g.categories (cs.map (·.categoryEntry)),
      update g.types (cs.flatMap (·.typeEntries))⟩ := by
  induction cs generalizing g with
  | nil => rfl
  | cons c cs ih =>
    rw [List.foldl_cons, ih, List.flatMap_cons, update_append, Clause.addTo, foldl_addType]
    rfl

/-- What is stored is what the outline has, later things in place of earlier ones. -/
theorem grammar_eq : o.grammar = ⟨update [] o.categoryEntries, update [] o.typeEntries⟩ := by
  have hwords : ∀ p ∈ o.pieces.map fun p => (p, lastWord p),
      (Text.splitOn " " p.1).getLastD "" = p.2 := by
    intro p hp
    obtain ⟨q, -, rfl⟩ := List.mem_map.1 hp
    rfl
  have hpieces := foldl_addBuiltin hwords .empty
  simp only [List.map_map, Function.comp_def, List.map_id'] at hpieces
  rw [grammar, hpieces, foldl_addTo, categoryEntries, typeEntries, update_append, update_append]
  rfl

/-- The names that have a type. -/
theorem mem_types_grammar {n : String} : n ∈ o.grammar.types.map Prod.fst ↔
    n ∈ o.pieces.map lastWord ∨ ∃ c ∈ o.clauses, n ∈ c.typeNames := by
  rw [grammar_eq]
  show n ∈ (update [] o.typeEntries).map Prod.fst ↔ _
  rw [mem_map_fst_update_iff, map_fst_typeEntries, typeNames, List.mem_append, List.mem_flatMap]
  simp

/-- If no category is named twice, none is replaced. -/
theorem categories_grammar (h : o.categoryNames.Nodup) :
    o.grammar.categories = o.categoryEntries := by
  rw [grammar_eq]
  show update [] o.categoryEntries = _
  rw [update_of_new (by rwa [map_fst_categoryEntries]) (fun _ _ => List.not_mem_nil),
    List.nil_append]

/-- If no type is named twice, none is replaced. -/
theorem types_grammar (h : o.typeNames.Nodup) : o.grammar.types = o.typeEntries := by
  rw [grammar_eq]
  show update [] o.typeEntries = _
  rw [update_of_new (by rwa [map_fst_typeEntries]) (fun _ _ => List.not_mem_nil),
    List.nil_append]

end Outline

end SourceScribe.Asdl
