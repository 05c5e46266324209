/-
  Entries: values under names.

  A name has one value.  What is stored under a name that is there replaces the value and
  keeps its place; a new name comes last.
-/
namespace SourceScribe.Entries

variable {α : Type}

/-- Stores a value under a name. -/
def store (entries : List (String × α)) (name : String) (value : α) : List (String × α) :=
  if entries.any (·.1 = name) then
    entries.map fun e => if e.1 = name then (name, value) else e
  else entries ++ [(name, value)]

/-- Stores several values under their names, one after the other. -/
def update (entries more : List (String × α)) : List (String × α) :=
  more.foldl (fun es e => store es e.1 e.2) entries

/-- Entries in the order of their names. -/
def sortByName (entries : List (String × α)) : List (String × α) :=
  entries.mergeSort fun a b => decide (a.1 ≤ b.1)

/-- What was stored under a name is found there. -/
theorem lookup_store_self (entries : List (String × α)) (name : String) (value : α) :
    (store entries name value).lookup name = some value := by
  induction entries with
  | nil => simp [store]
  | cons e es ih =>
    obtain ⟨n, v⟩ := e
    simp only [store] at ih ⊢
    by_cases h : n = name
    · simp [h]
    · have hb : (name == n) = false := beq_false_of_ne fun k => h k.symm
      by_cases hes : es.any (·.1 = name)
      · rw [if_pos hes] at ih
        simpa [h, hes, List.lookup_cons, hb] using ih
      · rw [if_neg hes] at ih
        simpa [h, hes, List.lookup_cons, hb] using ih

end SourceScribe.Entries
