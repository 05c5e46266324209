/-
  The record of source lines.

  While a page is written, every node adds its line to the statement around it.  The
  record says which lines each statement has; it grows and is never cleared, also when
  a page fails.
-/
import SourceScribe.Tree.Path

namespace SourceScribe.Page

/-- Which lines belong to which statement. -/
structure Record where
  entries : List (Path × Int)

namespace Record

/-- Nothing recorded. -/
def empty : Record := ⟨[]⟩

/-- Adds a line to a statement. -/
def add (r : Record) (statement : Path) (line : Int) : Record :=
  if (statement, line) ∈ r.entries then r else ⟨(statement, line) :: r.entries⟩

/-- The lines of a statement in rising order. -/
def lines (r : Record) (statement : Path) : List Int :=
  ((r.entries.filter (·.1 = statement)).map (·.2)).mergeSort

theorem mem_lines {r : Record} {statement : Path} {line : Int} :
    line ∈ r.lines statement ↔ (statement, line) ∈ r.entries := by
  simp [lines]

theorem mem_add {r : Record} {s t : Path} {k l : Int} :
    (t, l) ∈ (r.add s k).entries ↔ (t, l) = (s, k) ∨ (t, l) ∈ r.entries := by
  unfold add
  split
  · rename_i h
    constructor
    · exact Or.inr
    · rintro (heq | h')
      · rw [heq]; exact h
      · exact h'
  · simp

end Record

end SourceScribe.Page
