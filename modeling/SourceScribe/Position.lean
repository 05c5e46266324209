/-
  Positions in a source text: a row and a column, in reading order.
-/
namespace SourceScribe

/-- A place in a text.  Rows count from one and columns from zero. -/
structure Position where
  row : Int
  column : Int
deriving DecidableEq

namespace Position

/-- Reading order: by row, then by column. -/
protected def Lt (p q : Position) : Prop :=
  p.row < q.row ∨ p.row = q.row ∧ p.column < q.column

instance : LT Position := ⟨Position.Lt⟩

instance (p q : Position) : Decidable (p < q) :=
  inferInstanceAs (Decidable (p.row < q.row ∨ p.row = q.row ∧ p.column < q.column))

theorem lt_iff (p q : Position) :
    p < q ↔ p.row < q.row ∨ p.row = q.row ∧ p.column < q.column :=
  Iff.rfl

/-- The earlier of two positions. -/
def earlier (p q : Position) : Position :=
  if q < p then q else p

end Position

end SourceScribe
