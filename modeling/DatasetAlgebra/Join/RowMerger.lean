import DatasetAlgebra.Error

/-!
Row mergers: they make one row of a left and a right row, either of which may be missing. A column
that both sides have takes the value of the right; one that neither row has a value for is null.
-/
namespace DatasetAlgebra

structure RowMerger where
  left : Schema
  /-- The schema of right rows, if there are any. -/
  right : Option Schema
  output : Schema

namespace RowMerger

/-- The first column of `s` that `output` lacks. -/
def missing? (s output : Schema) : Option Column := s.columns.find? fun c => !output.contains c.name

def covering (s output : Schema) : Except Error Unit :=
  match missing? s output with
  | some c => .error (.unknown c.name)
  | none => .ok ()

/-- Merges rows of two sides. The output must have the columns of both. -/
def pair (left right output : Schema) : Except Error RowMerger := do
  covering left output
  covering right output
  .ok ⟨left, some right, output⟩

/-- Carries the rows of one side over. -/
def single (source output : Schema) : Except Error RowMerger := do
  covering source output
  .ok ⟨source, none, output⟩

/-- The value of a row at the position that a column has in the schema of its side. -/
def sideValue? (side : Option Schema) (r : Option Row) (name : String) : Option Value :=
  side.bind fun s => r.bind fun r => (s.position? name).bind fun i => r.values[i]?

def value (m : RowMerger) (left right : Option Row) (c : Column) : Value :=
  ((sideValue? m.right right c.name).or (sideValue? (some m.left) left c.name)).getD c.null

def merge (m : RowMerger) (left right : Option Row) : Row :=
  ⟨m.output, m.output.columns.map (m.value left right), by simp [Schema.width]⟩

@[simp] theorem schema_merge (m : RowMerger) (left right : Option Row) :
    (m.merge left right).schema = m.output := rfl

end RowMerger
end DatasetAlgebra
