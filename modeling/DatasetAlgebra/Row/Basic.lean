import DatasetAlgebra.Schema.Basic
import DatasetAlgebra.Value.Text

/-! Rows: as many values as the columns of their schema, at the positions of the columns. -/
namespace DatasetAlgebra

structure Row where
  schema : Schema
  values : List Value
  arity : values.length = schema.width

namespace Row

def value? (r : Row) (name : String) : Option Value :=
  (r.schema.position? name).bind fun i => r.values[i]?

/-- Every value has the type of its column. -/
def conforms (r : Row) : Bool :=
  (r.schema.columns.zip r.values).all fun (c, v) => c.type = v.type

/-- The row that has only nulls. -/
def nulls (s : Schema) : Row := ⟨s, s.columns.map Column.null, by simp [Schema.width]⟩

instance : Inhabited Row := ⟨nulls .empty⟩

def text (r : Row) : String := "(" ++ ", ".intercalate (r.values.map Value.text) ++ ")"

end Row
end DatasetAlgebra
