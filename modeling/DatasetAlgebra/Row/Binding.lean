import DatasetAlgebra.Schema.Build
import DatasetAlgebra.Value.Order

/-! Binding values to schemas, and the equality and hash content of rows, which go by name. -/
namespace DatasetAlgebra

namespace Row

/-- Binds values to a schema, checking their number and types. -/
def bind (s : Schema) (values : List Value) : Except Error Row :=
  if h : values.length = s.width then
    match (s.columns.zip values).find? fun (c, v) => c.type ≠ v.type with
    | some (c, v) => .error (.misfit (.type c v.type))
    | none => .ok ⟨s, values, h⟩
  else .error (.misfit (.arity s.width values.length))

/-- The row with each value at the position its name has in `target`; columns that the row lacks
are null. -/
def byName (r : Row) (target : Schema) : Row :=
  ⟨target, target.columns.map fun c => (r.value? c.name).getD c.null, by simp [Schema.width]⟩

/-- Binds a row to an equal schema, which may declare its columns in another order. In the same
layout the values stay as they stand. -/
def rebind (r : Row) (target : Schema) : Except Error Row :=
  -- the widths of one layout differ only where digests collide
  if h : r.schema.sameLayout target ∧ r.schema.width = target.width then
    .ok ⟨target, r.values, r.arity.trans h.2⟩
  else if r.schema.same target then
    match target.columns.find? fun c => !r.schema.contains c.name with
    | some c => .error (.unknown c.name)
    | none => .ok (r.byName target)
  else .error (.misfit (.foreign r target))

/-- Equal schemas, and the same value under every name. -/
def same (a b : Row) : Bool :=
  a.schema.same b.schema &&
    (a.schema.columns.zip a.values).all fun (c, v) =>
      match b.value? c.name with
      | some w => w == v
      | none => false

/-- What a hash covers of a row: the fingerprint, and the values in the order of their names. -/
def hashContent (r : Row) : Digest × List (String × ValueType × Option HashContent) :=
  (r.schema.fingerprint,
    ((r.schema.names.zip r.values).mergeSort fun a b => a.1 ≤ b.1).map fun (name, v) =>
      (name, v.hashContent))

end Row

namespace Schema

/-- Puts values under their names; of values under one name the last stays. -/
def fill (s : Schema) : List Value → List (String × Value) → Except Error (List Value)
  | values, [] => .ok values
  | values, (name, v) :: rest =>
    match s.position? name with
    | some i => s.fill (values.set i v) rest
    | none => .error (.unknown name)

/-- A row from values by name, with nulls where no value is given. -/
def wrap (s : Schema) (pairs : List (String × Value)) : Except Error Row :=
  (s.fill (s.columns.map Column.null) pairs).bind (Row.bind s)

end Schema
end DatasetAlgebra
