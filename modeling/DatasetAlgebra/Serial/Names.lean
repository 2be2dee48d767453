import DatasetAlgebra.Aggregation.Reducer
import DatasetAlgebra.Digest.Blake3
import DatasetAlgebra.Join.Kind
import DatasetAlgebra.Policy
import DatasetAlgebra.Serial.Value
import DatasetAlgebra.SortOrder.Basic

/-! JSON documents of the smaller types: constants by name, columns, policies and digests. -/
namespace DatasetAlgebra

namespace Role

def values : List Role := [.identifier, .measure, .attribute]

def ofName? (name : String) : Option Role := values.find? fun r => r.name = name

def toDocument (r : Role) : Document := .string r.name

def ofDocument? (d : Document) : Option Role := (d.constant? .alone).bind ofName?

end Role

namespace Direction

def values : List Direction := [.ascending, .descending]

def name : Direction → String
  | .ascending => "asc"
  | .descending => "desc"

def ofName? (name : String) : Option Direction := values.find? fun d => d.name = name

def toDocument (d : Direction) : Document := .string d.name

def ofDocument? (d : Document) : Option Direction := (d.constant? .alone).bind ofName?

end Direction

namespace Reducer

def values : List Reducer := [.sum, .min, .max, .count]

def ofName? (name : String) : Option Reducer := values.find? fun r => r.name = name

def toDocument (r : Reducer) : Document := .string r.name

def ofDocument? (d : Document) : Option Reducer := (d.constant? .alone).bind ofName?

end Reducer

namespace JoinKind

def values : List JoinKind := [.inner, .outer, .left]

def ofName? (name : String) : Option JoinKind := values.find? fun k => k.name = name

def toDocument (k : JoinKind) : Document := .string k.name

def ofDocument? (d : Document) : Option JoinKind := (d.constant? .alone).bind ofName?

end JoinKind

namespace Column

def toDocument (c : Column) : Document :=
  .object [("name", .string c.name), ("role", c.role.toDocument),
    ("value_type", c.type.toDocument)]

def ofDocument? (d : Document) : Option Column :=
  match d.record? ["name", "role", "value_type"] with
  | some [some name, some role, some type] => do
    some ⟨← name.string?, ← Role.ofDocument? role, ← ValueType.ofDocument? .alone type⟩
  | _ => none

end Column

namespace Policy

def toDocument (p : Policy) : Document :=
  .object [("sort_fallback", .boolean p.sorts), ("sort_buffer_rows", .integer p.capacity),
    ("filter_fallback", .boolean p.filters)]

/-- A field that is missing has its standard. -/
def ofDocument? (d : Document) : Option Policy :=
  match d.record? ["sort_fallback", "sort_buffer_rows", "filter_fallback"] with
  | some [sorts, capacity, filters] => do
    let sorts ← sorts.elim (some standard.sorts) Document.boolean?
    let capacity ← capacity.elim (some standard.capacity) (Document.natural? (Nat.pow 2 64))
    let filters ← filters.elim (some standard.filters) Document.boolean?
    some ⟨sorts, capacity, filters⟩
  | _ => none

end Policy

namespace Digest

def toDocument (d : Digest) : Document :=
  .array (d.bytes.toList.map fun b => .integer b.toNat)

def ofDocument? : Document → Option Digest
  | .array items =>
    (items.mapM (Document.natural? 256)).bind fun ns => ofBytes? (ns.map UInt8.ofNat)
  | _ => none

end Digest
end DatasetAlgebra
