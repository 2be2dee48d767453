import DatasetAlgebra.Schema.Basic

/-! Sort orders: columns with a direction each, the most significant first. -/
namespace DatasetAlgebra

inductive Direction where
  | ascending
  | descending
  deriving DecidableEq, Repr, Inhabited

namespace Direction

def text : Direction → String
  | .ascending => "ASC"
  | .descending => "DESC"

/-- A comparison as seen along the direction. -/
def along : Direction → Ordering → Ordering
  | .ascending, o => o
  | .descending, o => o.swap

end Direction

structure SortKey where
  column : Column
  direction : Direction
  deriving DecidableEq, Repr, Inhabited

structure SortOrder where
  keys : List SortKey
  deriving DecidableEq, Repr, Inhabited

namespace SortOrder

/-- No demand on the order of rows. -/
def any : SortOrder := ⟨[]⟩

def ascending (columns : List Column) : SortOrder := ⟨columns.map (SortKey.mk · .ascending)⟩

/-- Adds keys that decide where the order has none. -/
def andThen (o : SortOrder) (keys : List SortKey) : SortOrder := ⟨o.keys ++ keys⟩

def columns (o : SortOrder) : List String := o.keys.map fun k => k.column.name

def isAny (o : SortOrder) : Bool := o.keys.isEmpty

def text (o : SortOrder) : String :=
  if o.isAny then "<any>"
  else ", ".intercalate (o.keys.map fun k => k.column.name ++ " " ++ k.direction.text)

/-- Whether two keys demand the same, whatever their columns' roles and types. -/
def sameDemand (a b : SortKey) : Bool :=
  a.column.name = b.column.name && a.direction = b.direction

/-- Rows in the order `provided` are also in the order `wanted`: the latter is a prefix of the
former. -/
def satisfiedBy (wanted provided : SortOrder) : Bool :=
  wanted.keys.length ≤ provided.keys.length &&
    (wanted.keys.zip provided.keys).all fun (a, b) => sameDemand a b

end SortOrder
end DatasetAlgebra
