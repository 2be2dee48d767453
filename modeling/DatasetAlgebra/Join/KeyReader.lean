import DatasetAlgebra.SortOrder.Rows

/-! Key readers: they take the key of a row from the positions its schema declares. -/
namespace DatasetAlgebra

structure KeyReader where
  /-- The key columns, each with its position. -/
  columns : List (String × Nat)
  deriving Repr, Inhabited

namespace KeyReader

def size (k : KeyReader) : Nat := k.columns.length

def isEmpty (k : KeyReader) : Bool := k.columns.isEmpty

def locate (s : Schema) (name : String) : Except Error (String × Nat) :=
  match s.position? name with
  | some i => .ok (name, i)
  | none => .error (.unknown name)

def locateAll (s : Schema) (resolve : String → Except Error String) :
    List String → Except Error (List (String × Nat))
  | [] => .ok []
  | name :: rest => do
    let column ← locate s (← resolve name)
    .ok (column :: (← locateAll s resolve rest))

/-- Reads the columns of an order, each under the name that `resolve` gives for it. -/
def resolving (s : Schema) (o : SortOrder) (resolve : String → Except Error String) :
    Except Error KeyReader :=
  (locateAll s resolve o.columns).map KeyReader.mk

/-- Reads the columns of an order under their own names. -/
def byName (s : Schema) (o : SortOrder) : Except Error KeyReader := resolving s o .ok

/-- One column of a key. The schema of the row has to agree on where it is. -/
def component (r : Row) (name : String) (position : Nat) : Except Error Value :=
  if (r.schema.columns[position]?).map Column.name = some name then
    match r.values[position]? with
    | some v => .ok v
    | none => .error (.misfit (.missingKey r position))
  else .error (.breach (.key r name position))

def components (r : Row) : List (String × Nat) → Except Error (List Value)
  | [] => .ok []
  | (name, position) :: rest => do
    let v ← component r name position
    .ok (v :: (← components r rest))

/-- The key of a row, in the order of the columns. -/
def read (k : KeyReader) (r : Row) : Except Error (List Value) := components r k.columns

end KeyReader
end DatasetAlgebra
