import DatasetAlgebra.Schema.Build
import DatasetAlgebra.Value.Order

/-! Sort orders at work: on rows, by column name, and on keys, by position. -/
namespace DatasetAlgebra
namespace SortOrder

/-- The same keys bound to the columns of a schema. -/
def keysOnto (s : Schema) : List SortKey → Except Error (List SortKey)
  | [] => .ok []
  | k :: rest =>
    match s.column? k.column.name with
    | none => .error (.unknown k.column.name)
    | some c => (keysOnto s rest).map (⟨c, k.direction⟩ :: ·)

/-- The same order with its keys bound to the columns of a schema. -/
def onto (o : SortOrder) (s : Schema) : Except Error SortOrder :=
  (keysOnto s o.keys).map SortOrder.mk

/-- Compares two rows by one column; rows that lack it are equal. -/
def compareBy (k : SortKey) (a b : Row) : Ordering :=
  match a.value? k.column.name, b.value? k.column.name with
  | some x, some y => k.direction.along (x.collate y)
  | _, _ => .eq

/-- The first column in which the rows differ decides. -/
def compare (o : SortOrder) (a b : Row) : Ordering :=
  o.keys.foldr (fun k rest => (compareBy k a b).then rest) .eq

/-- Compares keys position by position, along the directions of the order. -/
def compareKeys (o : SortOrder) (a b : List Value) : Ordering :=
  (o.keys.zip (a.zip b)).foldr
    (fun (k, x, y) rest => (k.direction.along (x.collate y)).then rest) .eq

def sameKey (o : SortOrder) (a b : List Value) : Bool := o.compareKeys a b == .eq

/-- Puts a row behind the last of the sorted rows that it does not precede. The latest row comes
first in `sorted`. -/
def insert (o : SortOrder) (sorted : List Row) (r : Row) : List Row :=
  match sorted with
  | [] => [r]
  | last :: rest => if o.compare r last == .lt then last :: o.insert rest r else r :: last :: rest

/-- Sorts by comparing each row with those before it, the nearest first. This settles the result
also where rows lack a column and the order is not transitive. -/
def sortFew (o : SortOrder) (rows : List Row) : List Row := (rows.foldl o.insert []).reverse

/-- Sorts by merging, which takes fewer comparisons of many rows. -/
def sortMany (o : SortOrder) (rows : List Row) : List Row :=
  rows.mergeSort fun a b => o.compare a b != .gt

/-- Sorts rows; rows that are equal under the order stay in their order. -/
def sort (o : SortOrder) (rows : List Row) : List Row :=
  if rows.length ≤ 20 then o.sortFew rows else o.sortMany rows

end SortOrder
end DatasetAlgebra
