import DatasetAlgebra.Stream.Basic

/-!
Datasets: a schema, and a way to read rows of it in an order and through a filter. A dataset may
apply what it is asked for or leave it to the reader; the stream it gives says which.
-/
namespace DatasetAlgebra

structure Dataset where
  schema : Schema
  /-- Rows in an order and through a filter, as far as the dataset applies them. The columns hint
  at what the reader uses; no columns is no hint. -/
  read : SortOrder → Filter → List String → Recorded RowStream
  /-- The part of an order that `read` would leave to the reader. -/
  unsupportedOrder : SortOrder → SortOrder := id
  /-- The part of a filter that `read` would leave to the reader. -/
  unsupportedFilter : Filter → Filter := id
  /-- The number of rows, if it is known without reading. -/
  size : Option Nat := none
  /-- The number of distinct values of each column, if known without reading. -/
  distinctCounts : Option (List (String × Nat)) := none

namespace Dataset

/-- All rows, in the order of the dataset. -/
def readAll (d : Dataset) : Recorded RowStream := d.read .any .all []

end Dataset
end DatasetAlgebra
