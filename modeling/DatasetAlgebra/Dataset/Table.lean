import DatasetAlgebra.Dataset.Basic
import DatasetAlgebra.Row.Binding

/-!
Tables: datasets that hold their rows in memory. A table sorts and filters by itself unless it is
told to leave either to the reader.
-/
namespace DatasetAlgebra

structure Table where
  schema : Schema
  rows : List Row
  bound : ∀ r ∈ rows, r.schema = schema
  sorts : Bool := true
  filters : Bool := true
  /-- What closing a stream of the table releases. -/
  release : Option Release := none

namespace Table

theorem schema_of_rebind {r q : Row} {s : Schema} (h : r.rebind s = .ok q) : q.schema = s := by
  unfold Row.rebind at h
  split at h
  · cases h
    rfl
  · split at h
    · split at h
      · cases h
      · cases h
        rfl
    · cases h

/-- Binds rows to a schema that theirs equal. -/
def rebindAll (s : Schema) : List Row → Except Error {rows : List Row // ∀ r ∈ rows, r.schema = s}
  | [] => .ok ⟨[], by simp⟩
  | r :: rest =>
    match h : r.rebind s with
    | .error e => .error e
    | .ok q =>
      (rebindAll s rest).map fun qs =>
        ⟨q :: qs.1, by
          intro p hp
          rcases List.mem_cons.1 hp with rfl | hp
          · exact schema_of_rebind h
          · exact qs.2 p hp⟩

def ofRows (s : Schema) (rows : List Row) : Except Error Table :=
  (rebindAll s rows).map fun rows => { schema := s, rows := rows.1, bound := rows.2 }

def wrapAll (s : Schema) : List (List (String × Value)) → Except Error (List Row)
  | [] => .ok []
  | pairs :: rest => (s.wrap pairs).bind fun r => (wrapAll s rest).map (r :: ·)

/-- A table from values by name, with nulls where no value is given. -/
def ofPairs (s : Schema) (rows : List (List (String × Value))) : Except Error Table :=
  (wrapAll s rows).bind (ofRows s)

/-- Rows that a filter keeps; the first row on which it fails fails all. -/
def kept (f : Filter) : List Row → Except Error (List Row)
  | [] => .ok []
  | r :: rest =>
    (f.keeps r).bind fun keep => (kept f rest).map fun rows => if keep then r :: rows else rows

/-- Rows through a filter and in an order, either of which may demand nothing. -/
def select (t : Table) (order : SortOrder) (f : Filter) : Except Error (List Row) :=
  if f.isAll && order.isAny then .ok t.rows else (kept f t.rows).map order.sort

def read (t : Table) (order : SortOrder) (f : Filter) (_ : List String) : Recorded RowStream :=
  .silent (do
    let applied ← if t.sorts then order.onto t.schema else .ok .any
    let filter := if t.filters then f else .all
    let rows ← t.select applied filter
    let s := RowStream.ofRows t.schema fun _ => .ofRows rows
    let s := (s.wanted order f).applied applied filter
    .ok (t.release.elim s s.onClose))

/-- The number of distinct values among some, told apart by equality and hash content. -/
def countDistinct (values : List Value) : Nat :=
  (values.foldl
    (fun seen v =>
      if seen.any fun w => w == v && w.hashContent = v.hashContent then seen else v :: seen)
    []).length

def distinctCounts (t : Table) : List (String × Nat) :=
  t.schema.columns.mapIdx fun i c => (c.name, countDistinct (t.rows.filterMap fun r => r.values[i]?))

def toDataset (t : Table) : Dataset where
  schema := t.schema
  read := t.read
  unsupportedOrder order := if t.sorts then .any else order
  unsupportedFilter f := if t.filters then .all else f
  size := some t.rows.length
  distinctCounts := some t.distinctCounts

def debug (t : Table) : String :=
  let flag (b : Bool) := if b then "true" else "false"
  Filter.braced "MemoryDataset"
    ["structure: " ++ Text.quoted t.schema.text, "rows: " ++ toString t.rows.length,
      "accepts_ordering: " ++ flag t.sorts, "accepts_filtering: " ++ flag t.filters]

end Table
end DatasetAlgebra
