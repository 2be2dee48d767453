import DatasetAlgebra.Dataset.Basic

/-!
Replays: datasets from outside the library, given by what they would do. A replay may claim an
order or a filter that its rows do not have.
-/
namespace DatasetAlgebra

structure Replay where
  name : String
  schema : Schema
  /-- The schema of the streams, which an honest source takes from `schema`. -/
  streamSchema : Schema
  items : List (Except Error Row)
  /-- The order and filter put down as applied, in place of those asked for. -/
  claimedOrder : Option SortOrder := none
  claimedFilter : Option Filter := none
  /-- Whether streams say what they were asked for. -/
  recordsRequest : Bool := true
  /-- Why no stream can be opened. -/
  openFailure : Option Error := none
  release : Option Release := none
  /-- Whether pulls can be observed. -/
  traced : Bool := false

namespace Replay

def rows (r : Replay) : Rows := if r.traced then .traced r.name r.items else .ofItems r.items

def stream (r : Replay) (order : SortOrder) (f : Filter) : RowStream :=
  let s := RowStream.ofRows r.streamSchema fun _ => r.rows
  let s := if r.recordsRequest then s.wanted order f else s
  let s := s.applied (r.claimedOrder.getD order) (r.claimedFilter.getD f)
  r.release.elim s s.onClose

def read (r : Replay) (order : SortOrder) (f : Filter) (columns : List String) :
    Recorded RowStream :=
  ⟨[.opened r.name order f columns],
    match r.openFailure with
    | some e => .error e
    | none => .ok (r.stream order f)⟩

def toDataset (r : Replay) : Dataset where
  schema := r.schema
  read := r.read

end Replay
end DatasetAlgebra
