import DatasetAlgebra.Dataset.Basic
import DatasetAlgebra.Policy
import DatasetAlgebra.SortOrder.Buffer

/-!
Requests: rows of a dataset in an order and through a filter, whether the dataset applies them or
not. What it leaves undone is done here as far as the policy allows. A failure releases the stream
that was opened before it is reported.
-/
namespace DatasetAlgebra
namespace Dataset

/-- Ends an operation that failed with a stream open. -/
def abort {α : Type} (s : RowStream) (e : Error) : Recorded α :=
  ⟨s.pending.events, .error (s.pending.onto e)⟩

/-- Filters a stream by what its source left undone. -/
def settleFilter (d : Dataset) (policy : Policy) (s : RowStream) : Recorded RowStream :=
  if s.residualFilter.isAll then .ok s
  else if policy.filters then .ok (s.applyFilter s.residualFilter)
  else abort s (.unsupported (.filter (.source d.schema) s.residualFilter))

/-- Reads a stream to its end and gives its rows sorted. `wanted` is the order on record. -/
def sortStream (capacity : Nat) (wanted order : SortOrder) (s : RowStream) : Recorded RowStream :=
  let filled := (SortBuffer.empty order capacity).fill (s.rows ())
  let events := filled.events ++ s.pending.events
  match filled.failure, s.pending.failure with
  | some e, _ => ⟨events, .error (s.pending.onto e)⟩
  | none, some e => ⟨events, .error e⟩
  | none, none =>
    let sorted := RowStream.ofRows s.schema fun _ => .ofRows filled.buffer.sorted
    ⟨events, .ok ((sorted.wanted wanted s.wantedFilter).applied order s.filter)⟩

/-- Sorts a stream by what its source left undone. An order on columns that the stream lacks gives
the stream up: what its release fails with is not reported then. -/
def settleOrder (d : Dataset) (policy : Policy) (wanted : SortOrder) (s : RowStream) :
    Recorded RowStream :=
  if s.residualOrder.isAny then .ok s
  else if policy.sorts then
    match s.residualOrder.onto s.schema with
    | .error e => ⟨s.abandon, .error e⟩
    | .ok order => sortStream policy.capacity wanted order s
  else abort s (.unsupported (.order (.source d.schema) s.residualOrder))

/-- Rows in the order and through the filter asked for. -/
def request (d : Dataset) (order : SortOrder) (f : Filter) (columns : List String)
    (policy : Policy) : Recorded RowStream :=
  ((d.read order f columns).andThen (d.settleFilter policy)).andThen (d.settleOrder policy order)

end Dataset
end DatasetAlgebra
