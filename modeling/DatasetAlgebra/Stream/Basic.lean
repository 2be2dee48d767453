import DatasetAlgebra.Schema.Fingerprint
import DatasetAlgebra.SortOrder.Rows
import DatasetAlgebra.Stream.Release
import DatasetAlgebra.Stream.Rows

/-!
Row streams: rows of one schema, what has to be released after them, and a record of the order and
filter that were wanted and of those that were applied. A stream is read once. Running out of rows
closes it, and so does `close`; a closed stream gives nothing more.
-/
namespace DatasetAlgebra

structure RowStream where
  schema : Schema
  rows : Delayed Rows
  release : Option Release
  wantedOrder : SortOrder
  wantedFilter : Filter
  order : SortOrder
  filter : Filter
  finished : Bool

namespace RowStream

/-- A stream for which nothing was wanted and nothing applied. -/
def ofRows (schema : Schema) (rows : Delayed Rows) : RowStream :=
  ⟨schema, rows, none, .any, .all, .any, .all, false⟩

instance : Inhabited RowStream := ⟨ofRows .empty fun _ => .empty⟩

def wanted (s : RowStream) (order : SortOrder) (filter : Filter) : RowStream :=
  { s with wantedOrder := order, wantedFilter := filter }

def applied (s : RowStream) (order : SortOrder) (filter : Filter) : RowStream :=
  { s with order := order, filter := filter }

/-- Adds a release. Those added later are made first. -/
def onClose (s : RowStream) (r : Release) : RowStream :=
  { s with release := some (s.release.elim r r.before) }

def mapRows (s : RowStream) (f : Delayed Rows → Rows) : RowStream :=
  { s with rows := fun _ => f s.rows }

/-- What the consumer still has to sort by. -/
def residualOrder (s : RowStream) : SortOrder :=
  if s.wantedOrder.satisfiedBy s.order then .any else s.wantedOrder

/-- What the consumer still has to filter by. -/
def residualFilter (s : RowStream) : Filter :=
  if s.wantedFilter.isAll || s.wantedFilter == s.filter then .all else s.wantedFilter

def isClosed (s : RowStream) : Bool := s.finished && s.release.isNone

/-- What closing would release now. -/
def pending (s : RowStream) : Release := s.release.getD .nothing

def closed (s : RowStream) : RowStream :=
  { s with rows := fun _ => .empty, release := none, finished := true }

/-- Closes a stream. Closing it again releases nothing. -/
def close (s : RowStream) : Release × RowStream := (s.pending, s.closed)

/-- The next row. When there is none the stream closes; if that fails, the failure comes last. -/
def next (s : RowStream) : Poll × RowStream :=
  if s.finished then (⟨[], none⟩, s)
  else
    let (p, rest) := (s.rows ()).next
    match p.item with
    | some i => (⟨p.events, some i⟩, { s with rows := rest })
    | none => (⟨p.events ++ s.pending.events, s.pending.failure.map .error⟩, s.closed)

theorem next_of_finished {s : RowStream} (h : s.finished = true) : s.next = (⟨[], none⟩, s) := by
  simp [next, h]

theorem next_of_item {s : RowStream} (hs : s.finished = false) {i : Except Error Row}
    (h : (s.rows ()).next.1.item = some i) :
    s.next = (⟨(s.rows ()).next.1.events, some i⟩, { s with rows := (s.rows ()).next.2 }) := by
  simp only [next, hs, Bool.false_eq_true, if_false, h]

theorem next_of_end {s : RowStream} (hs : s.finished = false)
    (h : (s.rows ()).next.1.item = none) :
    s.next = (⟨(s.rows ()).next.1.events ++ s.pending.events, s.pending.failure.map .error⟩,
      s.closed) := by
  simp only [next, hs, Bool.false_eq_true, if_false, h]

/-- What is seen of a stream that is given up without being closed: failures are not. -/
def abandon (s : RowStream) : List Event := s.pending.events

/-- Takes a stream apart into its rows and its release. -/
def parts (s : RowStream) : Delayed Rows × Option Release := (s.rows, s.release)

/-- Everything a stream gives until it gives nothing, and the stream after that. -/
def drain (s : RowStream) : List Event × List (Except Error Row) × RowStream :=
  if s.finished then ([], [], s)
  else
    let d := (s.rows ()).drain
    (d.events ++ s.pending.events, d.items ++ (s.pending.failure.map .error).toList, s.closed)

/-- All rows of a stream, or the first failure, behind which the stream can be read on. -/
def collect (s : RowStream) : Recorded (List Row) × RowStream :=
  if s.finished then (.ok [], s)
  else
    let c := (s.rows ()).collect
    match c.failure with
    | some e => (⟨c.events, .error e⟩, { s with rows := c.rest })
    | none =>
      (⟨c.events ++ s.pending.events, s.pending.outcome.map fun _ => c.rows⟩, s.closed)

/-- Filters the rows of a stream. What was wanted counts as applied once it is applied here,
whatever the source did. -/
def applyFilter (s : RowStream) (f : Filter) : RowStream :=
  if f.isAll then s
  else
    let applied := if f == s.wantedFilter then f else s.filter.both f
    { s with rows := fun _ => (s.rows ()).filter f, filter := applied }

/-- The diagnostic form, which leaves out rows and releases. -/
def debug (s : RowStream) : String :=
  Filter.braced "DataStream"
    ["structure: " ++ Text.quoted s.schema.text, "ordering: " ++ Text.quoted s.order.text,
      "requested_ordering: " ++ Text.quoted s.wantedOrder.text, "filtering: " ++ s.filter.debug,
      "requested_filtering: " ++ s.wantedFilter.debug,
      "finished: " ++ (if s.finished then "true" else "false")]

end RowStream

/-- Moves the release of a stream onto the stack. -/
def ReleaseStack.register (stack : ReleaseStack) (name : String) (s : RowStream) : ReleaseStack :=
  match s.release with
  | none => stack
  | some r => stack.push name r

end DatasetAlgebra
