import DatasetAlgebra.Aggregation.Accumulator
import DatasetAlgebra.Join.KeyReader
import DatasetAlgebra.Stream.Rows

/-!
Grouping of rows that are ordered by their keys: each run of rows with equal keys gives one row.
Only the accumulator of the current group is held. A group is known to be complete once a row of
another key has been pulled, or none; that row then opens the next group without a pull.
-/
namespace DatasetAlgebra

structure Grouping where
  keys : KeyReader
  order : SortOrder
  /-- The name of the measure and its position in the rows. -/
  measure : String × Nat
  measureType : ValueType
  reducer : Reducer
  /-- The grouping columns, then the one that is reduced. -/
  output : Schema

namespace Grouping

/-- The measure of a row. The schema of the row has to agree on where it is. -/
def measureOf (g : Grouping) (r : Row) : Except Error Value :=
  let (name, position) := g.measure
  match r.schema.columns[position]?, r.values[position]? with
  | some c, some v => if c.name = name then .ok v else .error (.breach (.measure r name position))
  | _, _ => .error (.breach (.measure r name position))

/-- The group whose rows are being pulled, and what was seen of the pulls since the last row. -/
structure OpenGroup where
  events : List Event
  key : List Value
  sofar : Accumulator

/-- Opens a group with its first row. -/
def start (g : Grouping) (events : List Event) (key : List Value) (r : Row) :
    Except Error OpenGroup := do
  let v ← g.measureOf r
  let sofar ← (Accumulator.empty g.reducer g.measureType).add v
  .ok ⟨events, key, sofar⟩

/-- Takes one more row into a group. -/
def OpenGroup.extend (group : OpenGroup) (g : Grouping) (events : List Event) (r : Row) :
    Except Error OpenGroup := do
  let v ← g.measureOf r
  let sofar ← group.sofar.add v
  .ok ⟨group.events ++ events, group.key, sofar⟩

/-- The value of a grouping column, which the key has at the position of the column in the order. -/
def keyValue (g : Grouping) (key : List Value) (c : Column) : Value :=
  ((g.order.columns.findIdx? fun name => name = c.name).bind fun i => key[i]?).getD c.null

def rowValues (g : Grouping) (group : OpenGroup) : List Value :=
  (g.output.columns.map (g.keyValue group.key)).set (g.output.width - 1) group.sofar.result

/-- The row of a complete group. -/
def row (g : Grouping) (group : OpenGroup) : Row :=
  ⟨g.output, g.rowValues group, by simp [rowValues, Schema.width]⟩

/-- A failure, which ends the grouping. -/
def stop (events : List Event) (e : Error) : Rows := .last ⟨events, some (.error e)⟩

/-- The groups of the rows still to be pulled, the first of which may be open already. -/
def rowsFrom (g : Grouping) : Option OpenGroup → Rows → Rows
  | none, .ended e => .last ⟨e.seen, none⟩
  | some group, .ended e =>
    .poll ⟨group.events ++ e.seen, some (.ok (g.row group))⟩ fun _ => .last ⟨e.next.seen, none⟩
  | none, .poll p rest =>
    match p.item with
    | none => .last ⟨p.events, none⟩
    | some (.error e) => stop p.events e
    | some (.ok r) =>
      match (g.keys.read r).bind fun key => g.start p.events key r with
      | .error e => stop p.events e
      | .ok group => g.rowsFrom (some group) (rest ())
  | some group, .poll p rest =>
    let events := group.events ++ p.events
    match p.item with
    | none => .poll ⟨events, some (.ok (g.row group))⟩ fun _ => g.rowsFrom none (rest ())
    | some (.error e) => stop events e
    | some (.ok r) =>
      match g.keys.read r with
      | .error e => stop events e
      | .ok key =>
        if g.order.sameKey group.key key then
          match group.extend g p.events r with
          | .error e => stop events e
          | .ok group => g.rowsFrom (some group) (rest ())
        else
          .poll ⟨events, some (.ok (g.row group))⟩ fun _ =>
            match g.start [] key r with
            | .error e => stop [] e
            | .ok next => g.rowsFrom (some next) (rest ())

/-- One row for each group. After the end or a failure nothing is pulled any more. -/
def rows (g : Grouping) (r : Rows) : Rows := g.rowsFrom none r

end Grouping
end DatasetAlgebra
