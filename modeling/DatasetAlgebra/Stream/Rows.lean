import DatasetAlgebra.Filter.Eval
import DatasetAlgebra.Stream.Event

/-!
Sequences of rows that are pulled one at a time. Every pull is a `Poll`: it may be observed at the
sources and gives a row, a failure, or nothing. A sequence may give something again after it gave
nothing. Behind its last poll nothing is given any more, and its `Ending` says what is seen of
pulls there. What a pull takes is worked out when the pull is made, so that a sequence may be far
longer than what is ever read of it.
-/
namespace DatasetAlgebra

/-- A value that is worked out when it is asked for. -/
abbrev Delayed (α : Type) := Unit → α

structure Poll where
  events : List Event
  item : Option (Except Error Row)

/-- What is seen of pulls that give nothing because all rows are gone: the events at each of them.
With a reach only that many of the pulls come to the sources. -/
structure Ending where
  events : List Event
  reach : Option Nat

namespace Ending

/-- The pulls come to no source. -/
def silent : Ending := ⟨[], none⟩

/-- All pulls come to the sources. -/
def lasting (events : List Event) : Ending := ⟨events, none⟩

/-- What is seen of the next pull. -/
def seen (e : Ending) : List Event := if e.reach = some 0 then [] else e.events

/-- The ending after one pull. -/
def next (e : Ending) : Ending := { e with reach := e.reach.map (· - 1) }

/-- The ending of which at most `n` pulls come to the sources. -/
def take (n : Nat) (e : Ending) : Ending := { e with reach := some (e.reach.elim n (min n)) }

end Ending

inductive Rows where
  | poll (p : Poll) (rest : Unit → Rows)
  | ended (ending : Ending)

namespace Rows

def empty : Rows := .ended .silent

instance : Inhabited Rows := ⟨empty⟩

/-- One poll, behind which nothing is pulled any more. -/
def last (p : Poll) : Rows := .poll p fun _ => empty

/-- One pull, and the sequence that is left. -/
def next : Rows → Poll × Delayed Rows
  | .poll p rest => (p, rest)
  | .ended e => (⟨e.seen, none⟩, fun _ => .ended e.next)

/-- Polls in front of a sequence. -/
def prepend (polls : List Poll) (r : Delayed Rows) : Rows :=
  match polls with
  | [] => r ()
  | p :: rest => .poll p fun _ => prepend rest r

/-- Items that come from no observed source. -/
def ofItems (items : List (Except Error Row)) : Rows :=
  prepend (items.map fun i => ⟨[], some i⟩) fun _ => empty

def ofRows (rows : List Row) : Rows := ofItems (rows.map .ok)

/-- Items of a source on which every pull is observed. -/
def traced (source : String) (items : List (Except Error Row)) : Rows :=
  prepend (items.map fun i => ⟨[.pulled source], some i⟩) fun _ =>
    .ended (.lasting [.ended source])

/-- Applies a function to every row. -/
def map (f : Row → Row) : Rows → Rows
  | .poll p rest => .poll ⟨p.events, p.item.map fun i => i.map f⟩ fun _ => (rest ()).map f
  | .ended e => .ended e

/-- The first `n` pulls; later ones come to no source. -/
def take : Nat → Delayed Rows → Rows
  | 0, _ => empty
  | n + 1, r =>
    match r () with
    | .poll p rest => .poll p fun _ => take n rest
    | .ended e => .ended (e.take (n + 1))

/-- The rows a filter keeps, with events that were seen of rows before that are not kept. -/
def filterAfter (f : Filter) (skipped : List Event) : Rows → Rows
  | .ended e => .poll ⟨skipped ++ e.seen, none⟩ fun _ => .ended e.next
  | .poll p rest =>
    let events := skipped ++ p.events
    match p.item with
    | none => .poll ⟨events, none⟩ fun _ => filterAfter f [] (rest ())
    | some (.error e) => .poll ⟨events, some (.error e)⟩ fun _ => filterAfter f [] (rest ())
    | some (.ok row) =>
      match f.keeps row with
      | .ok true => .poll ⟨events, some (.ok row)⟩ fun _ => filterAfter f [] (rest ())
      | .ok false => filterAfter f events (rest ())
      | .error e => .poll ⟨events, some (.error e)⟩ fun _ => filterAfter f [] (rest ())

/-- The rows a filter keeps. One pull reaches through all rows that are not kept, also behind the
last row that is; a row on which the filter fails gives the failure in its place. -/
def filter (f : Filter) (r : Rows) : Rows := filterAfter f [] r

/-- What a sequence gives until it gives nothing, and all events up to then. -/
structure Drained where
  events : List Event
  items : List (Except Error Row)
  rest : Delayed Rows

def drain : Rows → Drained
  | .ended e => ⟨e.seen, [], fun _ => .ended e.next⟩
  | .poll p rest =>
    match p.item with
    | none => ⟨p.events, [], rest⟩
    | some i =>
      let d := (rest ()).drain
      ⟨p.events ++ d.events, i :: d.items, d.rest⟩

/-- What a sequence gives until it gives nothing or fails. -/
structure Collected where
  events : List Event
  rows : List Row
  failure : Option Error
  rest : Delayed Rows

def collect : Rows → Collected
  | .ended e => ⟨e.seen, [], none, fun _ => .ended e.next⟩
  | .poll p rest =>
    match p.item with
    | none => ⟨p.events, [], none, rest⟩
    | some (.error e) => ⟨p.events, [], some e, rest⟩
    | some (.ok row) =>
      let c := (rest ()).collect
      ⟨p.events ++ c.events, row :: c.rows, c.failure, c.rest⟩

end Rows
end DatasetAlgebra
