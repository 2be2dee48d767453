import DatasetAlgebra.SortOrder.Rows
import DatasetAlgebra.Stream.Rows

/-! Sort buffers: rows held in memory, up to a capacity, to be sorted once. -/
namespace DatasetAlgebra

structure SortBuffer where
  order : SortOrder
  capacity : Nat
  rows : List Row

namespace SortBuffer

def empty (order : SortOrder) (capacity : Nat) : SortBuffer := ⟨order, capacity, []⟩

def size (b : SortBuffer) : Nat := b.rows.length

def push (b : SortBuffer) (r : Row) : Except Error SortBuffer :=
  if b.capacity ≤ b.size then .error (.unsupported (.buffer b.order b.capacity))
  else .ok { b with rows := b.rows ++ [r] }

/-- A buffer after rows were pulled into it, with what was seen of the pulls and what stopped
them, if it was not the end of the rows. -/
structure Filled where
  buffer : SortBuffer
  events : List Event
  failure : Option Error

/-- Pulls rows until there are none, one fails, or one does not fit. -/
def fill (b : SortBuffer) : Rows → Filled
  | .ended e => ⟨b, e.seen, none⟩
  | .poll p rest =>
    match p.item with
    | none => ⟨b, p.events, none⟩
    | some (.error e) => ⟨b, p.events, some e⟩
    | some (.ok r) =>
      match b.push r with
      | .error e => ⟨b, p.events, some e⟩
      | .ok b =>
        let f := b.fill (rest ())
        { f with events := p.events ++ f.events }

def sorted (b : SortBuffer) : List Row := b.order.sort b.rows

end SortBuffer
end DatasetAlgebra
