import DatasetAlgebra.Stream.Rows

/-!
Feeds: items that are pulled one by one up to an end or a failure, with what is seen of each pull.
Other than `Rows`, a feed is not read on behind its end.
-/
namespace DatasetAlgebra

inductive Feed (α : Type) where
  | item (events : List Event) (a : α) (rest : Unit → Feed α)
  | stop (events : List Event) (failure : Option Error)

namespace Feed

variable {α : Type}

instance : Inhabited (Feed α) := ⟨.stop [] none⟩

def items : Feed α → List α
  | .item _ a rest => a :: (rest ()).items
  | .stop _ _ => []

def failure : Feed α → Option Error
  | .item _ _ rest => (rest ()).failure
  | .stop _ failure => failure

def size (f : Feed α) : Nat := f.items.length

@[simp] theorem items_item (es : List Event) (a : α) (rest : Unit → Feed α) :
    (item es a rest).items = a :: (rest ()).items := rfl
@[simp] theorem items_stop (es : List Event) (e : Option Error) :
    (stop es e : Feed α).items = [] := rfl
@[simp] theorem size_item (es : List Event) (a : α) (rest : Unit → Feed α) :
    (item es a rest).size = (rest ()).size + 1 := rfl
@[simp] theorem size_stop (es : List Event) (e : Option Error) :
    (stop es e : Feed α).size = 0 := rfl

/-- What is seen of the first pull. -/
def firstEvents : Feed α → List Event
  | .item es _ _ => es
  | .stop es _ => es

/-- The same feed after its first pull has been seen. -/
def peeked : Feed α → Feed α
  | .item _ a rest => .item [] a rest
  | .stop _ failure => .stop [] failure

@[simp] theorem items_peeked (f : Feed α) : f.peeked.items = f.items := by cases f <;> rfl
@[simp] theorem size_peeked (f : Feed α) : f.peeked.size = f.size := by cases f <;> rfl

/-- A feed in two parts: its leading items of some kind, with what is seen of their pulls, and the
feed from there on. -/
structure Split (α : Type) where
  events : List Event
  lead : List α
  beyond : Feed α

/-- Splits a feed behind its leading items for which `p` holds. -/
def split (p : α → Bool) : Feed α → Split α
  | .item es a rest =>
    if p a then
      let s := (rest ()).split p
      ⟨es ++ s.events, a :: s.lead, s.beyond⟩
    else ⟨[], [], .item es a rest⟩
  | .stop es failure => ⟨[], [], .stop es failure⟩

theorem lead_append_beyond (p : α → Bool) (f : Feed α) :
    (f.split p).lead ++ (f.split p).beyond.items = f.items := by
  induction f with
  | item es a rest ih =>
    by_cases h : p a
    · simp [split, h, ih]
    · simp [split, h]
  | stop es e => rfl

theorem size_beyond_le (p : α → Bool) (f : Feed α) : (f.split p).beyond.size ≤ f.size := by
  have h := congrArg List.length (lead_append_beyond p f)
  simp only [List.length_append] at h
  unfold size
  omega

/-- The rows of a feed of batches, with events that were seen before. The events of a pull are seen
at the first row of its batch, or else with the next batch. -/
def rowsAfter (seen : List Event) : Feed (List Row) → Rows
  | .item es [] rest => rowsAfter (seen ++ es) (rest ())
  | .item es (r :: rows) rest =>
    .poll ⟨seen ++ es, some (.ok r)⟩ fun _ =>
      .prepend (rows.map fun r => ⟨[], some (.ok r)⟩) fun _ => rowsAfter [] (rest ())
  | .stop es (some e) => .last ⟨seen ++ es, some (.error e)⟩
  | .stop es none => .last ⟨seen ++ es, none⟩

/-- The rows of a feed of batches, row by row. -/
def toRows (f : Feed (List Row)) : Rows := f.rowsAfter []

end Feed
end DatasetAlgebra
