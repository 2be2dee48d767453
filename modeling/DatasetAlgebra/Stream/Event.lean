import DatasetAlgebra.Error

/-!
What can be observed of sources: each request, pull and release is an event. A `Recorded`
computation is an outcome together with the events that happened on the way, in their order.
-/
namespace DatasetAlgebra

inductive Event where
  /-- A source was asked for its next row and had one, or failed. -/
  | pulled (source : String)
  /-- A source was asked for its next row and had none. -/
  | ended (source : String)
  /-- A source was asked for rows. -/
  | opened (source : String) (order : SortOrder) (filter : Filter) (columns : List String)
  /-- What a source held was given back. -/
  | released (source : String)

structure Recorded (α : Type) where
  log : List Event
  outcome : Except Error α

namespace Recorded

variable {α β : Type}

/-- An outcome on which nothing could be observed. -/
def silent (outcome : Except Error α) : Recorded α := ⟨[], outcome⟩

def ok (a : α) : Recorded α := silent (.ok a)

def fail (e : Error) : Recorded α := silent (.error e)

/-- A failure ends a computation; what happened before it stays on record. -/
def andThen (x : Recorded α) (f : α → Recorded β) : Recorded β :=
  match x.outcome with
  | .error e => ⟨x.log, .error e⟩
  | .ok a => ⟨x.log ++ (f a).log, (f a).outcome⟩

/-- The same computation after some events. -/
def after (events : List Event) (x : Recorded α) : Recorded α := ⟨events ++ x.log, x.outcome⟩

@[simp] theorem log_silent (o : Except Error α) : (silent o).log = [] := rfl
@[simp] theorem outcome_silent (o : Except Error α) : (silent o).outcome = o := rfl
@[simp] theorem log_after (es : List Event) (x : Recorded α) : (after es x).log = es ++ x.log := rfl
@[simp] theorem outcome_after (es : List Event) (x : Recorded α) :
    (after es x).outcome = x.outcome := rfl

end Recorded
end DatasetAlgebra
