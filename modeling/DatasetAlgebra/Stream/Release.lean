import DatasetAlgebra.Stream.Event

/-!
Releases: what happens when that which a stream holds open is given back. A `ReleaseStack` is what
an operation still has to give back; it goes in reverse order, and a failure does not keep the
rest from being given back.
-/
namespace DatasetAlgebra

structure Release where
  events : List Event
  failure : Option Error

namespace Release

/-- Nothing to give back. -/
def nothing : Release := ⟨[], none⟩

/-- Two failures as one, the later suppressed onto the earlier as a whole. -/
def join : Option Error → Option Error → Option Error
  | none, f => f
  | e, none => e
  | some e, some f => some (e.suppress f)

/-- Both releases, `first` before `second`. -/
def before (first second : Release) : Release :=
  ⟨first.events ++ second.events, join first.failure second.failure⟩

/-- The failure of an operation after a release on account of it. -/
def onto (r : Release) (primary : Error) : Error :=
  match r.failure with
  | none => primary
  | some e => primary.absorb e

def outcome (r : Release) : Except Error Unit :=
  match r.failure with
  | none => .ok ()
  | some e => .error e

end Release

/-- Releases still to be made, the most recent first, each with the name of its source. -/
structure ReleaseStack where
  held : List (String × Release)

namespace ReleaseStack

def empty : ReleaseStack := ⟨[]⟩

instance : Inhabited ReleaseStack := ⟨empty⟩

def size (s : ReleaseStack) : Nat := s.held.length

def push (s : ReleaseStack) (name : String) (r : Release) : ReleaseStack :=
  ⟨(name, r) :: s.held⟩

/-- The failures of releases, in the order they are made, as one. -/
def failure (rs : List Release) : Option Error :=
  (rs.filterMap Release.failure).foldl
    (fun sofar e => some (sofar.elim e fun primary => primary.absorb e)) none

/-- All releases of the stack, most recent first. -/
def release (s : ReleaseStack) : Release :=
  let releases := s.held.map (·.2)
  ⟨releases.flatMap Release.events, failure releases⟩

/-- A step taken while the stack is held: if the step fails, the stack is released and what fails
in that is suppressed onto the failure. -/
def guarding {α : Type} (s : ReleaseStack) (step : Recorded α) : Recorded α :=
  match step.outcome with
  | .error e => ⟨step.log ++ s.release.events, .error (s.release.onto e)⟩
  | .ok _ => step

end ReleaseStack
end DatasetAlgebra
