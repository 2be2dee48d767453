import DatasetAlgebra.Proofs.Error.Suppression
import DatasetAlgebra.Proofs.Stream.Silence
import DatasetAlgebra.Stream.Basic
import Mathlib.Data.List.Basic

/-!
What logs show of releases. Everything opened on a log has to be released on it exactly once or be
owed still, and what releases fail with has to be in the failure that is reported.
-/
namespace DatasetAlgebra

/-- The sources released on a log, in their order. -/
def releases (log : List Event) : List String :=
  log.filterMap fun
    | .released source => some source
    | _ => none

/-- The sources opened on a log, in their order. -/
def openings (log : List Event) : List String :=
  log.filterMap fun
    | .opened source _ _ _ => some source
    | _ => none

@[simp] theorem releases_nil : releases [] = [] := rfl
@[simp] theorem openings_nil : openings [] = [] := rfl
@[simp] theorem releases_append (l m : List Event) : releases (l ++ m) = releases l ++ releases m :=
  List.filterMap_append
@[simp] theorem openings_append (l m : List Event) : openings (l ++ m) = openings l ++ openings m :=
  List.filterMap_append

/-- Everything opened on a log was released on it, each source as often as it was opened. -/
def Settled (log : List Event) : Prop := (releases log).Perm (openings log)

/-- A log on which some sources were owed before and some are left: those owed or opened are
released or left, each of them once. -/
def Balances (owed : List String) (log : List Event) (left : List String) : Prop :=
  (owed ++ openings log).Perm (releases log ++ left)

namespace Balances

variable {owed left rest : List String} {l m : List Event}

theorem nil (owed : List String) : Balances owed [] owed := by simp [Balances]

theorem append (hl : Balances owed l left) (hm : Balances left m rest) :
    Balances owed (l ++ m) rest := by
  unfold Balances at *
  rw [openings_append, releases_append, ← List.append_assoc, List.append_assoc (releases l)]
  have h := hl.append_right (openings m)
  rw [List.append_assoc (releases l)] at h
  exact h.trans (hm.append_left (releases l))

theorem frame (h : Balances owed l left) (more : List String) :
    Balances (more ++ owed) l (more ++ left) := by
  unfold Balances at *
  rw [List.append_assoc]
  exact (h.append_left more).trans (List.perm_append_comm_assoc ..)

theorem perm_left (h : Balances owed l left) (hp : owed.Perm rest) : Balances rest l left :=
  (hp.symm.append_right _).trans h

theorem settled (h : Balances [] l []) : Settled l := by
  unfold Balances at h
  rw [List.nil_append, List.append_nil] at h
  exact h.symm

end Balances

/-- What releasing each source fails with, if it does. -/
abbrev Hooks := String → Option Error

namespace Hooks

/-- No release fails. -/
def sound : Hooks := fun _ => none

/-- What the releases on a log fail with. -/
def failures (hooks : Hooks) (log : List Event) : List Error := (releases log).filterMap hooks

variable (hooks : Hooks)

@[simp] theorem failures_nil : hooks.failures [] = [] := rfl
@[simp] theorem failures_append (l m : List Event) :
    hooks.failures (l ++ m) = hooks.failures l ++ hooks.failures m := by simp [failures]

end Hooks

/-- All failures in what was reported. -/
def reported (e : Option Error) : List Error := e.elim [] Error.flat

@[simp] theorem reported_none : reported none = [] := rfl
@[simp] theorem reported_some (e : Error) : reported (some e) = e.flat := rfl

namespace Release

/-- A release that opens nothing and fails with what the releases in it fail with. -/
structure Reports (r : Release) (hooks : Hooks) : Prop where
  opens : openings r.events = []
  failure : reported r.failure = hooks.failures r.events

variable {hooks : Hooks} {r : Release}

theorem reports_nothing (hooks : Hooks) : nothing.Reports hooks := ⟨rfl, rfl⟩

theorem Reports.balances (h : r.Reports hooks) : Balances (releases r.events) r.events [] := by
  simp [Balances, h.opens]

/-- A failure stays ahead of those of a release on account of it. -/
theorem flat_onto (r : Release) (e : Error) : (r.onto e).flat = e.flat ++ reported r.failure := by
  unfold onto
  cases r.failure <;> simp

theorem primary_onto (r : Release) (e : Error) : (r.onto e).primary = e.primary :=
  (List.cons.inj (r.flat_onto e)).1

theorem Reports.flat_onto (h : r.Reports hooks) (e : Error) :
    (r.onto e).flat = e.flat ++ hooks.failures r.events := by
  rw [← h.failure, Release.flat_onto]

/-- The same release without its failure. -/
def quiet (r : Release) : Release := { r with failure := none }

@[simp] theorem onto_quiet (r : Release) (e : Error) : r.quiet.onto e = e := rfl

end Release

namespace ReleaseStack

variable {hooks : Hooks} {stack : ReleaseStack}

/-- The first failure absorbs the others. -/
theorem failure_eq (rs : List Release) :
    failure rs =
      match rs.filterMap Release.failure with
      | [] => none
      | e :: es => some (es.foldl Error.absorb e) := by
  unfold failure
  cases rs.filterMap Release.failure with
  | nil => rfl
  | cons e es => exact List.foldl_hom some fun _ _ => rfl

theorem reported_failures (rs : List Release) :
    reported (failure rs) = (rs.filterMap Release.failure).flatMap Error.flat := by
  rw [failure_eq]
  cases rs.filterMap Release.failure with
  | nil => rfl
  | cons e es => exact e.flat_foldl_absorb es

theorem reported_failure (rs : List Release) :
    reported (failure rs) = rs.flatMap fun r => reported r.failure := by
  rw [reported_failures]
  induction rs with
  | nil => rfl
  | cons r rs ih => cases hr : r.failure <;> simp [hr, ih]

theorem events_release (stack : ReleaseStack) :
    stack.release.events = stack.held.flatMap fun r => r.2.events := by
  simp [release, List.flatMap_map]

theorem reports_release (h : ∀ r ∈ stack.held, r.2.Reports hooks) :
    stack.release.Reports hooks := by
  refine ⟨?_, ?_⟩
  · rw [events_release, openings, List.filterMap_flatMap]
    exact List.flatMap_eq_nil_iff.mpr fun r hr => (h r hr).opens
  · have hfailures : hooks.failures stack.release.events =
        stack.held.flatMap fun r => hooks.failures r.2.events := by
      simp only [events_release, Hooks.failures, releases, List.filterMap_flatMap]
    rw [hfailures]
    calc reported stack.release.failure
        = stack.held.flatMap fun r => reported r.2.failure := by
          simp [release, reported_failure, List.flatMap_map]
      _ = _ := List.flatMap_congr fun r hr => (h r hr).failure

theorem held_register (stack : ReleaseStack) (name : String) (s : RowStream) :
    (stack.register name s).held = (s.release.map (Prod.mk name)).toList ++ stack.held := by
  unfold register
  cases s.release <;> rfl

theorem failure_release (h : ∀ r ∈ stack.held, r.2.failure = none) :
    stack.release.failure = none := by
  have hnone : (stack.held.map Prod.snd).filterMap Release.failure = [] := by
    simpa [List.filterMap_eq_nil_iff] using h
  simp only [release, failure, hnone]
  rfl

theorem forall_register {p : Release → Prop} {name : String} {s : RowStream}
    (hstack : ∀ r ∈ stack.held, p r.2) (hs : ∀ r, s.release = some r → p r) :
    ∀ r ∈ (stack.register name s).held, p r.2 := by
  unfold register
  split
  · exact hstack
  · rename_i r hr
    exact List.forall_mem_cons.mpr ⟨hs r hr, hstack⟩

theorem closes_register {name : String} {s : RowStream}
    (hstack : ∀ r ∈ stack.held, r.2.failure = none)
    (hs : ∀ r, s.release = some r → r.failure = none) :
    ∀ r ∈ (stack.register name s).held, r.2.failure = none :=
  forall_register (p := fun r => r.failure = none) hstack hs

theorem held_empty {p : String × Release → Prop} : ∀ r ∈ empty.held, p r := by
  simp [empty]

/-- The same releases without their failures. -/
def quiet (stack : ReleaseStack) : ReleaseStack := ⟨stack.held.map fun r => (r.1, r.2.quiet)⟩

theorem release_quiet (stack : ReleaseStack) : stack.quiet.release = stack.release.quiet := by
  have hfailure : stack.quiet.release.failure = none := failure_release fun r hr => by
    obtain ⟨_, -, rfl⟩ := List.mem_map.mp hr
    rfl
  have hevents : stack.quiet.release.events = stack.release.events := by
    simp [events_release, quiet, List.flatMap_map, Release.quiet]
  cases h : stack.quiet.release
  simp_all [Release.quiet]

end ReleaseStack

namespace RowStream

/-- The sources that a stream holds open. -/
def owed (s : RowStream) : List String := releases s.pending.events

/-- The same stream, released without failure. -/
def quiet (s : RowStream) : RowStream := { s with release := s.release.map Release.quiet }

@[simp] theorem pending_quiet (s : RowStream) : s.quiet.pending = s.pending.quiet := by
  unfold pending quiet
  cases s.release <;> rfl

theorem register_quiet (stack : ReleaseStack) (name : String) (s : RowStream) :
    stack.quiet.register name s.quiet = (stack.register name s).quiet := by
  unfold ReleaseStack.register quiet
  cases s.release <;> rfl

theorem reports_pending {s : RowStream} {hooks : Hooks}
    (h : ∀ r, s.release = some r → r.Reports hooks) : s.pending.Reports hooks := by
  unfold pending
  cases hr : s.release with
  | none => exact Release.reports_nothing hooks
  | some r => exact h r hr

/-- A stream that is open, that shows nothing before its release, and whose release reports what
fails in it. -/
structure Sound (s : RowStream) (hooks : Hooks) : Prop where
  unfinished : s.finished = false
  silent : (s.rows ()).Silent
  release : ∀ r, s.release = some r → r.Reports hooks

theorem Sound.reports {s : RowStream} {hooks : Hooks} (h : s.Sound hooks) :
    s.pending.Reports hooks :=
  reports_pending h.release

theorem Sound.reports_register {s : RowStream} {hooks : Hooks} (h : s.Sound hooks)
    {stack : ReleaseStack} (hs : ∀ r ∈ stack.held, r.2.Reports hooks) (name : String) :
    ∀ r ∈ (stack.register name s).held, r.2.Reports hooks :=
  ReleaseStack.forall_register (p := fun r => r.Reports hooks) hs h.release

theorem owed_register (stack : ReleaseStack) (name : String) (s : RowStream) :
    releases (stack.register name s).release.events =
      s.owed ++ releases stack.release.events := by
  unfold owed pending
  rw [ReleaseStack.events_release, ReleaseStack.events_release, ReleaseStack.held_register]
  cases s.release <;> simp [Release.nothing]

end RowStream

end DatasetAlgebra
