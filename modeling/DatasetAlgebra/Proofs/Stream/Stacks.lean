import DatasetAlgebra.Proofs.Stream.Calls
import DatasetAlgebra.Proofs.Stream.Composition
import Mathlib.Data.List.Induction

/-!
Release stacks over any run of calls. Hooks are pushed, or taken over from streams, and the stack is
closed, on account of a failure or not, in any order and as often as wanted, and dropped in the end.
Each closing makes the hooks that are due, the last one first, whatever fails in them, and reports
all that failed in this order.
-/
namespace DatasetAlgebra

namespace ReleaseStack

inductive Call where
  | push (name : String) (hook : Release)
  | register (name : String) (stream : RowStream)
  | close
  | closeWith (primary : Error)

def Call.hook? : Call → Option Release
  | .push _ hook => some hook
  | .register _ stream => stream.release
  | .close | .closeWith _ => none

def Call.releases : Call → Bool
  | .push .. | .register .. => false
  | .close | .closeWith _ => true

def custody : Custody Call where
  hook? := Call.hook?
  releases _ := Call.releases
  apart _ c h := by cases c <;> first | rfl | cases h

/-- What a call shows and fails with, and the stack behind it. -/
def call (stack : ReleaseStack) : Call → Release × ReleaseStack
  | .push name hook => (.nothing, stack.push name hook)
  | .register name stream => (.nothing, stack.register name stream)
  | .close => (stack.release, .empty)
  | .closeWith primary => (⟨stack.release.events, some (stack.release.onto primary)⟩, .empty)

/-- What is seen of a stack that is dropped: failures are not. -/
def abandon (stack : ReleaseStack) : List Event := stack.release.events

/-- What a call shows with some hooks due: nothing if it leaves a hook, else all hooks that are due.
The failure that is the account of a closing stays ahead of theirs. -/
def Call.Answered (due : List Release) (shown : Release) : Call → Prop
  | .push .. | .register .. => shown = .nothing
  | .close =>
    shown.events = due.flatMap Release.events ∧
      match shown.outcome with
      | .ok () => ∀ r ∈ due, r.failure = none
      | .error e =>
        (∃ r ∈ due, r.failure ≠ none) ∧
          e.flat = (due.filterMap Release.failure).flatMap Error.flat
  | .closeWith primary =>
    shown.events = due.flatMap Release.events ∧
      ∃ e, shown.outcome = .error e ∧ e.primary = primary.primary ∧
        e.flat = primary.flat ++ (due.filterMap Release.failure).flatMap Error.flat

theorem release_eq {stack : ReleaseStack} {due : List Release}
    (h : stack.held.map Prod.snd = due) :
    stack.release = ⟨due.flatMap Release.events, failure due⟩ := by
  rw [release, h]

theorem failure_eq_none_iff (rs : List Release) :
    failure rs = none ↔ ∀ r ∈ rs, r.failure = none := by
  have hreported := reported_failures rs
  rw [← List.filterMap_eq_nil_iff]
  constructor
  · intro h
    rw [h] at hreported
    exact List.eq_nil_iff_forall_not_mem.mpr fun e he =>
      absurd (List.flatMap_eq_nil_iff.mp hreported.symm e he) (List.cons_ne_nil _ _)
  · intro h
    rw [failure, h]
    rfl

theorem answered_call {stack : ReleaseStack} {due : List Release}
    (h : stack.held.map Prod.snd = due) (c : Call) : c.Answered due (stack.call c).1 := by
  have hrelease := release_eq h
  have hreported := reported_failures due
  cases c with
  | push => rfl
  | register => rfl
  | close =>
    refine ⟨congrArg Release.events hrelease, ?_⟩
    simp only [call, hrelease, Release.outcome]
    cases hf : failure due with
    | none => exact (failure_eq_none_iff due).mp hf
    | some e =>
      rw [hf] at hreported
      have hfails : ¬∀ r ∈ due, r.failure = none := fun hnone => by
        rw [(failure_eq_none_iff due).mpr hnone] at hf
        cases hf
      exact ⟨by simpa using hfails, hreported⟩
  | closeWith primary =>
    refine ⟨congrArg Release.events hrelease, _, rfl, Release.primary_onto _ _, ?_⟩
    rw [Release.flat_onto, hrelease, hreported]

/-- A stack holds the hooks that are due behind the calls on it. -/
theorem held_callAll (calls : List Call) :
    (callAll call empty calls).2.held.map Prod.snd = custody.due calls := by
  induction calls using List.reverseRecOn with
  | nil => rfl
  | append_singleton calls c ih =>
    rw [callAll_concat, Custody.due_concat, ← ih]
    cases c with
    | push => rfl
    | register name stream =>
      rw [call, held_register]
      cases h : stream.release <;> simp [custody, Call.releases, Call.hook?, h]
    | close => rfl
    | closeWith => rfl

theorem events_call {stack : ReleaseStack} {past : List Call}
    (h : stack.held.map Prod.snd = custody.due past) (c : Call) :
    (stack.call c).1.events = (custody.made past c).flatMap Release.events := by
  have hevents := congrArg Release.events (release_eq h)
  cases c with
  | push => rfl
  | register => rfl
  | close => exact hevents
  | closeWith => exact hevents

theorem tallies_callAll (calls : List Call) :
    custody.Tallies calls ((callAll call empty calls).1.flatMap Release.events) [] := by
  induction calls using List.reverseRecOn with
  | nil => exact custody.tallies_nil
  | append_singleton calls c ih =>
    have hcall := ih.concat c []
    rw [← events_call (held_callAll calls) c] at hcall
    rw [callAll_concat, List.flatMap_append, List.flatMap_singleton]
    exact hcall

/-- Each call is answered by the hooks left since the last closing, the last one first, and the drop
makes what is due still. Each hook is made as often as it was left. -/
theorem hooks_made_once (calls : List Call) :
    let ran := callAll call empty calls
    (∀ i : Fin calls.length, ∃ shown, ran.1[i.val]? = some shown ∧
      calls[i].Answered (custody.due (calls.take i)) shown) ∧
    ran.2.abandon = (custody.due calls).flatMap Release.events ∧
    (ran.1.flatMap Release.events ++ ran.2.abandon).Perm
      ((custody.hooks calls).flatMap Release.events) := by
  intro ran
  have habandon : ran.2.abandon = (custody.due calls).flatMap Release.events :=
    congrArg Release.events (release_eq (held_callAll calls))
  refine ⟨fun i => ?_, habandon, ?_⟩
  · exact ⟨_, getElem?_callAll call empty calls i i.isLt,
      answered_call (held_callAll (calls.take i)) calls[i]⟩
  · rw [habandon]
    exact tallies_callAll calls

end ReleaseStack
end DatasetAlgebra
