import DatasetAlgebra.Stream.Release
import Mathlib.Algebra.Order.Group.Multiset
import Mathlib.Tactic.Abel

/-!
Calls on something that holds hooks, which are releases to be made later. Some calls leave a hook,
some make all hooks that were left. What is due behind some calls are the hooks left since hooks
were made last, the last one first; so each hook is made at one release, the first behind it.
-/
namespace DatasetAlgebra

section

variable {σ κ ρ : Type} (call : σ → κ → ρ × σ)

/-- The answers to calls made one after the other, and what is left behind them. -/
def callAll (s : σ) : List κ → List ρ × σ
  | [] => ([], s)
  | c :: calls =>
    let (answer, next) := call s c
    let (more, last) := callAll next calls
    (answer :: more, last)

theorem callAll_concat (s : σ) (calls : List κ) (c : κ) :
    callAll call s (calls ++ [c]) =
      ((callAll call s calls).1 ++ [(call (callAll call s calls).2 c).1],
        (call (callAll call s calls).2 c).2) := by
  induction calls generalizing s with
  | nil => rfl
  | cons first calls ih => simp [callAll, ih]

theorem getElem?_callAll (s : σ) (calls : List κ) (i : Nat) (h : i < calls.length) :
    (callAll call s calls).1[i]? =
      some (call (callAll call s (calls.take i)).2 calls[i]).1 := by
  induction calls generalizing s i with
  | nil => simp at h
  | cons c calls ih =>
    cases i with
    | zero => rfl
    | succ i => simpa [callAll] using ih (call s c).2 i (by simpa using h)

theorem drop_callAll (s : σ) (calls : List κ) (n : Nat) :
    (callAll call s calls).1.drop n =
      (callAll call (callAll call s (calls.take n)).2 (calls.drop n)).1 := by
  induction calls generalizing s n with
  | nil => simp [callAll]
  | cons c calls ih =>
    cases n with
    | zero => rfl
    | succ n => simpa [callAll] using ih (call s c).2 n

end

/-- Which calls leave a hook, and which make the hooks that were left, in view of the calls before
them. No call does both. -/
structure Custody (κ : Type) where
  hook? : κ → Option Release
  releases : List κ → κ → Bool
  apart : ∀ past c, releases past c → hook? c = none

namespace Custody

variable {κ : Type} (k : Custody κ)

/-- The hooks left by some calls, in their order. -/
def hooks (calls : List κ) : List Release := calls.filterMap k.hook?

/-- What is due behind calls that are given from the last one back. -/
def dueBack : List κ → List Release
  | [] => []
  | c :: earlier =>
    if k.releases earlier.reverse c then [] else (k.hook? c).toList ++ dueBack earlier

/-- The hooks left since hooks were made last, the last one first. -/
def due (past : List κ) : List Release := k.dueBack past.reverse

/-- The hooks that a call makes behind others. -/
def made (past : List κ) (c : κ) : List Release := if k.releases past c then k.due past else []

@[simp] theorem due_nil : k.due [] = [] := rfl

theorem due_concat (past : List κ) (c : κ) :
    k.due (past ++ [c]) =
      if k.releases past c then [] else (k.hook? c).toList ++ k.due past := by
  rw [due, List.reverse_append, List.reverse_singleton, List.singleton_append, dueBack,
    List.reverse_reverse]
  rfl

theorem hooks_concat (past : List κ) (c : κ) :
    k.hooks (past ++ [c]) = k.hooks past ++ (k.hook? c).toList := by
  rw [hooks, hooks, List.filterMap_append]
  cases h : k.hook? c <;> simp [h]

/-- A log of calls that shows, with what is due behind them, some events and the events of every
hook once for each time that it was left. -/
def Tallies (past : List κ) (log events : List Event) : Prop :=
  (log ++ (k.due past).flatMap Release.events).Perm
    (events ++ (k.hooks past).flatMap Release.events)

theorem tallies_nil : k.Tallies [] [] [] := .refl _

variable {k}

/-- It stays so with a call that shows events of its own and those of the hooks that it makes. -/
theorem Tallies.concat {past : List κ} {log events : List Event} (h : k.Tallies past log events)
    (c : κ) (own : List Event) :
    k.Tallies (past ++ [c]) (log ++ (own ++ (k.made past c).flatMap Release.events))
      (events ++ own) := by
  unfold Tallies at *
  rw [due_concat, hooks_concat, made]
  rw [← Multiset.coe_eq_coe] at h ⊢
  cases hr : k.releases past c with
  | true =>
    simp only [k.apart past c hr, if_true, Option.toList_none, List.append_nil, List.flatMap_nil,
      ← Multiset.coe_add] at h ⊢
    calc _ = (log + (k.due past).flatMap Release.events : Multiset Event) + own := by abel
      _ = _ := by rw [h]; abel
  | false =>
    simp only [Bool.false_eq_true, if_false, List.append_nil, List.flatMap_nil,
      List.flatMap_append, ← Multiset.coe_add] at h ⊢
    calc _ = (log + (k.due past).flatMap Release.events : Multiset Event) +
          (own + (k.hook? c).toList.flatMap Release.events) := by abel
      _ = _ := by rw [h]; abel

end Custody
end DatasetAlgebra
