import DatasetAlgebra.Proofs.Stream.Releases

/-!
Releases added to a stream one by one against the same releases pushed on a stack. Either way they
are made in the reverse order, each of them, and the first failure stays the primary one. A stream
puts the failures together in pairs, the later ones suppressed as a whole; a stack suppresses each
of them by itself. So what they report tells of the same failures, but it is nested alike only
where there is nothing to nest.
-/
namespace DatasetAlgebra

namespace Error

mutual
/-- All failures in a failure, those in suppressed ones with them, in the order they came. -/
def told : Error → List Error
  | .suppressed primary others => primary.told ++ toldIn others
  | e => [e]
/-- The failures in those of a list. -/
def toldIn : List Error → List Error
  | [] => []
  | e :: es => e.told ++ toldIn es
end

theorem toldIn_eq (es : List Error) : toldIn es = es.flatMap told := by
  induction es with
  | nil => rfl
  | cons e es ih => rw [toldIn, ih, List.flatMap_cons]

theorem told_suppressed (e : Error) (others : List Error) :
    (suppressed e others).told = e.told ++ others.flatMap told := by
  rw [told, toldIn_eq]

theorem flatMap_told_flat (e : Error) : e.flat.flatMap told = e.told := by
  cases e with
  | suppressed e others => exact (told_suppressed e others).symm
  | _ => simp [flat, Error.primary, Error.others]

@[simp] theorem told_suppress (e other : Error) :
    (e.suppress other).told = e.told ++ other.told := by
  rw [← flatMap_told_flat, flat_suppress, List.flatMap_append, flatMap_told_flat]
  simp

theorem length_flat_pos (e : Error) : 0 < e.flat.length := by simp [flat]

/-- What is suppressed by itself and what is absorbed are the same for a failure onto which nothing
was suppressed, and for no other. -/
theorem suppress_eq_absorb_iff (e other : Error) :
    e.suppress other = e.absorb other ↔ other.flat = [other] := by
  constructor
  · intro h
    have hflat := congrArg flat h
    rw [flat_suppress, flat_absorb] at hflat
    exact (List.append_cancel_left hflat).symm
  · intro h
    rw [absorb, h]
    rfl

end Error

/-- All failures in what was reported, those in suppressed ones with them. -/
def toldBy (e : Option Error) : List Error := e.elim [] Error.told

@[simp] theorem toldBy_none : toldBy none = [] := rfl
@[simp] theorem toldBy_some (e : Error) : toldBy (some e) = e.told := rfl

theorem toldBy_eq (e : Option Error) : toldBy e = (reported e).flatMap Error.told := by
  cases e with
  | none => rfl
  | some e => exact e.flatMap_told_flat.symm

theorem primary_eq_head? (e : Option Error) : e.map Error.primary = (reported e).head? := by
  cases e <;> rfl

namespace Release

/-- Failures put together in pairs, from the last one on. -/
def paired : List Error → Option Error
  | [] => none
  | e :: es => join (some e) (paired es)

theorem paired_cons (e : Error) (es : List Error) :
    paired (e :: es) = some ((paired es).elim e e.suppress) := by
  rw [paired]
  cases paired es <;> rfl

theorem told_paired (es : List Error) : toldBy (paired es) = es.flatMap Error.told := by
  induction es with
  | nil => rfl
  | cons e es ih =>
    rw [paired_cons, List.flatMap_cons, ← ih]
    cases paired es <;> simp

theorem primary_paired (es : List Error) :
    (paired es).map Error.primary = es.head?.map Error.primary := by
  cases es with
  | nil => rfl
  | cons e es =>
    rw [paired_cons]
    cases paired es <;> rfl

theorem length_reported_paired (e f : Error) (es : List Error) :
    (reported (paired (e :: f :: es))).length = e.flat.length + 1 := by
  rw [paired_cons, paired_cons]
  simp

/-- Releases made one after the other, their failures put together in pairs. -/
def chain (rs : List Release) : Release := rs.foldr before nothing

theorem before_nothing (r : Release) : r.before nothing = r := by
  unfold before nothing
  cases h : r.failure <;> simp [join, ← h]

theorem chain_cons (r : Release) (rs : List Release) : chain (r :: rs) = r.before (chain rs) := rfl

theorem events_chain (rs : List Release) : (chain rs).events = rs.flatMap Release.events := by
  induction rs with
  | nil => rfl
  | cons r rs ih => rw [chain_cons, before, ih, List.flatMap_cons]

theorem failure_chain (rs : List Release) :
    (chain rs).failure = paired (rs.filterMap Release.failure) := by
  induction rs with
  | nil => rfl
  | cons r rs ih =>
    rw [chain_cons, before, ih]
    cases h : r.failure <;> simp [h, paired, join]

theorem outcome_eq_iff {r q : Release} : r.outcome = q.outcome ↔ r.failure = q.failure := by
  unfold outcome
  cases r.failure <;> cases q.failure <;> simp

end Release

namespace ReleaseStack

theorem primary_failure (rs : List Release) :
    (failure rs).map Error.primary = (rs.filterMap Release.failure).head?.map Error.primary := by
  rw [primary_eq_head?, reported_failures]
  cases rs.filterMap Release.failure <;> rfl

theorem told_failure (rs : List Release) :
    toldBy (failure rs) = (rs.filterMap Release.failure).flatMap Error.told := by
  rw [toldBy_eq, reported_failures, List.flatMap_assoc]
  exact List.flatMap_congr fun e _ => e.flatMap_told_flat

/-- Failures put together in pairs are those of a stack up to two of them, the second of which has
none suppressed onto it. -/
theorem paired_eq_failure_iff (rs : List Release) :
    Release.paired (rs.filterMap Release.failure) = failure rs ↔
      (rs.filterMap Release.failure).length ≤ 1 ∨
        ∃ e f, rs.filterMap Release.failure = [e, f] ∧ f.flat = [f] := by
  have hreported := reported_failures rs
  unfold failure at hreported ⊢
  generalize rs.filterMap Release.failure = es at hreported ⊢
  match es with
  | [] => simp [Release.paired]
  | [e] => simp [Release.paired, Release.join]
  | [e, f] => simpa [Release.paired, Release.join] using Error.suppress_eq_absorb_iff e f
  | e :: f :: g :: es =>
    refine iff_of_false (fun h => ?_) (by simp)
    have hlength := congrArg List.length hreported
    have hf := f.length_flat_pos
    have hg := g.length_flat_pos
    rw [← h, Release.length_reported_paired] at hlength
    simp only [List.flatMap_cons, List.length_append] at hlength
    omega

theorem held_foldl_push (hooks : List (String × Release)) (stack : ReleaseStack) :
    (hooks.foldl (fun stack h => stack.push h.1 h.2) stack).held = hooks.reverse ++ stack.held := by
  induction hooks generalizing stack with
  | nil => rfl
  | cons h hooks ih =>
    rw [List.foldl_cons, ih]
    simp [push]

end ReleaseStack

namespace RowStream

theorem pending_onClose (s : RowStream) (r : Release) :
    (s.onClose r).pending = r.before s.pending := by
  unfold pending onClose
  cases s.release with
  | none => exact (Release.before_nothing r).symm
  | some q => rfl

theorem pending_eq_chain (s : RowStream) : s.pending = .chain s.release.toList := by
  unfold pending
  cases s.release with
  | none => rfl
  | some r => exact (Release.before_nothing r).symm

theorem pending_foldl_onClose (hooks : List Release) (s : RowStream) :
    (hooks.foldl onClose s).pending =
      hooks.foldl (fun made r => r.before made) (.chain s.release.toList) := by
  induction hooks generalizing s with
  | nil => exact s.pending_eq_chain
  | cons r hooks ih =>
    rw [List.foldl_cons, List.foldl_cons, ih, ← pending_eq_chain, ← pending_eq_chain,
      pending_onClose]

/-- The releases of a stream after more were added: the one added last is made first. -/
theorem pending_added (hooks : List Release) (s : RowStream) :
    (hooks.foldl onClose s).pending = .chain (hooks.reverse ++ s.release.toList) := by
  rw [pending_foldl_onClose, Release.chain, Release.chain, List.foldr_append, List.foldr_reverse]

/-- A stream makes the releases added to it as a stack does. It reports the same if at most one
fails, or two of which the second has nothing suppressed onto it, else nested failures. -/
theorem close_as_stack (s : RowStream) (name : String) (hooks : List (String × Release)) :
    let stream := ((hooks.map Prod.snd).foldl onClose s).close.1
    let stack := (hooks.foldl (fun stack h => stack.push h.1 h.2)
      (ReleaseStack.empty.register name s)).release
    let made := (hooks.map Prod.snd).reverse ++ s.release.toList
    let failures := made.filterMap Release.failure
    stream.events = made.flatMap Release.events ∧ stack.events = made.flatMap Release.events ∧
      stream.failure.map Error.primary = stack.failure.map Error.primary ∧
      toldBy stream.failure = toldBy stack.failure ∧
      reported stack.failure = failures.flatMap Error.flat ∧
      (stream.outcome = stack.outcome ↔
        failures.length ≤ 1 ∨ ∃ e f, failures = [e, f] ∧ f.flat = [f]) := by
  intro stream stack made failures
  have hstream : stream = .chain made := pending_added (hooks.map Prod.snd) s
  have hpaired : stream.failure = Release.paired failures := by
    rw [hstream, Release.failure_chain]
  have hheld : (hooks.foldl (fun stack h => stack.push h.1 h.2)
      (ReleaseStack.empty.register name s)).held.map Prod.snd = made := by
    rw [ReleaseStack.held_foldl_push, ReleaseStack.held_register]
    cases hr : s.release <;> simp [made, hr, ReleaseStack.empty]
  have hstack : stack = ⟨made.flatMap Release.events, ReleaseStack.failure made⟩ := by
    rw [← hheld]
    rfl
  refine ⟨?_, ?_, ?_, ?_, ?_, ?_⟩
  · rw [hstream, Release.events_chain]
  · rw [hstack]
  · rw [hpaired, hstack, Release.primary_paired, ReleaseStack.primary_failure]
  · rw [hpaired, hstack, Release.told_paired, ReleaseStack.told_failure]
  · rw [hstack, ReleaseStack.reported_failures]
  · rw [Release.outcome_eq_iff, hpaired, hstack, ReleaseStack.paired_eq_failure_iff]

/-- Three releases that fail: on a stack the last two are both suppressed onto the first, on a
stream the last one is suppressed onto the second. -/
theorem close_nested :
    let failing := fun name => (name, Release.mk [.released name] (some (.release name "boom")))
    let hooks := [failing "a", failing "b", failing "c"]
    let stream := ((hooks.map Prod.snd).foldl onClose (ofRows .empty fun _ => .empty)).close.1
    let stack := (hooks.foldl (fun stack h => stack.push h.1 h.2) ReleaseStack.empty).release
    stream.outcome = .error (.suppressed (.release "c" "boom")
        [.suppressed (.release "b" "boom") [.release "a" "boom"]]) ∧
      stack.outcome = .error (.suppressed (.release "c" "boom")
        [.release "b" "boom", .release "a" "boom"]) ∧
      stream.outcome ≠ stack.outcome := by
  refine ⟨rfl, rfl, fun h => ?_⟩
  have hothers := (Error.suppressed.inj (Except.error.inj h)).2
  exact absurd (congrArg List.length hothers) (by decide)

end RowStream
end DatasetAlgebra
