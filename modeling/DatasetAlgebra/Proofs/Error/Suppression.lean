import DatasetAlgebra.Error

/-!
Suppression as concatenation. To absorb a failure is to append its list to one's own, so it does
not matter in which pairs the failures of many releases are put together: none is lost, none comes
twice, and they stay in their order. All of this holds of nested failures too, of which only the
outermost list counts.
-/
namespace DatasetAlgebra
namespace Error

theorem foldl_suppress (e other : Error) (es : List Error) :
    (other :: es).foldl suppress e = .suppressed e.primary (e.others ++ other :: es) := by
  induction es generalizing e other with
  | nil => rfl
  | cons x es ih =>
    rw [List.foldl_cons, ih, primary_suppress, others_suppress, List.append_assoc]
    rfl

theorem absorb_eq (e other : Error) :
    e.absorb other = .suppressed e.primary (e.others ++ other.flat) :=
  e.foldl_suppress other.primary other.others

theorem others_absorb (e other : Error) : (e.absorb other).others = e.others ++ other.flat := by
  rw [absorb_eq]
  rfl

theorem absorb_assoc (a b c : Error) : (a.absorb b).absorb c = a.absorb (b.absorb c) := by
  rw [absorb_eq (a.absorb b) c, absorb_eq a (b.absorb c), primary_absorb, others_absorb,
    flat_absorb, List.append_assoc]

instance : Std.Associative absorb := ⟨absorb_assoc⟩

theorem flat_foldl_absorb (e : Error) (es : List Error) :
    (es.foldl absorb e).flat = (e :: es).flatMap flat := by
  induction es generalizing e with
  | nil => simp
  | cons x es ih => simp [ih]

theorem isUnsupported_congr {a b : Error} (h : a.primary = b.primary) :
    a.isUnsupported = b.isUnsupported := by
  rw [isUnsupported, isUnsupported, h]

/-- Failures put together in pairs, in one of the ways that keep their order. -/
inductive Bracketing where
  | one (e : Error)
  | pair (first second : Bracketing)

namespace Bracketing

def failures : Bracketing → List Error
  | .one e => [e]
  | .pair first second => first.failures ++ second.failures

/-- Each second failure absorbed by its first. -/
def absorbed : Bracketing → Error
  | .one e => e
  | .pair first second => first.absorbed.absorb second.absorbed

theorem flat_absorbed (t : Bracketing) : t.absorbed.flat = t.failures.flatMap flat := by
  induction t with
  | one e => simp [absorbed, failures]
  | pair first second ih₁ ih₂ =>
    rw [absorbed, failures, flat_absorb, ih₁, ih₂, List.flatMap_append]

/-- All ways to put failures together come to the same as absorbing them one after the other. -/
theorem exists_foldl_absorb (t : Bracketing) :
    ∃ e es, t.failures = e :: es ∧ t.absorbed = es.foldl absorb e := by
  induction t with
  | one e => exact ⟨e, [], rfl, rfl⟩
  | pair first second ih₁ ih₂ =>
    obtain ⟨a, as, hfirst, habsorbed⟩ := ih₁
    obtain ⟨b, bs, hsecond, hmore⟩ := ih₂
    refine ⟨a, as ++ b :: bs, by rw [failures, hfirst, hsecond, List.cons_append], ?_⟩
    calc first.absorbed.absorb second.absorbed
        = (as.foldl absorb a).absorb (bs.foldl absorb b) := by rw [habsorbed, hmore]
      _ = bs.foldl absorb ((as.foldl absorb a).absorb b) := List.foldl_assoc.symm
      _ = (as ++ b :: bs).foldl absorb a := by rw [List.foldl_append, List.foldl_cons]

end Bracketing

/-- Suppressed failures come behind those that are there, under the same primary failure. So
absorbing is associative, and absorbed in any pairs a list of failures tells all of them in their
order. -/
theorem suppression_laws (a b c : Error) :
    (a.absorb b).flat = a.flat ++ b.flat ∧ (a.suppress b).flat = a.flat ++ [b] ∧
    (a.absorb b).primary = a.primary ∧ (a.suppress b).primary = a.primary ∧
    (a.absorb b).isUnsupported = a.isUnsupported ∧ (a.suppress b).isUnsupported = a.isUnsupported ∧
    (a.absorb b).absorb c = a.absorb (b.absorb c) ∧
    (∀ es : List Error, (es.foldl absorb a).flat = (a :: es).flatMap flat) ∧
    ∀ t : Bracketing, t.absorbed.flat = t.failures.flatMap flat ∧
      ∃ e es, t.failures = e :: es ∧ t.absorbed = es.foldl absorb e :=
  ⟨flat_absorb a b, flat_suppress a b, primary_absorb a b, primary_suppress a b,
    isUnsupported_congr (primary_absorb a b), isUnsupported_congr (primary_suppress a b),
    absorb_assoc a b c, flat_foldl_absorb a, fun t => ⟨t.flat_absorbed, t.exists_foldl_absorb⟩⟩

end Error
end DatasetAlgebra
