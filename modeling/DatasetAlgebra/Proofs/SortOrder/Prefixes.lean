import DatasetAlgebra.Proofs.Dataset.Requests

/-!
The prefix rule. An order satisfies those that its demands begin with, and rows in that order are
in each of these, also rows that lack columns of it and compare equal in them.
-/
namespace DatasetAlgebra
namespace SortOrder

variable {wanted provided o p : SortOrder}

theorem satisfiedBy_self (o : SortOrder) : o.satisfiedBy o :=
  satisfiedBy_iff.mpr (List.prefix_refl o.demands)

theorem satisfiedBy_trans (hw : wanted.satisfiedBy provided) (hp : provided.satisfiedBy o) :
    wanted.satisfiedBy o :=
  satisfiedBy_iff.mpr ((satisfiedBy_iff.mp hw).trans (satisfiedBy_iff.mp hp))

theorem satisfiedBy_any (o : SortOrder) : any.satisfiedBy o :=
  satisfiedBy_iff.mpr List.nil_prefix

theorem satisfiedBy_congr {wanted' provided' : SortOrder} (hw : wanted'.demands = wanted.demands)
    (hp : provided'.demands = provided.demands) :
    wanted'.satisfiedBy provided' = wanted.satisfiedBy provided := by
  rw [Bool.eq_iff_iff, satisfiedBy_iff, satisfiedBy_iff, hw, hp]

/-- Whether no row precedes one before it. -/
def Follows (o : SortOrder) (rows : List Row) : Prop :=
  rows.Pairwise fun a b => o.compare a b ≠ .gt

/-- Whether no row precedes its neighbour. This is less: rows that lack a column equal all others
in it, so they may stand between rows that descend. -/
def FollowsStepwise (o : SortOrder) (rows : List Row) : Prop :=
  rows.IsChain fun a b => o.compare a b ≠ .gt

theorem compare_of_satisfiedBy (h : wanted.satisfiedBy provided) {a b : Row}
    (hab : provided.compare a b ≠ .gt) : wanted.compare a b ≠ .gt :=
  compare_of_prefix (satisfiedBy_iff.mp h) hab

theorem Follows.of_satisfiedBy {rows : List Row} (hrows : provided.Follows rows)
    (h : wanted.satisfiedBy provided) : wanted.Follows rows :=
  hrows.imp fun hab => compare_of_satisfiedBy h hab

theorem FollowsStepwise.of_satisfiedBy {rows : List Row} (hrows : provided.FollowsStepwise rows)
    (h : wanted.satisfiedBy provided) : wanted.FollowsStepwise rows :=
  hrows.imp fun _ _ hab => compare_of_satisfiedBy h hab

end SortOrder

/-- The rows that a stream gives, whatever fails between them. -/
def RowStream.answered (s : RowStream) : List Row := s.drain.2.1.filterMap Except.toOption

namespace SortOrder

/-- Rows in an order are in every order that it satisfies, which depends on demands alone. So the
rows of a stream with nothing left to be sorted are in the order wanted. -/
theorem prefix_rule (wanted provided : SortOrder) :
    (wanted.satisfiedBy provided →
      (∀ a b, provided.compare a b ≠ .gt → wanted.compare a b ≠ .gt) ∧
      ∀ rows, (provided.Follows rows → wanted.Follows rows) ∧
        (provided.FollowsStepwise rows → wanted.FollowsStepwise rows)) ∧
    wanted.satisfiedBy wanted ∧
    (∀ o, wanted.satisfiedBy provided → provided.satisfiedBy o → wanted.satisfiedBy o) ∧
    (∀ schema o, wanted.onto schema = .ok o →
      o.satisfiedBy provided = wanted.satisfiedBy provided) ∧
    (∀ schema o, provided.onto schema = .ok o →
      wanted.satisfiedBy o = wanted.satisfiedBy provided) ∧
    any.satisfiedBy provided ∧
    ∀ s : RowStream, s.residualOrder.isAny →
      (s.order.Follows s.answered → s.wantedOrder.Follows s.answered) ∧
        (s.order.FollowsStepwise s.answered → s.wantedOrder.FollowsStepwise s.answered) := by
  refine ⟨fun h => ⟨fun a b => compare_of_satisfiedBy h, fun rows => ⟨?_, ?_⟩⟩,
    satisfiedBy_self wanted, fun o => satisfiedBy_trans, fun schema o ho => ?_,
    fun schema o ho => ?_, satisfiedBy_any provided, fun s hs => ?_⟩
  · exact fun hrows => hrows.of_satisfiedBy h
  · exact fun hrows => hrows.of_satisfiedBy h
  · exact satisfiedBy_congr (onto_spec ho).1 rfl
  · exact satisfiedBy_congr rfl (onto_spec ho).1
  · have h := satisfiedBy_iff.mpr (RowStream.satisfied_of_residualOrder hs)
    exact ⟨fun hrows => hrows.of_satisfiedBy h, fun hrows => hrows.of_satisfiedBy h⟩

end SortOrder
end DatasetAlgebra
