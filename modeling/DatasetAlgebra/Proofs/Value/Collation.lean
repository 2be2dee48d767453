import DatasetAlgebra.Value.Arithmetic

/-!
The order of values is a total preorder. Values that it holds equal have one type, are null
together, and cannot be told apart by comparison with a third.
-/
namespace DatasetAlgebra

namespace Scalar

instance : Std.OrientedCmp collate where
  eq_swap {a b} := by
    cases a <;> cases b <;> simp only [collate] <;> exact Std.OrientedOrd.eq_swap

instance : Std.TransCmp collate where
  isLE_trans {a b c} hab hbc := by
    cases a <;> cases b <;> cases c <;> simp only [collate, type, ValueType.rank] at *
    all_goals first | exact Std.TransOrd.isLE_trans hab hbc | contradiction | rfl

end Scalar

namespace Value

/-- The order among the values of one type. -/
def collatePresence : Value → Value → Ordering
  | .null _, .null _ => .eq
  | .null _, .present _ => .lt
  | .present _, .null _ => .gt
  | .present x, .present y => x.collate y

theorem collate_eq_compareLex :
    collate = compareLex (compareOn fun v : Value => v.type.rank) collatePresence := by
  funext a b
  cases a <;> cases b <;> rfl

instance : Std.OrientedCmp collatePresence where
  eq_swap {a b} := by
    cases a <;> cases b <;> simp only [collatePresence]
    all_goals first | rfl | exact Std.OrientedCmp.eq_swap

instance : Std.TransCmp collatePresence where
  isLE_trans {a b c} hab hbc := by
    cases a <;> cases b <;> cases c <;> simp only [collatePresence] at *
    all_goals first | exact Std.TransCmp.isLE_trans hab hbc | contradiction | rfl

instance : Std.TransCmp collate := by
  rw [collate_eq_compareLex]
  infer_instance

theorem type_eq_of_collate {a b : Value} (h : a.collate b = .eq) : a.type = b.type := by
  have hr := (Ordering.then_eq_eq.mp h).1
  exact ValueType.rank_injective (Std.LawfulEqOrd.eq_of_compare hr)

theorem isNull_eq_of_collate {a b : Value} (h : a.collate b = .eq) : a.isNull = b.isNull := by
  have hp := (Ordering.then_eq_eq.mp h).2
  cases a <;> cases b <;> simp_all

theorem compare_congr {a b : Value} (h : a.collate b = .eq) (c : Value) :
    a.compare c = b.compare c := by
  simp only [compare, operands, type_eq_of_collate h, isNull_eq_of_collate h,
    Std.TransCmp.congr_left h]

theorem compare_congr_right {a b : Value} (h : a.collate b = .eq) (v : Value) :
    v.compare a = v.compare b := by
  simp only [compare, operands, type_eq_of_collate h, isNull_eq_of_collate h,
    Std.TransCmp.congr_right h]

end Value
end DatasetAlgebra
