import DatasetAlgebra.Proofs.Json.Text
import DatasetAlgebra.Proofs.Value.Collation

/-!
Equality of values against their order and their hash content. The order and the hash content
always agree. Equality agrees with them except on stored JSON values, of which it does not tell
the two zeros apart.
-/
namespace DatasetAlgebra

theorem ValueType.rank_inj {s t : ValueType} : s.rank = t.rank ↔ s = t :=
  ⟨rank_injective, congrArg rank⟩

theorem Json.length_zeroSigns {a b : Json} (h : a.same b) :
    a.zeroSigns.length = b.zeroSigns.length :=
  a.document.length_zeroSigns a.canonical b.canonical h

namespace Scalar

/-- The signs of the zeros inside a stored JSON value. Zeros in float columns have none: there
they are one number everywhere. -/
def zeroSigns : Scalar → List Bool
  | .object j => j.zeroSigns
  | _ => []

theorem collate_eq_iff_hashContent {x y : Scalar} :
    x.collate y = .eq ↔ x.type = y.type ∧ x.hashContent = y.hashContent := by
  cases x <;> cases y <;> simp [collate, hashContent, type, ValueType.rank]
  case integer.integer => exact Int64.toInt_inj
  case boolean.boolean b c => cases b <;> cases c <;> decide

theorem collate_eq_iff_same {x y : Scalar} :
    x.collate y = .eq ↔ x.same y ∧ x.zeroSigns = y.zeroSigns := by
  cases x <;> cases y <;> simp [collate, same, zeroSigns, type, ValueType.rank]
  case integer.integer => exact Int64.toInt_inj
  case boolean.boolean b c => cases b <;> cases c <;> decide
  case object.object => exact Json.text_eq_iff

theorem length_zeroSigns {x y : Scalar} (h : x.same y) :
    x.zeroSigns.length = y.zeroSigns.length := by
  cases x <;> cases y <;> simp only [same, Bool.false_eq_true] at h <;> try rfl
  case object.object => exact Json.length_zeroSigns h

end Scalar

namespace Value

/-- The signs of the zeros inside a value; only stored JSON values have any. -/
def zeroSigns : Value → List Bool
  | .null _ => []
  | .present s => s.zeroSigns

theorem length_zeroSigns {a b : Value} (h : a == b) :
    a.zeroSigns.length = b.zeroSigns.length := by
  cases a <;> cases b <;> simp only [BEq.beq, same, Bool.false_eq_true] at h <;> try rfl
  case present.present => exact Scalar.length_zeroSigns h

theorem collate_present {x y : Scalar} :
    (present x).collate (present y) = .eq ↔ x.collate y = .eq := by
  simp only [collate, Ordering.then_eq_eq, type_present, Std.LawfulEqOrd.compare_eq_iff_eq,
    ValueType.rank_inj]
  exact and_iff_right_of_imp fun h => (Scalar.collate_eq_iff_hashContent.mp h).1

/-- Values are equal in the order exactly if a hash covers the same of them. -/
theorem collate_eq_iff_hashContent {a b : Value} :
    a.collate b = .eq ↔ a.hashContent = b.hashContent := by
  cases a <;> cases b
  case null.null => simp [collate, hashContent, ValueType.rank_inj]
  case null.present => simp [collate, hashContent, Ordering.then_eq_eq]
  case present.null => simp [collate, hashContent, Ordering.then_eq_eq]
  case present.present =>
    simp [collate_present, Scalar.collate_eq_iff_hashContent, hashContent]

theorem collate_eq_iff {a b : Value} :
    a.collate b = .eq ↔ a == b ∧ a.zeroSigns = b.zeroSigns := by
  cases a <;> cases b
  case null.null => simp [collate, ValueType.rank_inj, BEq.beq, same, zeroSigns]
  case null.present => simp [collate, Ordering.then_eq_eq, BEq.beq, same]
  case present.null => simp [collate, Ordering.then_eq_eq, BEq.beq, same]
  case present.present => exact collate_present.trans Scalar.collate_eq_iff_same

end Value
end DatasetAlgebra
