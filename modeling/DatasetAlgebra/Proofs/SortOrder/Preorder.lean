import DatasetAlgebra.Proofs.Number.Comparison
import DatasetAlgebra.Proofs.SortOrder.Sorting

/-!
Values, keys and rows are compared in total preorders, so that sorting is well defined. The order
of numbers is that of the numbers themselves, with NaN above them; a null is below the values of
its type. Keys are compared so if they have the length of the order, rows if they cover it.
-/
namespace DatasetAlgebra

/-- Whether a comparison is a total preorder of the items that have some property. -/
structure TotalPreorder {α : Type} (cmp : α → α → Ordering) (has : α → Prop) : Prop where
  refl : ∀ a, has a → cmp a a = .eq
  reverse : ∀ a b, has a → has b → cmp b a = (cmp a b).swap
  trans : ∀ a b c, has a → has b → has c → (cmp a b).isLE → (cmp b c).isLE → (cmp a c).isLE

/-- It is enough that the items are compared as keys are, in a total preorder of all keys. -/
theorem TotalPreorder.of_key {α κ : Type} {cmp : α → α → Ordering} {has : α → Prop}
    {cmpKey : κ → κ → Ordering} [Std.TransCmp cmpKey] (key : α → κ)
    (h : ∀ a b, has a → has b → cmp a b = cmpKey (key a) (key b)) : TotalPreorder cmp has where
  refl a ha := by
    rw [h a a ha ha]
    exact Std.ReflCmp.compare_self
  reverse a b ha hb := by
    rw [h a b ha hb, h b a hb ha]
    exact Std.OrientedCmp.eq_swap
  trans a b c ha hb hc hab hbc := by
    rw [h a b ha hb] at hab
    rw [h b c hb hc] at hbc
    rw [h a c ha hc]
    exact Std.TransCmp.isLE_trans hab hbc

namespace Value

theorem totalPreorder_collate : TotalPreorder collate fun _ => True :=
  .of_key id fun _ _ _ _ => rfl

theorem collate_ofFloat (x y : Float) :
    (ofFloat x).collate (ofFloat y) = Ord.compare (Binary64.rank x) (Binary64.rank y) := rfl

variable {x y : Float}

theorem collate_ofFloat_of_isNaN (h : y.isNaN) :
    (ofFloat x).collate (ofFloat y) = if x.isNaN then .eq else .lt := by
  rw [collate_ofFloat]
  cases hx : x.isNaN with
  | true => exact Std.compare_eq_iff_eq.mpr (Binary64.rank_eq_of_isNaN hx h)
  | false => exact compare_lt_iff_lt.mpr (Binary64.rank_lt_of_isNaN hx h)

theorem collate_ofFloat_iff (hx : x.isNaN = false) (hy : y.isNaN = false) :
    ((ofFloat x).collate (ofFloat y) = .lt ↔ x < y) ∧
      ((ofFloat x).collate (ofFloat y) = .eq ↔ x == y) := by
  rw [collate_ofFloat, Binary64.lt_iff_rank_lt hx hy, Binary64.beq_iff_rank_eq hx hy]
  exact ⟨compare_lt_iff_lt, compare_eq_iff_eq⟩

theorem collate_null (v : Value) :
    (null v.type).collate v = if v.isNull then .eq else .lt := by
  have htype : Ord.compare v.type.rank v.type.rank = .eq := Std.ReflOrd.compare_self
  cases v <;> simp only [type_null, type_present] at htype <;>
    simp only [collate, type_null, type_present, htype] <;> rfl

end Value

namespace SortOrder

theorem totalPreorder_compareKeys (o : SortOrder) : TotalPreorder o.compareKeys o.Fits :=
  .of_key id fun _ _ => compareKeys_eq

theorem totalPreorder_compare (o : SortOrder) : TotalPreorder o.compare o.Covers :=
  .of_key o.keyOf fun _ _ => compare_eq

/-- Values, rows and keys are in total preorders: numbers as numbers, NaN above them, and nulls
below the values of their type. So sorting rows that cover the order is stable. -/
theorem comparison_laws (o : SortOrder) :
    TotalPreorder Value.collate (fun _ => True) ∧
    (Value.ofFloat (-0.0)).collate (.ofFloat 0.0) = .eq ∧
    (∀ x y : Float, y.isNaN →
      (Value.ofFloat x).collate (.ofFloat y) = if x.isNaN then .eq else .lt) ∧
    (∀ x y : Float, x.isNaN = false → y.isNaN = false →
      ((Value.ofFloat x).collate (.ofFloat y) = .lt ↔ x < y) ∧
        ((Value.ofFloat x).collate (.ofFloat y) = .eq ↔ x == y)) ∧
    (∀ v : Value, (Value.null v.type).collate v = if v.isNull then .eq else .lt) ∧
    TotalPreorder o.compare o.Covers ∧
    TotalPreorder o.compareKeys o.Fits ∧
    ∀ rows : List Row, (∀ r ∈ rows, o.Covers r) →
      (o.sort rows).Perm rows ∧ ((o.sort rows).Pairwise fun a b => o.compare a b ≠ .gt) ∧
        ∀ r, o.Covers r →
          (o.sort rows).filter (o.compare · r == .eq) = rows.filter (o.compare · r == .eq) := by
  have hzeros : (Value.ofFloat (-0.0)).collate (.ofFloat 0.0) = .eq := by decide
  exact ⟨Value.totalPreorder_collate, hzeros, fun _ _ => Value.collate_ofFloat_of_isNaN,
    fun _ _ => Value.collate_ofFloat_iff, Value.collate_null, o.totalPreorder_compare,
    o.totalPreorder_compareKeys, fun _ => sort_stable⟩

end SortOrder
end DatasetAlgebra
