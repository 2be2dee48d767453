import DatasetAlgebra.Proofs.Value.Collation
import DatasetAlgebra.Row.Basic
import DatasetAlgebra.SortOrder.Rows

/-!
Comparing rows is comparing their keys. `keyOf` gives every row a key of the length of the order,
and `compareAlong` is the comparison of keys as a total preorder on all lists of values; it is the
library's `compareKeys` on keys that have the length of the order.
-/
namespace DatasetAlgebra

namespace Direction

/-- A total preorder read along a direction is one again. -/
instance {α : Type} (d : Direction) (cmp : α → α → Ordering) [Std.TransCmp cmp] :
    Std.TransCmp fun a b => d.along (cmp a b) := by
  cases d with
  | ascending => exact inferInstanceAs (Std.TransCmp cmp)
  | descending =>
    have h : (fun a b => (cmp a b).swap) = fun a b => cmp b a := by
      funext a b
      exact Std.OrientedCmp.eq_swap.symm
    simp only [along]
    rw [h]
    infer_instance

@[simp] theorem along_eq_eq {d : Direction} {o : Ordering} : d.along o = .eq ↔ o = .eq := by
  cases d <;> simp [along]

end Direction

namespace SortOrder

/-- The values of a row in the columns of an order. -/
def keyOf (o : SortOrder) (r : Row) : List Value :=
  o.columns.map fun name => (r.value? name).getD default

/-- The first values that differ decide, along the directions of the keys. -/
def compareAlong : List SortKey → List Value → List Value → Ordering
  | [], _, _ => .eq
  | k :: ks, a, b =>
    (k.direction.along ((a.headD default).collate (b.headD default))).then
      (compareAlong ks a.tail b.tail)

theorem compareAlong_cons (k : SortKey) (ks : List SortKey) :
    compareAlong (k :: ks) =
      compareLex (fun a b => k.direction.along ((a.headD default).collate (b.headD default)))
        (fun a b => compareAlong ks a.tail b.tail) := rfl

theorem transCmp_on {α β : Type} (cmp : β → β → Ordering) [Std.TransCmp cmp] (f : α → β) :
    Std.TransCmp fun a b => cmp (f a) (f b) where
  eq_swap {a b} := by
    have h : cmp (f a) (f b) = (cmp (f b) (f a)).swap := Std.OrientedCmp.eq_swap
    exact h
  isLE_trans {_ _ _} hab hbc := Std.TransCmp.isLE_trans hab hbc

instance (ks : List SortKey) : Std.TransCmp (compareAlong ks) := by
  induction ks with
  | nil => exact { eq_swap := rfl, isLE_trans := fun _ _ => rfl }
  | cons k ks ih =>
    have head := transCmp_on Value.collate fun a : List Value => a.headD default
    have tail := transCmp_on (compareAlong ks) List.tail
    rw [compareAlong_cons]
    infer_instance

/-- Whether a list of values has the length of the keys of an order. -/
def Fits (o : SortOrder) (key : List Value) : Prop := key.length = o.keys.length

theorem fits_keyOf (o : SortOrder) (r : Row) : o.Fits (o.keyOf r) := by
  simp [Fits, keyOf, columns]

theorem compareKeys_eq {o : SortOrder} {a b : List Value} (ha : o.Fits a) (hb : o.Fits b) :
    o.compareKeys a b = compareAlong o.keys a b := by
  obtain ⟨ks⟩ := o
  simp only [Fits, compareKeys] at *
  induction ks generalizing a b with
  | nil => rfl
  | cons k ks ih =>
    cases a with
    | nil => simp at ha
    | cons x a =>
      cases b with
      | nil => simp at hb
      | cons y b =>
        simp only [List.length_cons, Nat.add_right_cancel_iff] at ha hb
        simp [compareAlong, ih ha hb]

theorem sameKey_iff {o : SortOrder} {a b : List Value} (ha : o.Fits a) (hb : o.Fits b) :
    o.sameKey a b = true ↔ compareAlong o.keys a b = .eq := by
  simp [sameKey, compareKeys_eq ha hb]

/-- Whether a row has a value in every column of an order. -/
def Covers (o : SortOrder) (r : Row) : Prop := ∀ name ∈ o.columns, (r.value? name).isSome

theorem compare_eq {o : SortOrder} {a b : Row} (ha : o.Covers a) (hb : o.Covers b) :
    o.compare a b = compareAlong o.keys (o.keyOf a) (o.keyOf b) := by
  obtain ⟨ks⟩ := o
  simp only [Covers, columns, compare, keyOf] at *
  induction ks with
  | nil => rfl
  | cons k ks ih =>
    simp only [List.map_cons, List.forall_mem_cons] at ha hb
    obtain ⟨x, hx⟩ := Option.isSome_iff_exists.mp ha.1
    obtain ⟨y, hy⟩ := Option.isSome_iff_exists.mp hb.1
    have hk : compareBy k a b = k.direction.along (x.collate y) := by simp [compareBy, hx, hy]
    rw [List.foldr_cons, hk, ih ha.2 hb.2]
    simp [compareAlong, hx, hy]

theorem compareAlong_eq_iff {o : SortOrder} {a b : Row} :
    compareAlong o.keys (o.keyOf a) (o.keyOf b) = .eq ↔
      ∀ n ∈ o.columns,
        ((a.value? n).getD default).collate ((b.value? n).getD default) = .eq := by
  obtain ⟨ks⟩ := o
  simp only [columns, keyOf]
  induction ks with
  | nil => simp [compareAlong]
  | cons k ks ih =>
    simp only [List.map_cons, List.forall_mem_cons, ← ih, compareAlong, List.headD_cons,
      List.tail_cons, Ordering.then_eq_eq, Direction.along_eq_eq]

end SortOrder
end DatasetAlgebra
