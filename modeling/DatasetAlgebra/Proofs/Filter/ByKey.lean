import DatasetAlgebra.Proofs.Filter.Deciding
import DatasetAlgebra.Proofs.SortOrder.Sorting

/-!
Filters on the columns of an order. Rows of one key pass such a filter together or not at all, as
their values in these columns are equal in the order of values.
-/
namespace DatasetAlgebra
namespace Filter

variable {f : Filter} {o : SortOrder} {a b : Row}

theorem alike_of_key (ha : o.Covers a) (hb : o.Covers b)
    (h : SortOrder.compareAlong o.keys (o.keyOf a) (o.keyOf b) = .eq) :
    ∀ n ∈ o.columns, Alike (a.value? n) (b.value? n) := by
  intro n hn
  have hkey := SortOrder.compareAlong_eq_iff.mp h n hn
  obtain ⟨x, hx⟩ := Option.isSome_iff_exists.mp (ha n hn)
  obtain ⟨y, hy⟩ := Option.isSome_iff_exists.mp (hb n hn)
  rw [hx, hy] at hkey ⊢
  exact .some hkey

theorem keeps_congr_of_key (hf : f.refersOnlyTo o.columns) (ha : o.Covers a) (hb : o.Covers b)
    (h : SortOrder.compareAlong o.keys (o.keyOf a) (o.keyOf b) = .eq) : f.keeps a = f.keeps b :=
  keeps_congr_of_alike hf (alike_of_key ha hb h)

theorem exists_passes (hf : f.refersOnlyTo o.columns) (key : List Value) :
    ∃ keep, ∀ r, o.Covers r → SortOrder.compareAlong o.keys (o.keyOf r) key = .eq →
      f.passes r = keep := by
  by_cases h : ∃ a, o.Covers a ∧ SortOrder.compareAlong o.keys (o.keyOf a) key = .eq
  · obtain ⟨a, ha, hkey⟩ := h
    refine ⟨f.passes a, fun r hr hrkey => passes_congr (keeps_congr_of_key hf hr ha ?_)⟩
    exact Std.TransCmp.eq_trans hrkey (Std.OrientedCmp.eq_symm hkey)
  · exact ⟨true, fun r hr hrkey => absurd ⟨r, hr, hrkey⟩ h⟩

theorem refersOnlyTo_mono {names more : List String} (hf : f.refersOnlyTo names)
    (h : ∀ n ∈ names, n ∈ more) : f.refersOnlyTo more :=
  refersOnlyTo_iff.mpr fun n hn => h n (refersOnlyTo_iff.mp hf n hn)

theorem isAll_unsupported_iff {names : List String} :
    (if f.refersOnlyTo names then all else f).isAll ↔ f.refersOnlyTo names := by
  split
  · rename_i h
    exact iff_of_true rfl h
  · rename_i h
    refine iff_of_false (fun hall => h ?_) h
    cases f <;> simp [isAll] at hall
    exact all_refersOnlyTo names

end Filter
end DatasetAlgebra
