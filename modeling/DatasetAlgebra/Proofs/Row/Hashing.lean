import DatasetAlgebra.Proofs.Schema.Fingerprints
import DatasetAlgebra.Proofs.Value.Hashing
import Mathlib.Algebra.BigOperators.Group.List.Basic
import Mathlib.Data.List.Perm.Subperm
import Mathlib.Data.String.Basic

/-!
Equality of rows against their hash content. Rows are told apart by the hash exactly if they are
told apart by equality, or hold zeros of different signs inside values of one column.
-/
namespace DatasetAlgebra

namespace Schema

variable {s t : Schema}

/-- How many bytes of a fingerprint a column of a name takes. -/
def nameBytes (name : String) : Nat := name.toUTF8.data.toList.length + 10

theorem length_fingerprintBytes (s : Schema) :
    s.fingerprintBytes.length = 8 + (s.names.map nameBytes).sum := by
  have hcolumn (c : Column) : c.fingerprintBytes.length = nameBytes c.name := by
    simp only [Column.fingerprintBytes, List.length_append, length_littleEndian, nameBytes,
      List.length_cons, List.length_nil]
    omega
  have hperm : (s.byName.map fun c => nameBytes c.name).sum = (s.names.map nameBytes).sum := by
    rw [names, List.map_map]
    exact ((List.mergeSort_perm _ _).map _).sum_eq
  simp only [fingerprintBytes, List.length_append, length_littleEndian, List.length_flatMap,
    hcolumn, hperm]

/-- Of two schemas with the same bytes neither has names that the other has beside its own. -/
theorem names_subset_of_bytes (h : s.fingerprintBytes = t.fingerprintBytes)
    (hsub : s.names ⊆ t.names) : t.names ⊆ s.names := by
  obtain ⟨u, hu, hut⟩ : s.names.Subperm t.names := s.distinct.subperm hsub
  obtain ⟨rest, hrest⟩ := hut.exists_perm_append
  have hsum : (t.names.map nameBytes).sum =
      (s.names.map nameBytes).sum + (rest.map nameBytes).sum := by
    rw [(hrest.map nameBytes).sum_eq, List.map_append, List.sum_append, (hu.map nameBytes).sum_eq]
  have hlen := congrArg List.length h
  rw [length_fingerprintBytes, length_fingerprintBytes, hsum] at hlen
  have hnil : rest = [] := by
    cases rest with
    | nil => rfl
    | cons n rest =>
      simp only [List.map_cons, List.sum_cons, nameBytes] at hlen
      omega
  rw [hnil, List.append_nil] at hrest
  exact (hrest.trans hu).subset

end Schema

namespace Row

variable {p q : Row}

/-- What a hash covers of the values of a row, each under its name, in the order of the row. -/
def contents (r : Row) : List (String × ValueType × Option HashContent) :=
  (r.schema.names.zip r.values).map fun (name, v) => (name, v.hashContent)

theorem hashContent_eq (r : Row) :
    r.hashContent = (r.schema.fingerprint, r.contents.mergeSort fun a b => a.1 ≤ b.1) := by
  rw [hashContent, contents]
  congr 1
  exact (List.map_mergeSort fun _ _ _ _ => rfl)

theorem names_contents (r : Row) : r.contents.map Prod.fst = r.schema.names := by
  have hlen : r.schema.names.length ≤ r.values.length := by
    simp [Schema.names, r.arity, Schema.width]
  rw [contents, List.map_map]
  exact List.map_fst_zip hlen

theorem mem_zip_values {r : Row} {name : String} {v : Value} :
    (name, v) ∈ r.schema.names.zip r.values ↔ r.value? name = some v := by
  rw [List.mem_iff_getElem?]
  simp only [List.getElem?_zip_eq_some, Schema.names, List.getElem?_map, Option.map_eq_some_iff]
  constructor
  · rintro ⟨i, ⟨c, hc, rfl⟩, hv⟩
    exact (value?_eq_getElem hc).trans hv
  · intro h
    have hname : name ∈ r.schema.names := by
      rw [← value?_isSome_iff, h]
      rfl
    obtain ⟨c, hc, rfl⟩ := List.mem_map.mp hname
    obtain ⟨i, hi⟩ := List.mem_iff_getElem?.mp hc
    exact ⟨i, ⟨c, hi, rfl⟩, (value?_eq_getElem hi).symm.trans h⟩

theorem mem_contents {r : Row} {name : String} {c : ValueType × Option HashContent} :
    (name, c) ∈ r.contents ↔ (r.value? name).map Value.hashContent = some c := by
  simp only [contents, List.mem_map, Prod.exists, Prod.mk.injEq, Option.map_eq_some_iff,
    ← mem_zip_values]
  constructor
  · rintro ⟨n, v, hv, rfl, rfl⟩
    exact ⟨v, hv, rfl⟩
  · rintro ⟨v, hv, rfl⟩
    exact ⟨name, v, hv, rfl, rfl⟩

theorem nodup_names_contents (r : Row) : (r.contents.map Prod.fst).Nodup := by
  rw [names_contents]
  exact r.schema.distinct

theorem sorted_contents_eq_iff :
    (p.contents.mergeSort fun a b => a.1 ≤ b.1) = (q.contents.mergeSort fun a b => a.1 ≤ b.1) ↔
      ∀ name, (p.value? name).map Value.hashContent = (q.value? name).map Value.hashContent := by
  have hperm : p.contents.Perm q.contents ↔
      ∀ name, (p.value? name).map Value.hashContent = (q.value? name).map Value.hashContent := by
    rw [List.perm_ext_iff_of_nodup p.nodup_names_contents.of_map q.nodup_names_contents.of_map]
    refine ⟨fun h name => Option.ext fun c => ?_, fun h ⟨name, c⟩ => ?_⟩
    · simpa only [mem_contents] using h (name, c)
    · rw [mem_contents, mem_contents, h]
  rw [← hperm]
  constructor
  · intro h
    have hq := List.mergeSort_perm q.contents fun a b => decide (a.1 ≤ b.1)
    rw [← h] at hq
    exact (List.mergeSort_perm _ _).symm.trans hq
  · intro h
    exact Schema.mergeSort_eq_of_perm h p.nodup_names_contents

theorem hashContent_eq_iff_values :
    p.hashContent = q.hashContent ↔ p.schema.fingerprint = q.schema.fingerprint ∧
      ∀ name, (p.value? name).map Value.hashContent = (q.value? name).map Value.hashContent := by
  rw [hashContent_eq, hashContent_eq, Prod.mk.injEq, sorted_contents_eq_iff]

theorem same_iff :
    p.same q ↔ p.schema.same q.schema ∧
      ∀ name v, p.value? name = some v → ∃ w, q.value? name = some w ∧ w == v := by
  have hsame : p.same q = (p.schema.same q.schema &&
      (p.schema.names.zip p.values).all fun nv => (q.value? nv.1).any (· == nv.2)) := by
    rw [same, Schema.names, List.zip_map_left, List.all_map]
    congr 2
    funext cv
    dsimp only [Function.comp_apply, Prod.map]
    cases q.value? cv.1.name <;> rfl
  simp only [hsame, Bool.and_eq_true, List.all_eq_true, Prod.forall, mem_zip_values,
    Option.any_eq_true]

theorem value?_eq_none_iff {r : Row} {name : String} :
    r.value? name = none ↔ name ∉ r.schema.names := by
  rw [← value?_isSome_iff, Option.not_isSome_iff_eq_none]

/-- Unless the digests of two different schemas collide, a hash covers the same of two rows
exactly if they are equal and the zeros inside values of one name have the same signs. -/
theorem hashContent_eq_iff
    (hdigest : p.schema.fingerprint = q.schema.fingerprint →
      p.schema.fingerprintBytes = q.schema.fingerprintBytes) :
    p.hashContent = q.hashContent ↔ p.same q ∧
      ∀ name v w, p.value? name = some v → q.value? name = some w →
        v.zeroSigns = w.zeroSigns := by
  rw [hashContent_eq_iff_values, same_iff]
  constructor
  · rintro ⟨hfp, hvalues⟩
    have hcollate {name v w} (hv : p.value? name = some v) (hw : q.value? name = some w) :
        w.collate v = .eq := by
      have h := hvalues name
      rw [hv, hw] at h
      exact Value.collate_eq_iff_hashContent.mpr (Option.some.inj h).symm
    refine ⟨⟨decide_eq_true hfp, fun name v hv => ?_⟩, fun name v w hv hw => ?_⟩
    · have hsome : (q.value? name).isSome := by
        simpa [hv] using (congrArg Option.isSome (hvalues name)).symm
      obtain ⟨w, hw⟩ := Option.isSome_iff_exists.mp hsome
      exact ⟨w, hw, (Value.collate_eq_iff.mp (hcollate hv hw)).1⟩
    · exact (Value.collate_eq_iff.mp (hcollate hv hw)).2.symm
  · rintro ⟨⟨hsame, hvalues⟩, hz⟩
    have hfp : p.schema.fingerprint = q.schema.fingerprint := of_decide_eq_true hsame
    have hnames : q.schema.names ⊆ p.schema.names := by
      refine Schema.names_subset_of_bytes (hdigest hfp) fun name hname => ?_
      obtain ⟨v, hv⟩ := Option.isSome_iff_exists.mp (value?_isSome_iff.mpr hname)
      obtain ⟨w, hw, -⟩ := hvalues name v hv
      exact value?_isSome_iff.mp (by rw [hw]; rfl)
    refine ⟨hfp, fun name => ?_⟩
    cases hv : p.value? name with
    | none =>
      rw [value?_eq_none_iff.mpr fun h => value?_eq_none_iff.mp hv (hnames h)]
    | some v =>
      obtain ⟨w, hw, hwv⟩ := hvalues name v hv
      have hcollate := Value.collate_eq_iff.mpr ⟨hwv, (hz name v w hv hw).symm⟩
      rw [hw, Option.map_some, Option.map_some, Value.collate_eq_iff_hashContent.mp hcollate]

end Row
end DatasetAlgebra
