import DatasetAlgebra.Row.Binding
import Mathlib.Data.List.Nodup

/-!
Columns and values by name. A name stands for one column of a schema, so a row is determined by
its schema and the values under its names. The columns of a merged schema are those of the two
schemas it was merged from.
-/
namespace DatasetAlgebra

namespace Schema

theorem ext_columns {s t : Schema} (h : s.columns = t.columns) : s = t := by
  cases s
  cases t
  simp_all

theorem contains_iff {s : Schema} {name : String} : s.contains name ↔ name ∈ s.names := by
  simp [contains, names]

theorem column?_eq_some_iff {s : Schema} {name : String} {c : Column} :
    s.column? name = some c ↔ c ∈ s.columns ∧ c.name = name := by
  constructor
  · intro h
    have hp := List.find?_some h
    exact ⟨List.mem_of_find?_eq_some h, by simpa using hp⟩
  · rintro ⟨hc, rfl⟩
    cases h : s.column? c.name with
    | none => simpa using List.find?_eq_none.mp h c hc
    | some d =>
      have hd : d ∈ s.columns ∧ d.name = c.name :=
        ⟨List.mem_of_find?_eq_some h, by simpa using List.find?_some h⟩
      rw [List.inj_on_of_nodup_map s.distinct hd.1 hc hd.2]

theorem column?_isSome_iff {s : Schema} {name : String} :
    (s.column? name).isSome ↔ name ∈ s.names := by
  simp [column?, names]

theorem column?_eq_bind (s : Schema) (name : String) :
    s.column? name = (s.position? name).bind fun i => s.columns[i]? :=
  List.find?_eq_bind_findIdx?_getElem?

theorem getElem?_position {s : Schema} {name : String} {c : Column} (h : s.column? name = some c) :
    ∃ i, s.position? name = some i ∧ s.columns[i]? = some c := by
  rw [column?_eq_bind] at h
  exact Option.bind_eq_some_iff.mp h

theorem position?_of_getElem {s : Schema} {i : Nat} {c : Column} (h : s.columns[i]? = some c) :
    s.position? c.name = some i := by
  have hc : s.column? c.name = some c :=
    column?_eq_some_iff.mpr ⟨List.mem_of_getElem? h, rfl⟩
  obtain ⟨j, hj, hcj⟩ := getElem?_position hc
  have hname {k : Nat} (hk : s.columns[k]? = some c) :
      (s.columns.map Column.name)[k]? = some c.name := by simp [hk]
  have hlen : j < (s.columns.map Column.name).length :=
    (List.getElem?_eq_some_iff.mp (hname hcj)).1
  have hji : j = i := (List.getElem?_inj hlen s.distinct).mp ((hname hcj).trans (hname h).symm)
  rw [hj, hji]

theorem ofColumns_eq_ok {columns : List Column} {s : Schema} (h : ofColumns columns = .ok s) :
    s.columns = columns := by
  unfold ofColumns at h
  split at h
  · contradiction
  · cases h
    rfl

theorem conflict?_eq_none {s t : Schema} (h : s.conflict? t = none) {c d : Column}
    (hc : c ∈ s.columns) (hd : d ∈ t.columns) (hn : c.name = d.name) : c = d := by
  have hf := List.findSome?_eq_none_iff.mp h d hd
  rw [column?_eq_some_iff.mpr ⟨hc, hn⟩] at hf
  have ha : c.agrees d = true := by simpa using hf
  simp only [Column.agrees, Bool.and_eq_true, decide_eq_true_eq] at ha
  cases c
  cases d
  simp_all

theorem mem_columns_merge {s t u : Schema} (h : s.merge t = .ok u) (c : Column) :
    c ∈ u.columns ↔ c ∈ s.columns ∨ c ∈ t.columns := by
  unfold merge at h
  split at h
  · contradiction
  · rename_i hconf
    rw [ofColumns_eq_ok h, identifiersFirst]
    have hrest : c ∈ s.columns ++ t.columns.filter (fun d => !s.contains d.name) ↔
        c ∈ s.columns ∨ c ∈ t.columns := by
      simp only [List.mem_append, List.mem_filter]
      refine or_congr_right' fun hcs => and_iff_left_of_imp fun hct => ?_
      rw [Bool.not_eq_true', Bool.eq_false_iff, ne_eq, contains_iff]
      intro hn
      obtain ⟨d, hd, hdn⟩ := List.mem_map.mp hn
      exact hcs (conflict?_eq_none hconf hd hct hdn ▸ hd)
    rw [← hrest]
    cases hid : c.isIdentifier <;> simp [hid]

end Schema

namespace Row

theorem value?_isSome_iff {r : Row} {name : String} :
    (r.value? name).isSome ↔ name ∈ r.schema.names := by
  rw [← Schema.column?_isSome_iff, Schema.column?_eq_bind, value?]
  cases r.schema.position? name with
  | none => simp
  | some i => simp [r.arity, Schema.width]

/-- The row whose values are given column by column. -/
def byColumn (s : Schema) (f : Column → Value) : Row :=
  ⟨s, s.columns.map f, by simp [Schema.width]⟩

@[simp] theorem schema_byColumn (s : Schema) (f : Column → Value) : (byColumn s f).schema = s := rfl

theorem value?_byColumn (s : Schema) (f : Column → Value) (name : String) :
    (byColumn s f).value? name = (s.column? name).map f := by
  rw [Schema.column?_eq_bind, value?]
  cases h : s.position? name <;> simp [byColumn, h]

theorem value?_byColumn_of_mem {s : Schema} (f : Column → Value) {c : Column} (hc : c ∈ s.columns) :
    (byColumn s f).value? c.name = some (f c) := by
  rw [value?_byColumn, Schema.column?_eq_some_iff.mpr ⟨hc, rfl⟩]
  rfl

theorem value?_eq_getElem {r : Row} {i : Nat} {c : Column} (h : r.schema.columns[i]? = some c) :
    r.value? c.name = r.values[i]? := by
  rw [value?, Schema.position?_of_getElem h]
  rfl

theorem ext_values {p q : Row} (hs : p.schema = q.schema) (hv : p.values = q.values) : p = q := by
  cases p
  cases q
  simp_all

theorem byColumn_congr {s : Schema} {f g : Column → Value} (h : ∀ c ∈ s.columns, f c = g c) :
    byColumn s f = byColumn s g := ext_values rfl (List.map_congr_left h)

theorem byName_eq (r : Row) (target : Schema) :
    r.byName target = byColumn target fun c => (r.value? c.name).getD c.null := rfl

theorem byName_self (r : Row) : r.byName r.schema = r := by
  refine ext_values rfl (List.ext_getElem? fun i => ?_)
  simp only [byName, List.getElem?_map]
  cases hc : r.schema.columns[i]? with
  | none =>
    have hlen := List.getElem?_eq_none_iff.mp hc
    exact (List.getElem?_eq_none_iff.mpr (by rw [r.arity]; exact hlen)).symm
  | some c =>
    have hlen : i < r.values.length := by
      rw [r.arity]
      exact (List.getElem?_eq_some_iff.mp hc).1
    simp [value?_eq_getElem hc, List.getElem?_eq_getElem hlen]

theorem conforms_iff {r : Row} :
    r.conforms ↔ ∀ c ∈ r.schema.columns, ∀ v, r.value? c.name = some v → c.type = v.type := by
  simp only [conforms, List.all_eq_true, decide_eq_true_eq, Prod.forall]
  constructor
  · intro h c hc v hv
    obtain ⟨i, hi⟩ := List.mem_iff_getElem?.mp hc
    rw [value?_eq_getElem hi] at hv
    exact h c v (List.mem_iff_getElem?.mpr ⟨i, List.getElem?_zip_eq_some.mpr ⟨hi, hv⟩⟩)
  · intro h c v hcv
    obtain ⟨i, hi⟩ := List.mem_iff_getElem?.mp hcv
    obtain ⟨hc, hv⟩ := List.getElem?_zip_eq_some.mp hi
    exact h c (List.mem_of_getElem? hc) v ((value?_eq_getElem hc).trans hv)

theorem type_eq_of_value? {r : Row} {out : Schema} {c : Column} {v : Value} (hr : r.conforms)
    (hsub : ∀ d ∈ r.schema.columns, d ∈ out.columns) (hc : c ∈ out.columns)
    (hv : r.value? c.name = some v) : c.type = v.type := by
  have hmem : c.name ∈ r.schema.names := by
    rw [← value?_isSome_iff, hv]
    rfl
  obtain ⟨d, hd, hname⟩ := List.mem_map.mp hmem
  have hdc : d = c := List.inj_on_of_nodup_map out.distinct (hsub d hd) hc hname
  exact conforms_iff.mp hr c (hdc ▸ hd) v hv

theorem conforms_byColumn {s : Schema} {f : Column → Value}
    (h : ∀ c ∈ s.columns, (f c).type = c.type) : (byColumn s f).conforms := by
  refine conforms_iff.mpr fun c hc v hv => ?_
  rw [schema_byColumn] at hc
  rw [value?_byColumn_of_mem f hc] at hv
  cases hv
  exact (h c hc).symm

theorem bind_ok {s : Schema} {values : List Value} {r : Row} (h : bind s values = .ok r) :
    r.schema = s ∧ r.conforms := by
  unfold bind at h
  split at h
  · split at h
    · cases h
    · rename_i hnone
      cases h
      have hfits := List.find?_eq_none.mp hnone
      refine ⟨rfl, List.all_eq_true.mpr fun cv hcv => ?_⟩
      simpa using hfits cv hcv
  · cases h

end Row
end DatasetAlgebra
