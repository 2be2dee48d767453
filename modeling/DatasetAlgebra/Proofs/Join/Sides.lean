import DatasetAlgebra.Join.MergeJoin
import DatasetAlgebra.Proofs.Schema.Columns
import DatasetAlgebra.Proofs.SortOrder.Keys
import DatasetAlgebra.Proofs.Stream.Sequences

/-!
The two sides of a join: reading keys from rows laid out as their side declares, and merging such
rows by name.
-/
namespace DatasetAlgebra

namespace KeyReader

/-- Rows of a schema have their keys read as the order asks. -/
def Reads (k : KeyReader) (s : Schema) (o : SortOrder) : Prop :=
  ∀ r : Row, r.schema = s → k.read r = .ok (o.keyOf r)

theorem locate_ok {s : Schema} {name : String} (h : name ∈ s.names) :
    ∃ i, locate s name = .ok (name, i) ∧
      ∀ r : Row, r.schema = s → component r name i = .ok ((r.value? name).getD default) := by
  obtain ⟨c, hc⟩ := Option.isSome_iff_exists.mp (Schema.column?_isSome_iff.mpr h)
  obtain ⟨i, hi, hci⟩ := Schema.getElem?_position hc
  refine ⟨i, by simp [locate, hi], ?_⟩
  rintro r rfl
  have hn : c.name = name := (Schema.column?_eq_some_iff.mp hc).2
  have hlen : i < r.values.length := by
    rw [r.arity]
    exact (List.getElem?_eq_some_iff.mp hci).1
  have hv : r.value? name = r.values[i]? := hn ▸ Row.value?_eq_getElem hci
  simp [component, hci, hn, hv, List.getElem?_eq_getElem hlen]

theorem locateAll_ok {s : Schema} {resolve : String → Except Error String} {names : List String}
    (hs : ∀ n ∈ names, n ∈ s.names) (hr : ∀ n ∈ names, resolve n = .ok n) :
    ∃ columns, locateAll s resolve names = .ok columns ∧ ∀ r : Row, r.schema = s →
      components r columns = .ok (names.map fun n => (r.value? n).getD default) := by
  induction names with
  | nil => exact ⟨[], rfl, fun _ _ => rfl⟩
  | cons name names ih =>
    simp only [List.forall_mem_cons] at hs hr
    obtain ⟨i, hi, hread⟩ := locate_ok hs.1
    obtain ⟨columns, hcols, hreads⟩ := ih hs.2 hr.2
    refine ⟨(name, i) :: columns, ?_, fun r hrs => ?_⟩
    · simp [locateAll, hr.1, hi, hcols, bind, Except.bind]
    · simp [components, hread r hrs, hreads r hrs, bind, Except.bind]

theorem resolving_ok {s : Schema} {o : SortOrder} {resolve : String → Except Error String}
    (hs : ∀ n ∈ o.columns, n ∈ s.names) (hr : ∀ n ∈ o.columns, resolve n = .ok n) :
    ∃ k, resolving s o resolve = .ok k ∧ k.Reads s o := by
  obtain ⟨columns, hcols, hread⟩ := locateAll_ok hs hr
  exact ⟨⟨columns⟩, by simp [resolving, hcols, Except.map], hread⟩

theorem byName_ok {s : Schema} {o : SortOrder} (hs : ∀ n ∈ o.columns, n ∈ s.names) :
    ∃ k, byName s o = .ok k ∧ k.Reads s o :=
  resolving_ok hs fun _ _ => rfl

/-- A row with its key under an order. -/
def keyed (o : SortOrder) (r : Row) : KeyedRow := ⟨o.keyOf r, r⟩

theorem Reads.feed {k : KeyReader} {s : Schema} {o : SortOrder} (hk : k.Reads s o) {rows : Rows}
    (h : ∀ r ∈ rows.flow, r.schema = s) :
    (k.feed rows).items = rows.collect.rows.map (keyed o) ∧
      (k.feed rows).failure = rows.collect.failure := by
  induction rows with
  | ended e => exact ⟨rfl, rfl⟩
  | poll p rest ih =>
    obtain ⟨es, item⟩ := p
    match item with
    | none => exact ⟨rfl, rfl⟩
    | some (.error e) => exact ⟨rfl, rfl⟩
    | some (.ok r) =>
      simp only [Rows.flow_poll_ok, List.forall_mem_cons] at h
      obtain ⟨hitems, hfail⟩ := ih () h.2
      simp [KeyReader.feed, Rows.collect, hk r h.1, hitems, hfail, Feed.failure, keyed]

end KeyReader

namespace RowMerger

theorem covering_ok {s out : Schema} (h : ∀ c ∈ s.columns, c ∈ out.columns) :
    covering s out = .ok () := by
  have hm : missing? s out = none := by
    simp only [missing?, List.find?_eq_none, Bool.not_eq_true', Bool.not_eq_false]
    intro c hc
    simpa using Schema.contains_iff.mpr (List.mem_map_of_mem (h c hc))
  simp [covering, hm]

theorem pair_ok {left right out : Schema} (hl : ∀ c ∈ left.columns, c ∈ out.columns)
    (hr : ∀ c ∈ right.columns, c ∈ out.columns) :
    pair left right out = .ok ⟨left, some right, out⟩ := by
  simp [pair, covering_ok hl, covering_ok hr, bind, Except.bind]

theorem single_ok {source out : Schema} (h : ∀ c ∈ source.columns, c ∈ out.columns) :
    single source out = .ok ⟨source, none, out⟩ := by
  simp [single, covering_ok h, bind, Except.bind]

theorem merge_eq (m : RowMerger) (left right : Option Row) :
    m.merge left right = Row.byColumn m.output (m.value left right) := rfl

theorem value?_merge (m : RowMerger) (left right : Option Row) (name : String) :
    (m.merge left right).value? name = (m.output.column? name).map (m.value left right) :=
  Row.value?_byColumn m.output (m.value left right) name

theorem sideValue?_self (r : Row) (name : String) :
    sideValue? (some r.schema) (some r) name = r.value? name := rfl

variable {m : RowMerger} {o : SortOrder}

/-- A merged row has the values of its right row wherever that has one. -/
theorem value?_merge_right {left : Option Row} {right : Row} {name : String}
    (hm : m.right = some right.schema) (hout : name ∈ m.output.names)
    (h : (right.value? name).isSome) :
    (m.merge left (some right)).value? name = right.value? name := by
  obtain ⟨c, hc⟩ := Option.isSome_iff_exists.mp (Schema.column?_isSome_iff.mpr hout)
  obtain ⟨v, hv⟩ := Option.isSome_iff_exists.mp h
  have hn : c.name = name := (Schema.column?_eq_some_iff.mp hc).2
  rw [value?_merge, hc, Option.map_some, value, hm, sideValue?_self, hn, hv]
  rfl

theorem value?_merge_left {left : Row} {name : String}
    (hm : m.left = left.schema) (hout : name ∈ m.output.names)
    (h : (left.value? name).isSome) :
    (m.merge (some left) none).value? name = left.value? name := by
  obtain ⟨c, hc⟩ := Option.isSome_iff_exists.mp (Schema.column?_isSome_iff.mpr hout)
  obtain ⟨v, hv⟩ := Option.isSome_iff_exists.mp h
  have hn : c.name = name := (Schema.column?_eq_some_iff.mp hc).2
  rw [value?_merge, hc, Option.map_some, value, hm, sideValue?_self, hn, hv]
  cases m.right <;> rfl

theorem keyOf_merge_right {left : Option Row} {right : Row} (hm : m.right = some right.schema)
    (hout : ∀ n ∈ o.columns, n ∈ m.output.names) (h : o.Covers right) :
    o.keyOf (m.merge left (some right)) = o.keyOf right :=
  List.map_congr_left fun n hn => by rw [value?_merge_right hm (hout n hn) (h n hn)]

theorem keyOf_merge_left {left : Row} (hm : m.left = left.schema)
    (hout : ∀ n ∈ o.columns, n ∈ m.output.names) (h : o.Covers left) :
    o.keyOf (m.merge (some left) none) = o.keyOf left :=
  List.map_congr_left fun n hn => by rw [value?_merge_left hm (hout n hn) (h n hn)]

end RowMerger
end DatasetAlgebra
