import DatasetAlgebra.Aggregation.Basic
import DatasetAlgebra.Proofs.Aggregation.Runs
import DatasetAlgebra.Proofs.Dataset.Requests

/-!
How an aggregation is wired: what building one checks, how its groups are read from the rows of
its child, and what the row of a group has under the names of its schema.
-/
namespace DatasetAlgebra

namespace Aggregation

theorem columnsOf_ok {s : Schema} {names : List String} {columns : List Column}
    (h : columnsOf s names = .ok columns) :
    columns.map Column.name = names ∧ ∀ c ∈ columns, c ∈ s.columns := by
  induction names generalizing columns with
  | nil =>
    cases h
    simp
  | cons name rest ih =>
    rw [columnsOf] at h
    split at h
    · cases h
    · rename_i c hc
      obtain ⟨cs, hrest, rfl⟩ := map_eq_ok.mp h
      obtain ⟨hnames, hmem⟩ := ih hrest
      obtain ⟨hcs, hname⟩ := Schema.column?_eq_some_iff.mp hc
      exact ⟨by simp [hname, hnames], List.forall_mem_cons.mpr ⟨hcs, hmem⟩⟩

/-- What building an aggregation establishes. -/
structure Wired (a : Aggregation) : Prop where
  groups : ∀ c ∈ a.groupBy, c ∈ a.child.schema.columns
  measure : a.measure ∈ a.child.schema.columns
  numeric : a.reducer = .count ∨ a.measure.type.isNumeric
  output : a.schema.columns = outputColumns a.groupBy a.measure a.reducer

theorem Wired.withPolicy {a : Aggregation} (h : a.Wired) (policy : Policy) :
    (a.withPolicy policy).Wired := ⟨h.groups, h.measure, h.numeric, h.output⟩

theorem wired_of_of {child : Dataset} {names : List String} {measureName : String} {r : Reducer}
    {a : Aggregation} (h : of child names measureName r = .ok a) :
    a.Wired ∧ a.child = child ∧ a.groupNames = names ∧ a.measure.name = measureName ∧
      a.reducer = r := by
  obtain ⟨groupBy, hgroups, h⟩ := bind_eq_ok.mp h
  obtain ⟨hnames, hmem⟩ := columnsOf_ok hgroups
  split at h
  · cases h
  · rename_i measure hmeasure
    obtain ⟨hcolumn, hname⟩ := Schema.column?_eq_some_iff.mp hmeasure
    split at h
    · cases h
    · split at h
      · cases h
      · rename_i hnumeric
        obtain ⟨schema, hschema, h⟩ := bind_eq_ok.mp h
        cases h
        refine ⟨⟨hmem, hcolumn, ?_, Schema.ofColumns_eq_ok hschema⟩, rfl, hnames, hname, rfl⟩
        cases r <;> simp_all

variable {a : Aggregation} {required : SortOrder}

/-- An order goes by grouping columns. -/
def Orders (a : Aggregation) (o : SortOrder) : Prop :=
  (∀ k ∈ o.keys, k.column ∈ a.groupBy) ∧ ∀ c ∈ a.groupBy, c.name ∈ o.columns

theorem orders_of_compatible {order : SortOrder}
    (h : SortOrder.compatible? a.groupBy order = some required) : a.Orders required :=
  ⟨SortOrder.columns_mem_of_compatible h, fun _ hc => SortOrder.mem_columns_of_compatible h hc⟩

theorem Wired.key_mem (ha : a.Wired) (ho : a.Orders required) :
    ∀ k ∈ required.keys, k.column ∈ a.child.schema.columns :=
  fun k hk => ha.groups _ (ho.1 k hk)

/-- A grouping that reads the rows of the child. -/
structure Groups (a : Aggregation) (required : SortOrder) (g : Grouping) : Prop where
  reads : g.Reads a.child.schema
  order : g.order = required
  measure : g.measure.1 = a.measure.name
  measureType : g.measureType = a.measure.type
  reducer : g.reducer = a.reducer
  output : g.output = a.schema

theorem measureOf_ok {g : Grouping} {s : Schema} {c : Column} {i : Nat}
    (hg : g.measure = (c.name, i)) (hi : s.columns[i]? = some c) {r : Row} (hr : r.schema = s) :
    g.measureOf r = .ok (g.measured r) := by
  subst hr
  have hlen : i < r.values.length := by
    rw [r.arity]
    exact (List.getElem?_eq_some_iff.mp hi).1
  have hv : r.value? c.name = r.values[i]? := Row.value?_eq_getElem hi
  rw [List.getElem?_eq_getElem hlen] at hv
  simp [Grouping.measureOf, Grouping.measured, hg, hi, List.getElem?_eq_getElem hlen, hv]

theorem Wired.grouping_ok (ha : a.Wired) (ho : a.Orders required) :
    ∃ g, a.grouping required a.child.schema = .ok g ∧ a.Groups required g := by
  obtain ⟨i, hi, hci⟩ := Schema.getElem?_position
    (Schema.column?_eq_some_iff.mpr ⟨ha.measure, rfl⟩)
  obtain ⟨k, hk, hreads⟩ := KeyReader.byName_ok (names_of_keys (ha.key_mem ho))
  have hlocate : KeyReader.locate a.child.schema a.measure.name = .ok (a.measure.name, i) := by
    simp [KeyReader.locate, hi]
  refine ⟨⟨k, required, (a.measure.name, i), a.measure.type, a.reducer, a.schema⟩, ?_,
    ⟨⟨hreads, fun r hr => measureOf_ok rfl hci hr⟩, rfl, rfl, rfl, rfl, rfl⟩⟩
  simp [grouping, hlocate, hk, bind, Except.bind]

theorem read_eq_ok {order : SortOrder} {f : Filter} {columns : List String} {s : RowStream} :
    (a.read order f columns).outcome = .ok s ↔
      ∃ required, SortOrder.compatible? a.groupBy order = some required ∧
        f.refersOnlyTo a.groupNames ∧ ∃ childOrder, required.onto a.child.schema = .ok childOrder ∧
          ∃ input, (a.child.request childOrder f (a.childColumns columns) a.policy).outcome =
            .ok input ∧ (a.group order required f input).outcome = .ok s := by
  unfold read requiredOrder
  cases hc : SortOrder.compatible? a.groupBy order with
  | none => simp [Recorded.fail]
  | some required =>
    by_cases hf : f.refersOnlyTo a.groupNames
    · cases ho : required.onto a.child.schema with
      | error e => simp [hf, ho, Recorded.fail]
      | ok childOrder => simp [hf, ho, Recorded.andThen_eq_ok]
    · simp [hf, Recorded.fail]

/-- The stream of an aggregation that was read. -/
def stream (a : Aggregation) (order required : SortOrder) (f : Filter) (g : Grouping)
    (input : RowStream) : RowStream :=
  (((RowStream.ofRows a.schema fun _ => g.rows (input.rows ())).wanted order f).applied required
    f).onClose (ReleaseStack.empty.register "aggregation input" input).release

theorem group_eq_ok {order : SortOrder} {f : Filter} {input s : RowStream} :
    (a.group order required f input).outcome = .ok s ↔
      ∃ g, a.grouping required input.schema = .ok g ∧ s = a.stream order required f g input := by
  unfold group
  simp [Recorded.andThen_eq_ok, ReleaseStack.guarding_eq_ok, Recorded.ok, stream, @eq_comm _ s]

theorem Wired.read_stream (ha : a.Wired) {order : SortOrder} {f : Filter} {columns : List String}
    {g : Grouping} {input : RowStream}
    (hr : SortOrder.compatible? a.groupBy order = some required) (hf : f.refersOnlyTo a.groupNames)
    (hgrouping : a.grouping required a.child.schema = .ok g)
    (hinput : (a.child.request required f (a.childColumns columns) a.policy).outcome = .ok input)
    (hlaid : input.schema = a.child.schema) :
    (a.read order f columns).outcome = .ok (a.stream order required f g input) := by
  have honto : required.onto a.child.schema = .ok required :=
    SortOrder.onto_self (ha.key_mem (orders_of_compatible hr))
  rw [← hlaid] at hgrouping
  exact read_eq_ok.mpr ⟨required, hr, hf, required, honto, input, hinput,
    group_eq_ok.mpr ⟨g, hgrouping, rfl⟩⟩

/-- The column of the result that holds what the measure is reduced to. -/
def resultColumn (a : Aggregation) : Column :=
  ⟨a.measure.name, .measure, a.reducer.resultType a.measure.type⟩

theorem Wired.columns_eq (ha : a.Wired) : a.schema.columns =
    a.groupBy.map (fun c => { c with role := .identifier }) ++ [a.resultColumn] := ha.output

theorem Wired.name_ne (ha : a.Wired) {c : Column} (hc : c ∈ a.groupBy) :
    c.name ≠ a.measure.name := by
  have hd := a.schema.distinct
  rw [ha.columns_eq, List.map_append, List.nodup_append] at hd
  exact hd.2.2 _ (by simpa using ⟨c, hc, rfl⟩) _ (by simp [resultColumn])

theorem Wired.rowOf_eq (ha : a.Wired) {g : Grouping} (hg : a.Groups required g)
    (key : List Value) (sofar : Accumulator) :
    g.rowOf key sofar = .byColumn a.schema fun c =>
      if c.name = a.measure.name then sofar.result else g.keyValue key c := by
  refine Row.ext_values hg.output ?_
  simp only [Grouping.rowOf, Grouping.row, Grouping.rowValues, hg.output, Row.byColumn,
    ha.columns_eq, Schema.width, List.map_append, List.map_map]
  have hgroups : a.groupBy.map ((g.keyValue key) ∘ fun c => { c with role := .identifier }) =
      a.groupBy.map ((fun c => if c.name = a.measure.name then sofar.result
        else g.keyValue key c) ∘ fun c => { c with role := .identifier }) :=
    List.map_congr_left fun c hc => by simp [ha.name_ne hc]
  rw [← hgroups]
  simp [resultColumn]

variable {g : Grouping} {r : Row}

theorem keyValue_keyOf {c : Column} (hc : c.name ∈ g.order.columns) :
    g.keyValue (g.order.keyOf r) c = (r.value? c.name).getD default := by
  have hfind : g.order.columns.find? (fun name => name = c.name) = some c.name := by
    cases h : g.order.columns.find? (fun name => name = c.name) with
    | none => simpa using List.find?_eq_none.mp h c.name hc
    | some name =>
      have hname : name = c.name := by simpa using List.find?_some h
      rw [hname]
  rw [List.find?_eq_bind_findIdx?_getElem?] at hfind
  obtain ⟨i, hi, hci⟩ := Option.bind_eq_some_iff.mp hfind
  simp [Grouping.keyValue, hi, SortOrder.keyOf, hci]

theorem Wired.value?_group (ha : a.Wired) (ho : a.Orders required) (hg : a.Groups required g)
    (hr : r.schema = a.child.schema) (sofar : Accumulator) {n : String} (hn : n ∈ a.groupNames) :
    (g.rowOf (required.keyOf r) sofar).value? n = r.value? n := by
  obtain ⟨c, hc, rfl⟩ := List.mem_map.mp hn
  have hmem : { c with role := .identifier } ∈ a.schema.columns := by
    rw [ha.columns_eq]
    exact List.mem_append_left _ (List.mem_map_of_mem hc)
  have hcolumn : c.name ∈ g.order.columns := by
    rw [hg.order]
    exact ho.2 c hc
  have hsome : (r.value? c.name).isSome := by
    rw [Row.value?_isSome_iff, hr]
    exact List.mem_map_of_mem (ha.groups c hc)
  obtain ⟨v, hv⟩ := Option.isSome_iff_exists.mp hsome
  rw [ha.rowOf_eq hg, Row.value?_byColumn_of_mem _ hmem, if_neg (ha.name_ne hc), ← hg.order,
    hv]
  exact congrArg some ((keyValue_keyOf hcolumn).trans (by rw [hv]; rfl))

theorem Wired.value?_measure (ha : a.Wired) (hg : a.Groups required g) (key : List Value)
    (sofar : Accumulator) : (g.rowOf key sofar).value? a.measure.name = some sofar.result := by
  have hmem : a.resultColumn ∈ a.schema.columns := by simp [ha.columns_eq]
  have hname : a.resultColumn.name = a.measure.name := rfl
  rw [ha.rowOf_eq hg, ← hname, Row.value?_byColumn_of_mem _ hmem, if_pos rfl]

/-- The measure of a row, by name. -/
def measureOf (a : Aggregation) (r : Row) : Value := (r.value? a.measure.name).getD default

theorem Groups.measured_eq (hg : a.Groups required g) : g.measured = a.measureOf := by
  funext r
  rw [Grouping.measured, hg.measure, measureOf]

theorem Wired.type_measureOf (ha : a.Wired) (hr : r.schema = a.child.schema) (hc : r.conforms) :
    (a.measureOf r).type = a.measure.type := by
  have hmem : a.measure ∈ r.schema.columns := hr ▸ ha.measure
  have hsome : (r.value? a.measure.name).isSome :=
    Row.value?_isSome_iff.mpr (List.mem_map_of_mem hmem)
  obtain ⟨v, hv⟩ := Option.isSome_iff_exists.mp hsome
  rw [measureOf, hv]
  exact (Row.conforms_iff.mp hc a.measure hmem v hv).symm

/-- The row of a group that a row opens. -/
structure Heads (a : Aggregation) (required : SortOrder) (r x : Row) : Prop where
  bound : x.schema = a.schema
  conforms : x.conforms
  groups : ∀ n ∈ a.groupNames, x.value? n = r.value? n
  key : required.keyOf x = required.keyOf r

theorem Wired.heads (ha : a.Wired) (ho : a.Orders required) (hg : a.Groups required g)
    (hr : r.schema = a.child.schema) (hc : r.conforms) {x : Row} (h : g.Opens r x) :
    a.Heads required r x := by
  obtain ⟨sofar, hreducer, htype, rfl⟩ := h
  rw [hg.order]
  have hgroups : ∀ n ∈ a.groupNames, (g.rowOf (required.keyOf r) sofar).value? n = r.value? n :=
    fun n hn => ha.value?_group ho hg hr sofar hn
  refine ⟨hg.output, Row.conforms_iff.mpr fun c hmem v hv => ?_, hgroups, ?_⟩
  · have hout : (g.rowOf (required.keyOf r) sofar).schema = a.schema := hg.output
    rw [hout, ha.columns_eq, List.mem_append, List.mem_singleton, List.mem_map] at hmem
    rcases hmem with ⟨d, hd, rfl⟩ | rfl
    · rw [hgroups _ (List.mem_map_of_mem hd)] at hv
      exact Row.conforms_iff.mp hc d (hr ▸ ha.groups d hd) v hv
    · have hvalue := hv.symm.trans (ha.value?_measure hg _ sofar)
      cases hvalue
      rw [Accumulator.type_result, hreducer, htype, hg.reducer, hg.measureType]
      rfl
  · refine List.map_congr_left fun n hn => ?_
    obtain ⟨k, hk, rfl⟩ := List.mem_map.mp hn
    rw [hgroups _ (List.mem_map_of_mem (ho.1 k hk))]

end Aggregation

end DatasetAlgebra
