import DatasetAlgebra.Proofs.Dataset.Tables
import DatasetAlgebra.Proofs.Filter.Mentions
import DatasetAlgebra.Proofs.Join.Folding
import DatasetAlgebra.Proofs.Join.Product
import DatasetAlgebra.Proofs.Stream.Releases
import Mathlib.Data.List.Forall2

/-!
Joins of any number of tables. Each step of the fold over the tables keeps the rows so far sorted,
and of every key those that the tables so far contribute to.
-/
namespace DatasetAlgebra

namespace Join

/-- The rows so far are the join of some tables: none has failed, they are sorted, and of each key
they are the joined rows of that key. -/
structure Joined.Holds (sofar : Joined) (j : Join) (q : Request) (tables : List Table) : Prop where
  ready : sofar.Ready j q
  failure : (sofar.rows ()).collect.failure = none
  sorted : q.order.Sorted (sofar.rows ()).collect.rows
  rows : ∀ key, (q.order.rowsOf key (sofar.rows ()).collect.rows).map (·.byName j.schema) =
    rowsAt j.kind j.schema (tables.map fun t => q.order.rowsOf key t.rows)
  held : ∀ r ∈ sofar.held.held, r.2.failure = none

variable {j : Join} {q : Request}

/-- A dataset is opened for a request, and gives those rows of a table that pass. -/
def Supplies (j : Join) (q : Request) (d : Dataset) (t : Table) : Prop :=
  d.schema = t.schema ∧
    ∃ s, (j.openSource q d).outcome = .ok s ∧ (t.keep q.filter).Gives q.order s

theorem Wired.openSource_eq (hj : j.Wired) (hq : q.Within j) {d : String × Dataset}
    (hd : d ∈ j.datasets) : j.openSource q d.2 = d.2.request q.order q.filter
      (q.columns.filter d.2.schema.contains) j.policy := by
  have honto : q.order.onto d.2.schema = .ok q.order :=
    SortOrder.onto_self fun k hk => hj.shared _ hd _ (hq k hk)
  rw [openSource, honto]

theorem Wired.openSource_ok (hj : j.Wired) (hq : q.Within j) {name : String} {t : Table}
    (hd : (name, t.toDataset) ∈ j.datasets) (hc : t.ClosesWell)
    (hrows : q.filter.Decides t.rows) (hf : q.filter.isAll ∨ j.policy.filters)
    (hs : q.order.isAny ∨ (t.keep q.filter).Sortable j.policy) : j.Supplies q t.toDataset t := by
  obtain ⟨s, hopen, hgives, -⟩ := Table.request_ok _ hc hrows hf hs (hj.mem_names hq hd)
  exact ⟨rfl, s, by rw [hj.openSource_eq hq hd]; exact hopen, hgives⟩

theorem Wired.start_holds (hj : j.Wired) (hq : q.Within j) {s : RowStream} {t : Table}
    (hfirst : j.first.2.schema = t.schema) (h : t.Gives q.order s) :
    (j.start q s).Holds j q [t] := by
  have harr := h.arranges (hfirst ▸ hj.mem_names hq List.mem_cons_self)
  refine ⟨hj.ready_start hq fun r hr => ?_, h.rows.failure, harr.sorted, fun key => ?_, ?_⟩
  · rw [hfirst]
    exact h.bound r hr
  · show (q.order.rowsOf key (s.rows ()).collect.rows).map (·.byName j.schema) = _
    rw [harr.stable key, rowsAt, List.map_singleton, JoinKind.contributors_singleton, List.map_map]
    exact List.map_congr_left fun r _ => (combined_singleton j.schema r).symm
  · exact ReleaseStack.closes_register ReleaseStack.held_empty h.closes

theorem Wired.step_holds (hj : j.Wired) (hq : q.Within j) {d : String × Dataset}
    (hd : d ∈ j.datasets) {t : Table} (ht : d.2.schema = t.schema) {sofar : Joined}
    {seen : List Table} (hne : seen ≠ []) (h : sofar.Holds j q seen) {s : RowStream}
    (hs : t.Gives q.order s) :
    ∃ rows, j.mergeWith q sofar d.1 d.2.schema s.rows = .ok rows ∧
      Joined.Holds ⟨j.schema, KeyReader.byName j.schema q.order, rows,
        sofar.held.register d.1 s⟩ j q (seen ++ [t]) := by
  have harr := hs.arranges (ht ▸ hj.mem_names hq hd)
  let given := (s.rows ()).collect.rows
  have hflow : ∀ r ∈ (s.rows ()).flow, r.schema = d.2.schema := ht ▸ hs.bound
  have hbound : ∀ r ∈ given, r.schema = d.2.schema :=
    fun r hr => hflow r ((s.rows ()).collect_rows_prefix_flow.subset hr)
  obtain ⟨rows, hmerge, hprefix, hwhole⟩ := hj.mergeWith_ok hq hd h.ready hflow
  obtain ⟨hrows, hnone⟩ := hwhole h.failure hs.rows.failure
  have hspans := hj.spans hq hd h.ready
  have hleft : ∀ r ∈ (sofar.rows ()).collect.rows, r.schema = sofar.schema :=
    fun r hr => h.ready.bound r ((sofar.rows ()).collect_rows_prefix_flow.subset hr)
  refine ⟨rows, hmerge, hj.ready_step hq _ hprefix, hnone, ?_, fun key => ?_, ?_⟩
  · rw [hrows]
    exact MergeJoin.sorted_joined hspans hleft hbound h.sorted harr.sorted
  · have hclass : q.order.rowsOf key (rows ()).collect.rows =
        (j.stepJoin q sofar d.2.schema).matching.block
          (q.order.rowsOf key (sofar.rows ()).collect.rows) (q.order.rowsOf key given) := by
      rw [hrows]
      exact MergeJoin.rowsOf_joined hspans hleft hbound h.sorted harr.sorted key
    have hblock : (j.stepJoin q sofar d.2.schema).matching.block
        (q.order.rowsOf key (sofar.rows ()).collect.rows) (q.order.rowsOf key given) =
          (j.kind.extend (j.kind.contributors (seen.map fun t => q.order.rowsOf key t.rows))
            (q.order.rowsOf key given)).map (combined j.schema) :=
      MergeJoin.block_eq rfl (fun r hr => hleft r (List.mem_of_mem_filter hr))
        (fun r hr => hbound r (List.mem_of_mem_filter hr)) (h.rows key)
    have hgroups : (seen.map fun t => q.order.rowsOf key t.rows) ≠ [] := by simpa using hne
    rw [hclass, hblock, List.map_map, rowsAt, List.map_append, List.map_singleton,
      JoinKind.contributors_append hgroups, ← harr.stable key]
    exact List.map_congr_left fun as _ => byName_combined j.schema as
  · exact ReleaseStack.closes_register h.held hs.closes

theorem Wired.mergeAll_holds (hj : j.Wired) (hq : q.Within j) {sofar : Joined}
    {seen tables : List Table} {rest : List (String × Dataset)} (hne : seen ≠ [])
    (h : sofar.Holds j q seen) (hd : ∀ d ∈ rest, d ∈ j.datasets)
    (hs : List.Forall₂ (fun d t => j.Supplies q d.2 t) rest tables) :
    ∃ joined, (j.mergeAll q sofar rest).outcome = .ok joined ∧
      joined.Holds j q (seen ++ tables.map (·.keep q.filter)) ∧
        (rest ≠ [] → joined.schema = j.schema) := by
  induction hs generalizing sofar seen with
  | nil => exact ⟨sofar, rfl, by simpa using h, by simp⟩
  | @cons d t rest tables hsupplies hrest ih =>
    rw [List.forall_mem_cons] at hd
    obtain ⟨hschema, s, hopen, hgives⟩ := hsupplies
    obtain ⟨rows, hmerge, hnext⟩ :=
      hj.step_holds hq hd.1 (t := t.keep q.filter) hschema hne h hgives
    obtain ⟨joined, hall, hjoined, hlaid⟩ := ih (by simp) hnext hd.2
    refine ⟨joined, mergeAll_cons_eq_ok.mpr ⟨s, hopen, rows, hmerge, hall⟩, ?_, fun _ => ?_⟩
    · simpa using hjoined
    · cases hrest with
      | nil =>
        cases hall
        rfl
      | cons _ _ => exact hlaid (by simp)

/-- All tables are joined. -/
structure Joined.Complete (joined : Joined) (j : Join) (q : Request) (tables : List Table) :
    Prop where
  failure : (joined.rows ()).collect.failure = none
  sorted : q.order.Sorted (joined.rows ()).collect.rows
  rows : ∀ key, q.order.rowsOf key (joined.rows ()).collect.rows =
    rowsAt j.kind j.schema (tables.map fun t => q.order.rowsOf key t.rows)
  held : ∀ r ∈ joined.held.held, r.2.failure = none

theorem Joined.Holds.complete {joined : Joined} {tables : List Table}
    (h : joined.Holds j q tables) (hs : joined.schema = j.schema) :
    joined.Complete j q tables where
  failure := h.failure
  sorted := h.sorted
  held := h.held
  rows key := by
    rw [← h.rows key]
    refine ((List.map_congr_left fun r hr => ?_).trans (List.map_id _)).symm
    have hmem : r ∈ (joined.rows ()).flow :=
      (joined.rows ()).collect_rows_prefix_flow.subset (List.mem_of_mem_filter hr)
    rw [← hs, ← h.ready.bound r hmem]
    exact Row.byName_self r

theorem Wired.carry_complete (hj : j.Wired) (hq : q.Within j) {s : RowStream} {t : Table}
    (h : (j.start q s).Holds j q [t]) :
    ∃ joined, j.carry (j.start q s) = .ok joined ∧ joined.Complete j q [t] := by
  let carried (r : Row) : Row := j.carrier.merge (some r) none
  obtain ⟨hrows, hfailure⟩ := (s.rows ()).collect_map carried
  have hbound : ∀ r ∈ (s.rows ()).collect.rows, r.schema = j.first.2.schema :=
    fun r hr => h.ready.bound r ((s.rows ()).collect_rows_prefix_flow.subset hr)
  have hkey : ∀ r ∈ (s.rows ()).collect.rows, q.order.keyOf (carried r) = q.order.keyOf r :=
    fun r hr => RowMerger.keyOf_merge_left (hbound r hr).symm (hj.mem_schema_names hq)
      (covers_of_schema (hbound r hr) (hj.mem_names hq List.mem_cons_self))
  refine ⟨_, hj.carry_ok s, hfailure.trans h.failure, ?_, fun key => ?_, h.held⟩
  · show q.order.Sorted ((s.rows ()).map carried).collect.rows
    rw [hrows]
    refine List.pairwise_map.mpr (h.sorted.imp_of_mem fun ha hb hab => ?_)
    rwa [hkey _ ha, hkey _ hb]
  · show q.order.rowsOf key ((s.rows ()).map carried).collect.rows = _
    rw [hrows, ← h.rows key]
    have hclass : q.order.rowsOf key ((s.rows ()).collect.rows.map carried) =
        (q.order.rowsOf key (s.rows ()).collect.rows).map carried := by
      rw [SortOrder.rowsOf, classOf, List.filter_map]
      exact congrArg (List.map carried)
        (List.filter_congr fun r hr => by simp only [Function.comp_apply, hkey r hr])
    rw [hclass]
    refine List.map_congr_left fun r hr => ?_
    have hr' := hbound r (List.mem_of_mem_filter hr)
    simp only [carried, carrier, RowMerger.merge_eq, Row.byName_eq, ← hr']
    rfl

theorem Wired.openAll_supplied (hj : j.Wired) (hq : q.Within j) {tables : List Table}
    (hs : List.Forall₂ (fun d t => j.Supplies q d.2 t) j.datasets tables) :
    ∃ joined, (j.openAll q).outcome = .ok joined ∧
      joined.Complete j q (tables.map (·.keep q.filter)) := by
  obtain ⟨t, others, ⟨hfirst, s, hopen, hgives⟩, hrest, rfl⟩ :=
    List.forall₂_cons_left_iff.mp hs
  have hstart := hj.start_holds hq (t := t.keep q.filter) hfirst hgives
  by_cases hnil : j.rest = []
  · rw [hnil, List.forall₂_nil_left_iff] at hrest
    obtain ⟨joined, hcarry, hcomplete⟩ := hj.carry_complete hq hstart
    refine ⟨joined, openAll_eq_ok.mpr ⟨s, hopen, ?_⟩, hrest ▸ hcomplete⟩
    rw [if_pos (List.isEmpty_iff.mpr hnil)]
    exact hcarry
  · obtain ⟨joined, hall, hjoined, hschema⟩ :=
      hj.mergeAll_holds hq (by simp) hstart (fun d hd => List.mem_cons_of_mem _ hd) hrest
    refine ⟨joined, openAll_eq_ok.mpr ⟨s, hopen, ?_⟩, hjoined.complete (hschema hnil)⟩
    rw [if_neg (by simpa using hnil)]
    exact hall

/-- Tables as the named datasets of a join. -/
def named (tables : List (String × Table)) : List (String × Dataset) :=
  tables.map fun t => (t.1, t.2.toDataset)

/-- Those rows of named tables that pass a filter. -/
def kept (f : Filter) (tables : List (String × Table)) : List Table :=
  tables.map fun t => t.2.keep f

theorem kept_eq (f : Filter) (tables : List (String × Table)) :
    kept f tables = (tables.map Prod.snd).map (·.keep f) := by
  rw [List.map_map]
  rfl

theorem Wired.openAll_kept (hj : j.Wired) (hq : q.Within j) {tables : List (String × Table)}
    (hd : j.datasets = named tables) (hs : ∀ t ∈ tables, j.Supplies q t.2.toDataset t.2) :
    ∃ joined, (j.openAll q).outcome = .ok joined ∧
      joined.Complete j q (kept q.filter tables) := by
  have hsupplied : List.Forall₂ (fun d t => j.Supplies q d.2 t) j.datasets
      (tables.map Prod.snd) := by
    rw [hd, named, List.forall₂_map_left_iff, List.forall₂_map_right_iff, List.forall₂_same]
    exact hs
  rw [kept_eq]
  exact hj.openAll_supplied hq hsupplied

theorem kept_all (tables : List (String × Table)) : kept .all tables = tables.map Prod.snd := by
  simp [kept]

theorem mem_datasets_of_mem {tables : List (String × Table)} (hd : j.datasets = named tables)
    {t : String × Table} (ht : t ∈ tables) : (t.1, t.2.toDataset) ∈ j.datasets := by
  rw [hd]
  exact List.mem_map_of_mem ht

/-- Opening all tables of a join that can be sorted joins all their rows. -/
theorem Wired.openAll_complete (hj : j.Wired) (hq : q.Within j) (hf : q.filter = .all)
    {tables : List (String × Table)} (hd : j.datasets = named tables)
    (hs : ∀ t ∈ tables, t.2.Sortable j.policy) (hc : ∀ t ∈ tables, t.2.ClosesWell) :
    ∃ joined, (j.openAll q).outcome = .ok joined ∧
      joined.Complete j q (tables.map Prod.snd) := by
  rw [← kept_all, ← hf]
  refine hj.openAll_kept hq hd fun t ht => ?_
  have hmem := mem_datasets_of_mem hd ht
  refine hj.openSource_ok hq hmem (hc t ht) ?_ (.inl ?_) (.inr ((hs t ht).keep _))
  · rw [hf]
    exact Filter.decides_all t.2.rows
  · rw [hf]
    rfl

/-- A join of tables reads, in any compatible order, strictly ascending keys, those that its kind
emits rows for, and for each of them the rows that its groups contribute to. -/
theorem read_tables {kind : JoinKind} {tables : List (String × Table)} {names : List String}
    {j : Join} {policy : Policy} {order required : SortOrder} (columns : List String)
    (hj : Join.on kind (named tables) names = .ok j)
    (hs : ∀ t ∈ tables, t.2.Sortable policy) (hc : ∀ t ∈ tables, t.2.ClosesWell)
    (hr : SortOrder.compatible? j.identifiers order = some required) :
    ∃ s, ((j.withPolicy policy).read order .all columns).outcome = .ok s ∧
      ∃ keys, required.Enumerates keys
          (fun key => kind.emits (tables.map fun t => required.group key t.2.rows)) ∧
        s.drain.2.1 = (keys.flatMap fun key =>
          rowsAt kind j.schema (tables.map fun t => required.group key t.2.rows)).map .ok := by
  obtain ⟨hwired, rfl, hdatasets, -⟩ := wired_of_on hj
  let q : Request := ⟨required, .all, columns⟩
  have hwired' : (j.withPolicy policy).Wired := hwired.withPolicy policy
  have hq : q.Within (j.withPolicy policy) := SortOrder.columns_mem_of_compatible hr
  obtain ⟨joined, hopen, hcomplete⟩ := hwired'.openAll_complete hq rfl hdatasets hs hc
  let rows := (joined.rows ()).collect.rows
  have hkeys := SortOrder.enumerates_keysOf hcomplete.sorted
  have hat {key : List Value} (hkey : required.Fits key) : required.rowsOf key rows =
      rowsAt j.kind j.schema (tables.map fun t => required.group key t.2.rows) := by
    rw [hcomplete.rows key, List.map_map]
    simp only [Function.comp_def, SortOrder.group_eq_rowsOf hkey]
    rfl
  have hall : Filter.all.refersOnlyTo j.identifierNames := by
    simp [Filter.refersOnlyTo_iff, Filter.mentions]
  refine ⟨_, read_eq_ok.mpr ⟨required, hr, hall, joined, hopen, rfl⟩, required.keysOf rows,
    hkeys.congr fun key hkey => ?_, ?_⟩
  · rw [SortOrder.group_eq_rowsOf hkey, hat hkey, rowsAt, Ne, List.map_eq_nil_iff,
      JoinKind.contributors_eq_nil]
    simp
  · have hdrain : ((j.withPolicy policy).stream order required .all joined).drain.2.1 =
        rows.map .ok :=
      RowStream.drain_eq rfl hcomplete.failure (ReleaseStack.failure_release hcomplete.held)
    rw [hdrain]
    refine congrArg (List.map Except.ok) ?_
    calc rows = (required.keysOf rows).flatMap fun key => required.rowsOf key rows :=
          Ascending.eq_flatMap_classOf hcomplete.sorted
      _ = _ := List.flatMap_congr fun key hkey => hat (hkeys.fits key hkey)

/-- An outer join of two tables that have to be sorted, one of which lacks a key of the other. -/
theorem read_tables_counts :
    let tables := [("a", Table.counts [(2, 20), (1, 10)]), ("b", Table.counts [(2, 5)])]
    ∃ (j : Join) (required : SortOrder) (s : RowStream) (keys : List (List Value)),
      Join.on .outer (named tables) ["id"] = .ok j ∧
      ((j.withPolicy ⟨true, 2, false⟩).read .any .all []).outcome = .ok s ∧
      required.Enumerates keys
        (fun key => JoinKind.outer.emits (tables.map fun t => required.group key t.2.rows)) ∧
      s.drain.2.1 = (keys.flatMap fun key =>
        rowsAt .outer j.schema (tables.map fun t => required.group key t.2.rows)).map .ok := by
  intro tables
  obtain ⟨j, hj⟩ : ∃ j, Join.on .outer (named tables) ["id"] = .ok j := ⟨_, rfl⟩
  have hs : ∀ t ∈ tables, t.2.Sortable ⟨true, 2, false⟩ := by
    intro t ht
    rcases List.mem_pair.mp ht with rfl | rfl <;> exact Table.sortable_counts rfl (by decide)
  have hc : ∀ t ∈ tables, t.2.ClosesWell := by
    intro t ht
    rcases List.mem_pair.mp ht with rfl | rfl <;> exact Table.closesWell_counts _
  have hr : SortOrder.compatible? j.identifiers .any =
      some ⟨SortOrder.complete [] j.identifiers⟩ := rfl
  obtain ⟨s, hread, keys, hkeys, hdrain⟩ := read_tables [] hj hs hc hr
  exact ⟨j, _, s, keys, hj, hread, hkeys, hdrain⟩

end Join

end DatasetAlgebra
