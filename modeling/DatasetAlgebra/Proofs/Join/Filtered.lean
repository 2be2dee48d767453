import DatasetAlgebra.Proofs.Filter.ByKey
import DatasetAlgebra.Proofs.Join.Honest
import DatasetAlgebra.Proofs.Join.OfTables

/-!
Joins through a filter. A filter on the identifiers is left to the tables, and that gives the same
rows as filtering the joined ones: of each key either all rows pass, in all tables and in the join,
or none does.
-/
namespace DatasetAlgebra

theorem JoinKind.emits_of_empty {α : Type} {kind : JoinKind} {groups : List (List α)}
    (hne : groups ≠ []) (h : ∀ g ∈ groups, g = []) : kind.emits groups = false := by
  obtain ⟨g, groups, rfl⟩ := List.exists_cons_of_ne_nil hne
  rw [List.forall_mem_cons] at h
  obtain ⟨rfl, h⟩ := h
  cases kind with
  | inner => rfl
  | outer => simpa [emits] using h
  | left => rfl

namespace Join

variable {j : Join} {q : Request} {f : Filter}

/-- Filtering the rows of one key before they are joined is filtering them after, if they pass
together. -/
theorem rowsAt_filter {kind : JoinKind} {out : Schema} {groups : List (List Row)} {keep : Bool}
    (hne : groups ≠ []) (hgroups : ∀ g ∈ groups, ∀ r ∈ g, f.passes r = keep)
    (hrows : ∀ x ∈ rowsAt kind out groups, f.passes x = keep) :
    rowsAt kind out (groups.map fun g => g.filter f.passes) =
      (rowsAt kind out groups).filter f.passes := by
  cases keep with
  | true =>
    have hsame : groups.map (fun g => g.filter f.passes) = groups :=
      (List.map_congr_left fun g hg => List.filter_eq_self.mpr (hgroups g hg)).trans
        (List.map_id groups)
    rw [hsame, List.filter_eq_self.mpr hrows]
  | false =>
    have hempty : ∀ g ∈ groups.map (fun g => g.filter f.passes), g = [] := by
      simp only [List.forall_mem_map]
      exact fun g hg => List.filter_eq_nil_iff.mpr fun r hr => by simp [hgroups g hg r hr]
    have hnone : (rowsAt kind out groups).filter f.passes = [] :=
      List.filter_eq_nil_iff.mpr fun x hx => by simp [hrows x hx]
    rw [hnone, rowsAt, JoinKind.contributors_eq_nil.mpr
      (JoinKind.emits_of_empty (by simpa using hne) hempty)]
    rfl

/-- The rows of the join of those rows that pass are the joined rows that pass. -/
theorem Joined.Complete.passing {joined some : Joined} {tables : List Table}
    {columns : List String} (hne : tables ≠ []) (hall : joined.Complete j q tables)
    (hsome : some.Complete j ⟨q.order, f, columns⟩ (tables.map (·.keep f)))
    (hf : f.refersOnlyTo q.order.columns)
    (htables : ∀ t ∈ tables, ∀ n ∈ q.order.columns, n ∈ t.schema.names)
    (hout : ∀ n ∈ q.order.columns, n ∈ j.schema.names) :
    (some.rows ()).collect.rows = (joined.rows ()).collect.rows.filter f.passes := by
  have hsorted : q.order.Sorted (some.rows ()).collect.rows := hsome.sorted
  refine hsorted.eq_of_classOf_eq (hall.sorted.sublist List.filter_sublist) fun key => ?_
  obtain ⟨keep, hkeep⟩ := Filter.exists_passes hf key
  let groups := tables.map fun t => q.order.rowsOf key t.rows
  have hpassed : (tables.map (·.keep f)).map (fun t => q.order.rowsOf key t.rows) =
      groups.map fun g => g.filter f.passes := by
    simp only [groups, List.map_map, Function.comp_def]
    exact List.map_congr_left fun t _ => classOf_filter ..
  have hgroups : ∀ g ∈ groups, ∀ x ∈ g, f.passes x = keep := by
    simp only [groups, List.forall_mem_map]
    intro t ht x hx
    obtain ⟨hmem, hkey⟩ := (mem_classOf _ _).mp hx
    exact hkeep x (t.covers_rows (htables t ht) x hmem) hkey
  have hrows : ∀ x ∈ rowsAt j.kind j.schema groups, f.passes x = keep := by
    intro x hx
    obtain ⟨as, -, hschema⟩ := List.mem_map.mp hx
    rw [← hall.rows key] at hx
    refine hkeep x (covers_of_schema ?_ hout) ((mem_classOf _ _).mp hx).2
    rw [← hschema]
    rfl
  calc q.order.rowsOf key (some.rows ()).collect.rows
      = rowsAt j.kind j.schema (groups.map fun g => g.filter f.passes) := by
        rw [← hpassed]
        exact hsome.rows key
    _ = (rowsAt j.kind j.schema groups).filter f.passes :=
        rowsAt_filter (by simpa [groups] using hne) hgroups hrows
    _ = (q.order.rowsOf key (joined.rows ()).collect.rows).filter f.passes := by
        rw [← hall.rows key]
    _ = q.order.rowsOf key ((joined.rows ()).collect.rows.filter f.passes) :=
        (classOf_filter ..).symm

theorem Joined.Complete.filtered {joined some : Joined} {tables : List (String × Table)}
    {columns : List String} (hne : tables ≠ [])
    (hall : joined.Complete j q (tables.map Prod.snd))
    (hsome : some.Complete j ⟨q.order, f, columns⟩ (kept f tables))
    (hf : f.refersOnlyTo q.order.columns)
    (htables : ∀ t ∈ tables, ∀ n ∈ q.order.columns, n ∈ t.2.schema.names)
    (hout : ∀ n ∈ q.order.columns, n ∈ j.schema.names) :
    (some.rows ()).collect.rows = (joined.rows ()).collect.rows.filter f.passes := by
  rw [kept_eq] at hsome
  refine hall.passing (by simpa using hne) hsome hf ?_ hout
  rw [List.forall_mem_map]
  exact htables

theorem exists_openSource_of_mergeAll {sofar joined : Joined} {rest : List (String × Dataset)}
    (h : (j.mergeAll q sofar rest).outcome = .ok joined) :
    ∀ d ∈ rest, ∃ s, (j.openSource q d.2).outcome = .ok s := by
  induction rest generalizing sofar with
  | nil => simp
  | cons d rest ih =>
    obtain ⟨s, hs, rows, -, hrest⟩ := mergeAll_cons_eq_ok.mp h
    exact List.forall_mem_cons.mpr ⟨⟨s, hs⟩, ih hrest⟩

theorem exists_openSource_of_openAll {joined : Joined} (h : (j.openAll q).outcome = .ok joined) :
    ∀ d ∈ j.datasets, ∃ s, (j.openSource q d.2).outcome = .ok s := by
  obtain ⟨s, hs, hrest⟩ := openAll_eq_ok.mp h
  refine List.forall_mem_cons.mpr ⟨⟨s, hs⟩, ?_⟩
  split at hrest
  · rename_i hnil
    simp [List.isEmpty_iff.mp hnil]
  · exact exists_openSource_of_mergeAll hrest

theorem Wired.supplies_of_openAll (hj : j.Wired) (hq : q.Within j) (hall : q.filter = .all)
    {tables : List (String × Table)} (hd : j.datasets = named tables)
    (hc : ∀ t ∈ tables, t.2.ClosesWell) {joined : Joined}
    (hopen : (j.openAll q).outcome = .ok joined) (hp : f.isAll ∨ j.policy.filters)
    (hrows : ∀ t ∈ tables, f.Decides t.2.rows) (columns : List String) :
    ∀ t ∈ tables, j.Supplies ⟨q.order, f, columns⟩ t.2.toDataset t.2 := by
  intro t ht
  have hmem := mem_datasets_of_mem hd ht
  obtain ⟨s, hs⟩ := exists_openSource_of_openAll hopen _ hmem
  rw [hj.openSource_eq hq hmem, hall] at hs
  have hable := Table.sortable_of_request _ (hc t ht) (Filter.decides_all _) (.inl rfl)
    (hj.mem_names hq hmem) hs
  rw [Table.keep_all] at hable
  exact hj.openSource_ok (q := ⟨q.order, f, columns⟩) hq hmem (hc t ht) (hrows t ht) hp
    (hable.imp_right fun h => h.keep f)

theorem Joined.Complete.answers {joined : Joined} {tables : List Table}
    (h : joined.Complete j q tables) (order : SortOrder) (f : Filter) :
    (j.stream order q.order f joined).Answers ((joined.rows ()).collect.rows.map .ok) := by
  have hdrain : (j.stream order q.order f joined).drain.2.1 =
      (joined.rows ()).collect.rows.map .ok :=
    RowStream.drain_eq rfl h.failure (ReleaseStack.failure_release h.held)
  rw [← hdrain]
  exact RowStream.answers_drain _

theorem Wired.decides (hj : j.Wired) (hf : f.refersOnlyTo j.identifierNames)
    (hw : f.wellTyped j.schema) {d : String × Dataset} (hd : d ∈ j.datasets) {rows : List Row}
    (hbound : ∀ r ∈ rows, r.schema = d.2.schema) (hconforms : ∀ r ∈ rows, r.conforms) :
    f.Decides rows := by
  refine Filter.decides_of_wellTyped hw hf (fun r hr => ⟨hconforms r hr, ?_⟩) fun r hr => ?_
  · rw [hbound r hr]
    exact hj.mem_columns hd
  · rw [hbound r hr]
    exact hj.identifier_mem_names hd

/-- A join of tables that can be read in an order gives, under a policy that filters, those of its
rows that pass a well-typed filter on the identifiers, in their order. -/
theorem read_filtered_tables {kind : JoinKind} {tables : List (String × Table)}
    {names : List String} {j : Join} {policy : Policy} {order : SortOrder} {f : Filter}
    {columns : List String} {s : RowStream} (columns' : List String)
    (hj : Join.on kind (named tables) names = .ok j)
    (ht : ∀ t ∈ tables, ∀ r ∈ t.2.rows, r.conforms) (hc : ∀ t ∈ tables, t.2.ClosesWell)
    (hp : policy.filters) (hf : f.refersOnlyTo j.identifierNames) (hw : f.wellTyped j.schema)
    (hread : ((j.withPolicy policy).read order .all columns).outcome = .ok s) :
    ∃ (s' : RowStream) (rows : List Row),
      ((j.withPolicy policy).read order f columns').outcome = .ok s' ∧
      s.Answers (rows.map .ok) ∧ s'.Answers ((rows.filter f.passes).map .ok) := by
  obtain ⟨hwired, -, hdatasets, -⟩ := wired_of_on hj
  obtain ⟨required, hr, -, joined, hopen, rfl⟩ := read_eq_ok.mp hread
  have hw' : (j.withPolicy policy).Wired := hwired.withPolicy policy
  let q : Request := ⟨required, .all, columns⟩
  have hq : q.Within (j.withPolicy policy) := SortOrder.columns_mem_of_compatible hr
  have hrows : ∀ t ∈ tables, f.Decides t.2.rows := fun t hmem =>
    hwired.decides hf hw (mem_datasets_of_mem hdatasets hmem) t.2.bound (ht t hmem)
  -- all rows are joined, and so are those that pass
  have hall := hw'.supplies_of_openAll hq rfl hdatasets hc hopen (.inl rfl)
    (fun t _ => Filter.decides_all t.2.rows) columns
  have hpass := hw'.supplies_of_openAll hq rfl hdatasets hc hopen (.inr hp) hrows columns'
  obtain ⟨_, hopen', hcomplete⟩ := hw'.openAll_kept hq hdatasets hall
  cases hopen.symm.trans hopen'
  rw [kept_all] at hcomplete
  obtain ⟨some, hsome, hkept⟩ :=
    hw'.openAll_kept (q := ⟨required, f, columns'⟩) hq hdatasets hpass
  have hf' : f.refersOnlyTo required.columns := Filter.refersOnlyTo_mono hf fun n hn => by
    obtain ⟨c, hc, rfl⟩ := List.mem_map.mp hn
    exact SortOrder.mem_columns_of_compatible hr hc
  have hne : tables ≠ [] := by
    rintro rfl
    simp [datasets, named] at hdatasets
  have hfiltered := Joined.Complete.filtered hne hcomplete hkept hf'
    (fun t hmem => hw'.mem_names hq (mem_datasets_of_mem hdatasets hmem)) (hw'.mem_schema_names hq)
  refine ⟨_, (joined.rows ()).collect.rows,
    read_eq_ok.mpr ⟨required, hr, hf, some, hsome, rfl⟩, hcomplete.answers order .all, ?_⟩
  rw [← hfiltered]
  exact hkept.answers order f

/-- An outer join through a filter on its identifier, of tables that have to be filtered in their
place; one of them has a row that passes and lacks a match. -/
theorem read_filtered_tables_counts :
    let tables := [("a", Table.counts [(3, 30), (2, 20), (1, 10)]), ("b", Table.counts [(1, 5)])]
    let f := Filter.compare "id" .le (.ofInt64 2)
    ∃ (j : Join) (s s' : RowStream) (rows : List Row),
      Join.on .outer (named tables) ["id"] = .ok j ∧
      ((j.withPolicy ⟨true, 3, true⟩).read .any .all []).outcome = .ok s ∧
      ((j.withPolicy ⟨true, 3, true⟩).read .any f []).outcome = .ok s' ∧
      s.Answers (rows.map .ok) ∧ s'.Answers ((rows.filter f.passes).map .ok) := by
  intro tables f
  obtain ⟨j, hj⟩ : ∃ j, Join.on .outer (named tables) ["id"] = .ok j := ⟨_, rfl⟩
  have ht : ∀ t ∈ tables, ∀ r ∈ t.2.rows, r.conforms := by decide
  have hc : ∀ t ∈ tables, t.2.ClosesWell := by
    intro t ht
    rcases List.mem_pair.mp ht with rfl | rfl <;> exact Table.closesWell_counts _
  have hs : ∀ t ∈ tables, t.2.Sortable ⟨true, 3, true⟩ := by
    intro t ht
    rcases List.mem_pair.mp ht with rfl | rfl <;> exact Table.sortable_counts rfl (by decide)
  obtain ⟨s, hread⟩ :
      ∃ s, ((j.withPolicy ⟨true, 3, true⟩).read .any .all []).outcome = .ok s := by
    obtain ⟨hwired, -, hdatasets, -⟩ := wired_of_on hj
    have hr : SortOrder.compatible? j.identifiers .any =
        some ⟨SortOrder.complete [] j.identifiers⟩ := rfl
    obtain ⟨joined, hopen, -⟩ := (hwired.withPolicy ⟨true, 3, true⟩).openAll_complete
      (q := ⟨_, .all, []⟩) (SortOrder.columns_mem_of_compatible hr) rfl hdatasets hs hc
    have hall : Filter.all.refersOnlyTo j.identifierNames := Filter.all_refersOnlyTo _
    exact ⟨_, read_eq_ok.mpr ⟨_, hr, hall, joined, hopen, rfl⟩⟩
  obtain ⟨hf, hw⟩ : f.refersOnlyTo j.identifierNames ∧ f.wellTyped j.schema := by
    cases hj
    exact ⟨by rw [Filter.refersOnlyTo_iff]; decide, by decide⟩
  obtain ⟨s', rows, hread', hall, hpass⟩ := read_filtered_tables [] hj ht hc rfl hf hw hread
  exact ⟨j, s, s', rows, hj, hread, hread', hall, hpass⟩

end Join
end DatasetAlgebra
