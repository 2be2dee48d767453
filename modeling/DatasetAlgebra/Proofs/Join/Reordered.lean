import DatasetAlgebra.Proofs.Dataset.Offers
import DatasetAlgebra.Proofs.Join.Filtered

/-!
Joins in every order of their identifiers. The rows of a key are joined from the rows of that key,
whatever the order they are read in; so a join that has given all its rows once gives them in any
order, sorted as its reader would sort them.
-/
namespace DatasetAlgebra
namespace Join

variable {j : Join} {q : Request} {f : Filter}

theorem rests_mergeAll {sofar joined : Joined} {rest : List (String × Dataset)}
    (h : (sofar.rows ()).Rests) (hall : (j.mergeAll q sofar rest).outcome = .ok joined) :
    (joined.rows ()).Rests := by
  induction rest generalizing sofar with
  | nil =>
    cases hall
    exact h
  | cons d rest ih =>
    obtain ⟨s, -, rows, hmerge, hrest⟩ := mergeAll_cons_eq_ok.mp hall
    refine ih ?_ hrest
    obtain ⟨_, -, hmerge⟩ := bind_eq_ok.mp hmerge
    obtain ⟨_, -, hmerge⟩ := bind_eq_ok.mp hmerge
    obtain ⟨_, -, hmerge⟩ := bind_eq_ok.mp hmerge
    cases hmerge
    exact Feed.rests_rowsAfter [] _

theorem rests_openAll {joined : Joined} (hopen : (j.openAll q).outcome = .ok joined)
    (h : ∀ s, (j.openSource q j.first.2).outcome = .ok s → (s.rows ()).Rests) :
    (joined.rows ()).Rests := by
  obtain ⟨s, hs, hrest⟩ := openAll_eq_ok.mp hopen
  split at hrest
  · obtain ⟨m, -, rfl⟩ := map_eq_ok.mp hrest
    exact (h s hs).map _
  · exact rests_mergeAll (h s hs) hrest

/-- Joined in another order of the same columns, the rows are the same, sorted. -/
theorem Joined.Complete.reordered {p : Request} {joined other : Joined} {tables : List Table}
    (h : joined.Complete j q tables) (hother : other.Complete j p tables)
    (hcolumns : ∀ n, n ∈ p.order.columns ↔ n ∈ q.order.columns)
    (hcovers : ∀ r ∈ (joined.rows ()).collect.rows, p.order.Covers r) :
    (other.rows ()).collect.rows = p.order.sort (joined.rows ()).collect.rows := by
  refine SortOrder.eq_sort_of_rowsOf hother.sorted hcovers fun r => ?_
  calc p.order.rowsOf (p.order.keyOf r) (other.rows ()).collect.rows
      = rowsAt j.kind j.schema (tables.map fun t => p.order.rowsOf (p.order.keyOf r) t.rows) :=
        hother.rows _
    _ = rowsAt j.kind j.schema (tables.map fun t => q.order.rowsOf (q.order.keyOf r) t.rows) := by
        simp only [SortOrder.rowsOf_keyOf_congr hcolumns]
    _ = q.order.rowsOf (q.order.keyOf r) (joined.rows ()).collect.rows := (h.rows _).symm
    _ = p.order.rowsOf (p.order.keyOf r) (joined.rows ()).collect.rows :=
        (SortOrder.rowsOf_keyOf_congr hcolumns r _).symm

theorem Wired.wellTyped (hj : j.Wired) (hf : f.refersOnlyTo j.identifierNames)
    (hw : f.wellTyped j.schema) {d : String × Dataset} (hd : d ∈ j.datasets) :
    f.wellTyped d.2.schema := by
  rw [← Filter.wellTyped_congr f fun n hn => ?_]
  · exact hw
  obtain ⟨c, hc, rfl⟩ := List.mem_map.mp (Filter.refersOnlyTo_iff.mp hf n hn)
  have hmem := hj.shared d hd c hc
  rw [Schema.column?_eq_some_iff.mpr ⟨hmem, rfl⟩,
    Schema.column?_eq_some_iff.mpr ⟨hj.mem_columns hd c hmem, rfl⟩]

variable {tables : List Table} {standing required : SortOrder} {o : SortOrder}

theorem Wired.supplies_of_offers (hj : j.Wired) (hp : j.policy.filters)
    (hd : List.Forall₂ (fun d t => d.2.Offers t) j.datasets tables)
    (hs : SortOrder.compatible? j.identifiers .any = some standing) {columns : List String}
    {joined : Joined} (hopen : (j.openAll ⟨standing, .all, columns⟩).outcome = .ok joined)
    (hr : SortOrder.compatible? j.identifiers o = some required)
    (hf : f.refersOnlyTo j.identifierNames) (hw : f.wellTyped j.schema) (columns' : List String) :
    List.Forall₂ (fun d t => j.Supplies ⟨required, f, columns'⟩ d.2 t) j.datasets tables := by
  have hq : Request.Within ⟨standing, .all, columns⟩ j := SortOrder.columns_mem_of_compatible hs
  have hq' : Request.Within ⟨required, f, columns'⟩ j := SortOrder.columns_mem_of_compatible hr
  have hf' : f.refersOnlyTo required.columns := Filter.refersOnlyTo_mono hf fun n hn =>
    (SortOrder.mem_columns_iff_of_compatible hr n).mpr hn
  have hmem : List.Forall₂ (fun d t => d ∈ j.datasets ∧ d.2.Offers t) j.datasets tables :=
    (List.forall₂_and_left _ _).mpr ⟨fun _ hd => hd, hd⟩
  refine hmem.imp fun d t hdt => ⟨hdt.2.laid, ?_⟩
  obtain ⟨s, hstood⟩ := exists_openSource_of_openAll hopen d hdt.1
  rw [hj.openSource_eq hq hdt.1] at hstood
  rw [hj.openSource_eq hq' hdt.1]
  exact hdt.2.request _ hp (hj.mem_names hq hdt.1) (SortOrder.columns_perm_of_compatible hr hs)
    (hj.wellTyped hf hw hdt.1) hf' hstood

theorem Wired.openAll_gives (hj : j.Wired) (hq : q.Within j)
    (hs : List.Forall₂ (fun d t => j.Supplies q d.2 t) j.datasets tables) :
    ∃ joined, (j.openAll q).outcome = .ok joined ∧
      joined.Complete j q (tables.map (·.keep q.filter)) ∧
        (joined.rows ()).Gives (joined.rows ()).collect.rows := by
  obtain ⟨joined, hopen, hcomplete⟩ := hj.openAll_supplied hq hs
  refine ⟨joined, hopen, hcomplete, Rows.Rests.gives ?_ ?_⟩
  · obtain ⟨t, _, ⟨-, s, hfirst, hgives⟩, -⟩ := List.forall₂_cons_left_iff.mp hs
    refine rests_openAll hopen fun u hu => ?_
    cases hu.symm.trans hfirst
    exact hgives.rows.rests
  · exact Rows.items_drain_of_failure_eq_none hcomplete.failure

/-- What is joined of the rows that pass is what a reader makes of the rows joined at first, who
drops those that do not pass and sorts the rest as requested. -/
theorem Wired.rows_passing (hj : j.Wired)
    (hs : SortOrder.compatible? j.identifiers .any = some standing)
    (hr : SortOrder.compatible? j.identifiers o = some required)
    (hf : f.refersOnlyTo j.identifierNames) {joined whole some : Joined} {columns : List String}
    (hne : tables ≠ []) (htables : ∀ t ∈ tables, ∀ n ∈ required.columns, n ∈ t.schema.names)
    (hbound : ∀ r ∈ (joined.rows ()).collect.rows, r.schema = j.schema)
    (hjoined : joined.Complete j ⟨standing, .all, []⟩ tables)
    (hwhole : whole.Complete j ⟨required, .all, columns⟩ tables)
    (hsome : some.Complete j ⟨required, f, columns⟩ (tables.map (·.keep f))) :
    (some.rows ()).collect.rows = o.sort ((joined.rows ()).collect.rows.filter f.passes) := by
  have hq : Request.Within ⟨required, f, columns⟩ j := SortOrder.columns_mem_of_compatible hr
  have hf' : f.refersOnlyTo required.columns := Filter.refersOnlyTo_mono hf fun n hn =>
    (SortOrder.mem_columns_iff_of_compatible hr n).mpr hn
  have hcolumns (n : String) : n ∈ required.columns ↔ n ∈ standing.columns := by
    rw [SortOrder.mem_columns_iff_of_compatible hr, SortOrder.mem_columns_iff_of_compatible hs]
  have hcovers : ∀ r ∈ (joined.rows ()).collect.rows, required.Covers r :=
    fun r hmem => covers_of_schema (hbound r hmem) (hj.mem_schema_names hq)
  calc (some.rows ()).collect.rows
      = (whole.rows ()).collect.rows.filter f.passes :=
        hwhole.passing hne hsome hf' htables (hj.mem_schema_names hq)
    _ = (required.sort (joined.rows ()).collect.rows).filter f.passes := by
        rw [hjoined.reordered hwhole hcolumns hcovers]
    _ = o.sort ((joined.rows ()).collect.rows.filter f.passes) :=
        SortOrder.filter_sort_of_compatible hr hs hcovers hjoined.sorted _

theorem Joined.Complete.gives {joined : Joined} {t : Table} (h : joined.Complete j q tables)
    (hgives : (joined.rows ()).Gives (o.sort t.rows)) (ht : j.schema = t.schema) (f : Filter) :
    t.Gives o (j.stream o q.order f joined) where
  laid := ht
  fresh := rfl
  closes r hr := by
    cases hr
    exact ReleaseStack.failure_release h.held
  rows := hgives

theorem unsupportedOrder_isAny_iff : (j.toDataset.unsupportedOrder o).isAny ↔
    (SortOrder.compatible? j.identifiers o).isSome := SortOrder.isAny_unsupported_iff

theorem unsupportedFilter_isAll_iff : (j.toDataset.unsupportedFilter f).isAll ↔
    f.refersOnlyTo j.identifierNames := Filter.isAll_unsupported_iff

theorem read_refused (columns : List String)
    (h : ¬((j.toDataset.unsupportedOrder o).isAny ∧ (j.toDataset.unsupportedFilter f).isAll)) :
    ∃ why, j.read o f columns = .fail (.unsupported why) := by
  rw [unsupportedOrder_isAny_iff, unsupportedFilter_isAll_iff] at h
  unfold read requiredOrder
  cases hr : SortOrder.compatible? j.identifiers o with
  | none => exact ⟨_, rfl⟩
  | some required =>
    have hf : ¬f.refersOnlyTo j.identifierNames := fun hf => h ⟨by rw [hr]; rfl, hf⟩
    exact ⟨.filter j.producer f, by simp [hf]⟩

section

variable {t : Table} (hj : j.Wired) (hp : j.policy.filters)
  (hd : List.Forall₂ (fun d t => d.2.Offers t) j.datasets tables) (ht : j.schema = t.schema)
  (hrows : j.toDataset.Yields t.rows)
include hj hp hd ht hrows

theorem Wired.read_offered (hr : SortOrder.compatible? j.identifiers o = some required)
    (hf : f.refersOnlyTo j.identifierNames) (hw : f.wellTyped j.schema) (columns : List String) :
    ∃ s, (j.read o f columns).outcome = .ok s ∧ (t.keep f).Gives o s ∧
      s.residualOrder = .any ∧ s.residualFilter = .all := by
  obtain ⟨given, hread, hanswers⟩ := hrows
  have hread : (j.read .any .all []).outcome = .ok given := hread
  obtain ⟨standing, hs, hall, joined, hopen, rfl⟩ := read_eq_ok.mp hread
  have hq : Request.Within ⟨standing, .all, []⟩ j := SortOrder.columns_mem_of_compatible hs
  have hq' : Request.Within ⟨required, f, columns⟩ j := SortOrder.columns_mem_of_compatible hr
  -- the rows joined at first, all of them in the order required, and those of these that pass
  obtain ⟨_, hopen', hjoined⟩ := hj.openAll_supplied hq
    (hj.supplies_of_offers hp hd hs hopen hs hall rfl [])
  obtain ⟨whole, -, hwhole⟩ := hj.openAll_supplied (q := ⟨required, .all, columns⟩) hq'
    (hj.supplies_of_offers hp hd hs hopen hr hall rfl columns)
  obtain ⟨some, hsome, hkept, hgives⟩ := hj.openAll_gives hq'
    (hj.supplies_of_offers hp hd hs hopen hr hf hw columns)
  cases hopen.symm.trans hopen'
  simp only [Table.keep_all, List.map_id'] at hjoined hwhole
  have hgiven : (joined.rows ()).collect.rows = t.rows :=
    (hjoined.answers .any .all).rows_unique hanswers
  have hne : tables ≠ [] := by
    rintro rfl
    cases hd
  have htables : ∀ u ∈ tables, ∀ n ∈ required.columns, n ∈ u.schema.names := fun u hu => by
    obtain ⟨d, hmem, hoffers⟩ := exists_left_of_forall₂ hd hu
    exact hoffers.laid ▸ hj.mem_names hq' hmem
  have hbound : ∀ r ∈ (joined.rows ()).collect.rows, r.schema = j.schema := by
    rw [hgiven, ht]
    exact t.bound
  rw [hj.rows_passing hs hr hf hne htables hbound hjoined hwhole hkept, hgiven] at hgives
  refine ⟨_, read_eq_ok.mpr ⟨required, hr, hf, some, hsome, rfl⟩, ?_, ?_, ?_⟩
  · exact hkept.gives (t := t.keep f) hgives ht f
  · exact RowStream.residualOrder_of_prefix
      (SortOrder.satisfiedBy_iff.mp (SortOrder.satisfiedBy_of_compatible hr))
  · exact RowStream.residualFilter_of_applied rfl

theorem Wired.keyed : j.toDataset.Keyed j.identifierNames t where
  laid := ht
  order o := unsupportedOrder_isAny_iff.trans SortOrder.compatible?_isSome_iff
  filter f := unsupportedFilter_isAll_iff
  reads := by
    intro o f columns ho hf hw
    obtain ⟨required, hr⟩ :=
      Option.isSome_iff_exists.mp (unsupportedOrder_isAny_iff.mp ho)
    exact hj.read_offered hp hd ht hrows hr (unsupportedFilter_isAll_iff.mp hf) hw columns
  refuses columns h := by
    obtain ⟨why, hread⟩ := read_refused columns h
    exact ⟨why, congrArg Recorded.outcome hread⟩

end

end Join
end DatasetAlgebra
