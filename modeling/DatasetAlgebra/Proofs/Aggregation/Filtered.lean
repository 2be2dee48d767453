import DatasetAlgebra.Proofs.Aggregation.OfTable
import DatasetAlgebra.Proofs.Filter.ByKey

/-!
Aggregations through a filter. A filter on the grouping columns is left to the child, and that
gives the same rows as filtering the rows of the groups: the rows of a run pass together, and so
does the row made of them. In rows that ascend, the runs behind one that is dropped are not joined
to those before it.
-/
namespace DatasetAlgebra

namespace Grouping

variable {g : Grouping}

theorem grouped_run {a : Row} {run rest : List Row}
    (hrun : ∀ r ∈ run, g.sameGroup (g.order.keyOf a) r)
    (hrest : ∀ r ∈ rest, ¬g.sameGroup (g.order.keyOf a) r) :
    g.grouped (a :: (run ++ rest)) =
      match g.reduce ((a :: run).map g.measured) with
      | .error e => [.error e]
      | .ok sofar => .ok (g.rowOf (g.order.keyOf a) sofar) :: g.grouped rest := by
  have hlead : (run ++ rest).takeWhile (g.sameGroup (g.order.keyOf a)) = run := by
    rw [List.takeWhile_append_of_pos hrun]
    cases rest with
    | nil => exact List.append_nil run
    | cons r rest =>
      rw [List.takeWhile_cons_of_neg (hrest r List.mem_cons_self), List.append_nil]
  have hbeyond : (run ++ rest).dropWhile (g.sameGroup (g.order.keyOf a)) = rest := by
    rw [List.dropWhile_append_of_pos hrun]
    cases rest with
    | nil => rfl
    | cons r rest => exact List.dropWhile_cons_of_neg (hrest r List.mem_cons_self)
  rw [grouped]
  cases hreduce : g.reduce ((a :: run).map g.measured) with
  | error e => simp only [hlead, hreduce]
  | ok sofar => simp only [hlead, hbeyond, hreduce]

theorem exists_run {a : Row} {l : List Row} (h : g.order.Sorted (a :: l)) :
    ∃ run rest, l = run ++ rest ∧ g.order.Sorted rest ∧
      (∀ r ∈ run, g.sameGroup (g.order.keyOf a) r) ∧
      ∀ r ∈ rest, ¬g.sameGroup (g.order.keyOf a) r := by
  refine ⟨_, _, List.takeWhile_append_dropWhile.symm, ?_, fun r hr => List.mem_takeWhile_imp hr, ?_⟩
  · exact h.of_cons.sublist (List.dropWhile_sublist _)
  · rw [sameGroup_eq]
    intro r hr
    have hgt := Std.OrientedCmp.gt_of_lt (h.lt_of_mem_dropWhile hr)
    simp [sameAs, hgt]

/-- Induction on rows that ascend, run by run. -/
theorem run_induction {motive : (rows : List Row) → g.order.Sorted rows → Prop}
    (nil : motive [] .nil)
    (run : ∀ (a : Row) (run rest : List Row) (h : g.order.Sorted (a :: (run ++ rest)))
      (hsorted : g.order.Sorted rest), (∀ r ∈ run, g.sameGroup (g.order.keyOf a) r) →
      (∀ r ∈ rest, ¬g.sameGroup (g.order.keyOf a) r) → motive rest hsorted →
      motive (a :: (run ++ rest)) h)
    (rows : List Row) (h : g.order.Sorted rows) : motive rows h := by
  induction hn : rows.length using Nat.strong_induction_on generalizing rows with
  | _ n ih
  cases rows with
  | nil => exact nil
  | cons a l =>
    obtain ⟨lead, rest, rfl, hsorted, hrun, hrest⟩ := exists_run h
    have hless : rest.length < n := by
      simp only [← hn, List.length_cons, List.length_append]
      omega
    exact run a lead rest h hsorted hrun hrest (ih rest.length hless rest hsorted rfl)

theorem grouped_run_eq_ok {a : Row} {run rest xs : List Row}
    (hrun : ∀ r ∈ run, g.sameGroup (g.order.keyOf a) r)
    (hrest : ∀ r ∈ rest, ¬g.sameGroup (g.order.keyOf a) r) :
    g.grouped (a :: (run ++ rest)) = xs.map .ok ↔
      ∃ sofar ys, g.reduce ((a :: run).map g.measured) = .ok sofar ∧
        xs = g.rowOf (g.order.keyOf a) sofar :: ys ∧ g.grouped rest = ys.map .ok := by
  rw [grouped_run hrun hrest]
  constructor
  · intro h
    cases hreduce : g.reduce ((a :: run).map g.measured) with
    | error e =>
      rw [hreduce] at h
      cases xs <;> simp at h
    | ok sofar =>
      rw [hreduce] at h
      obtain ⟨x, ys, rfl, hx, hys⟩ := List.map_eq_cons_iff.mp h.symm
      exact ⟨sofar, ys, rfl, by rw [Except.ok.inj hx], hys.symm⟩
  · rintro ⟨sofar, ys, hreduce, rfl, hys⟩
    rw [hreduce, List.map_cons, ← hys]

/-- Filtering rows before they are grouped is filtering the rows of the groups, if those of one
key pass together and the row made of them passes as they do. -/
theorem grouped_filter {p : Row → Bool} {rows : List Row} (hs : g.order.Sorted rows)
    (hsame : ∀ a ∈ rows, ∀ b ∈ rows, g.sameGroup (g.order.keyOf a) b → p b = p a)
    (hrow : ∀ a ∈ rows, ∀ sofar, p (g.rowOf (g.order.keyOf a) sofar) = p a) {xs : List Row}
    (h : g.grouped rows = xs.map .ok) : g.grouped (rows.filter p) = (xs.filter p).map .ok := by
  induction rows, hs using run_induction generalizing xs with
  | nil =>
    rw [grouped_nil] at h
    rw [List.map_eq_nil_iff.mp h.symm]
    exact g.grouped_nil
  | run a run rest _ _ hrun hrest ih =>
    obtain ⟨sofar, ys, hreduce, rfl, hys⟩ := (grouped_run_eq_ok hrun hrest).mp h
    have hmem : ∀ r ∈ rest, r ∈ a :: (run ++ rest) := fun r hr => by simp [hr]
    have hbehind := ih (fun b hb c hc => hsame b (hmem b hb) c (hmem c hc))
      (fun b hb => hrow b (hmem b hb)) hys
    have hpass : ∀ r ∈ run, p r = p a := fun r hr => hsame a (by simp) r (by simp [hr]) (hrun r hr)
    have hhead : p (g.rowOf (g.order.keyOf a) sofar) = p a := hrow a List.mem_cons_self sofar
    cases hpa : p a with
    | true =>
      have hkept : (a :: (run ++ rest)).filter p = a :: (run ++ rest.filter p) := by
        rw [List.filter_cons_of_pos hpa, List.filter_append,
          List.filter_eq_self.mpr fun r hr => (hpass r hr).trans hpa]
      rw [hkept, List.filter_cons_of_pos (hhead.trans hpa)]
      exact (grouped_run_eq_ok hrun fun r hr => hrest r (List.mem_of_mem_filter hr)).mpr
        ⟨sofar, _, hreduce, rfl, hbehind⟩
    | false =>
      have hkept : (a :: (run ++ rest)).filter p = rest.filter p := by
        rw [List.filter_cons_of_neg (by simp [hpa]), List.filter_append,
          List.filter_eq_nil_iff.mpr fun r hr => by simp [hpass r hr, hpa], List.nil_append]
      rw [hkept, List.filter_cons_of_neg (by simp [hhead, hpa])]
      exact hbehind

end Grouping

namespace Aggregation

variable {a : Aggregation} {required : SortOrder} {g : Grouping} {t : Table} {f : Filter}

theorem Groups.passes_eq (hg : a.Groups required g) (hf : f.refersOnlyTo required.columns)
    {p r : Row} (hp : required.Covers p) (hr : required.Covers r)
    (h : g.sameGroup (g.order.keyOf p) r) : f.passes r = f.passes p := by
  rw [Grouping.sameGroup, hg.order,
    SortOrder.sameKey_iff (required.fits_keyOf p) (required.fits_keyOf r)] at h
  exact (Filter.passes_congr (Filter.keeps_congr_of_key hf hp hr h)).symm

theorem Wired.passes_rowOf (ha : a.Wired) (ho : a.Orders required) (hg : a.Groups required g)
    (hf : f.refersOnlyTo a.groupNames) {r : Row} (hr : r.schema = a.child.schema)
    (sofar : Accumulator) : f.passes (g.rowOf (g.order.keyOf r) sofar) = f.passes r := by
  rw [hg.order]
  exact Filter.passes_congr (Filter.keeps_congr hf fun n hn => ha.value?_group ho hg hr sofar hn)

theorem Orders.refersOnlyTo (ho : a.Orders required) (hf : f.refersOnlyTo a.groupNames) :
    f.refersOnlyTo required.columns := Filter.refersOnlyTo_mono hf fun n hn => by
  obtain ⟨c, hc, rfl⟩ := List.mem_map.mp hn
  exact ho.2 c hc

theorem Wired.grouped_keep (ha : a.Wired) (hlaid : a.child.schema = t.schema)
    (ho : a.Orders required) (hg : a.Groups required g) (hf : f.refersOnlyTo a.groupNames)
    {rows : List Row} (h : g.grouped (required.sort t.rows) = rows.map .ok) :
    g.grouped (required.sort (t.keep f).rows) = (rows.filter f.passes).map .ok := by
  have hnames : ∀ n ∈ required.columns, n ∈ t.schema.names := hlaid ▸ names_of_keys (ha.key_mem ho)
  have hmem : ∀ r ∈ required.sort t.rows, r ∈ t.rows :=
    fun r hr => (required.sort_perm t.rows).subset hr
  have hcover : ∀ r ∈ t.rows, required.Covers r := t.covers_rows hnames
  have hsorted : g.order.Sorted (required.sort t.rows) :=
    hg.order ▸ (SortOrder.sorted_sort hcover).1
  rw [Table.rows_keep, SortOrder.sort_filter hcover]
  refine Grouping.grouped_filter hsorted (fun p hp r hr hpr => ?_) (fun r hr sofar => ?_) h
  · exact hg.passes_eq (ho.refersOnlyTo hf) (hcover p (hmem p hp)) (hcover r (hmem r hr)) hpr
  · refine ha.passes_rowOf ho hg hf ?_ sofar
    rw [hlaid]
    exact t.bound r (hmem r hr)

theorem Wired.grouped_passing (ha : a.Wired) (hchild : a.child = t.toDataset)
    (ho : a.Orders required) (hg : a.Groups required g) (hf : f.refersOnlyTo a.groupNames)
    {rows : List Row} (h : g.grouped (required.sort t.rows) = rows.map .ok) :
    g.grouped (required.sort (t.rows.filter f.passes)) = (rows.filter f.passes).map .ok :=
  ha.grouped_keep (by rw [hchild]; rfl) ho hg hf h

/-- An aggregation of a table that gives all its rows in an order gives, under a policy that
filters, those of them that pass a well-typed filter on the grouping columns. -/
theorem read_filtered_table {names : List String} {measure : String} {r : Reducer}
    {policy : Policy} {order : SortOrder} {columns : List String} {s : RowStream}
    {rows : List Row} (columns' : List String) (ha : of t.toDataset names measure r = .ok a)
    (ht : ∀ r ∈ t.rows, r.conforms) (hc : t.ClosesWell) (hp : policy.filters)
    (hf : f.refersOnlyTo a.groupNames) (hw : f.wellTyped t.schema)
    (hread : ((a.withPolicy policy).read order .all columns).outcome = .ok s)
    (hrows : s.Answers (rows.map .ok)) :
    ∃ s', ((a.withPolicy policy).read order f columns').outcome = .ok s' ∧
      s'.Answers ((rows.filter f.passes).map .ok) := by
  obtain ⟨hwired, hchild, -⟩ := wired_of_of ha
  have hwired' : (a.withPolicy policy).Wired := hwired.withPolicy policy
  obtain ⟨required, hr, hall, childOrder, honto, input, hinput, -⟩ := read_eq_ok.mp hread
  have ho : (a.withPolicy policy).Orders required := orders_of_compatible hr
  have hkeys := hwired'.key_mem ho
  have hnames : ∀ n ∈ required.columns, n ∈ t.schema.names := by
    have hnames := names_of_keys (hwired.key_mem ho)
    rwa [hchild] at hnames
  obtain ⟨g, hgrouping, hg⟩ := hwired'.grouping_ok ho
  -- the table could be sorted with all its rows, so it can be with fewer
  have hable : required.isAny ∨ (t.keep .all).Sortable policy := by
    cases honto.symm.trans (SortOrder.onto_self hkeys)
    have hopened : (t.toDataset.request required .all
        ((a.withPolicy policy).childColumns columns) policy).outcome = .ok input := hchild ▸ hinput
    exact Table.sortable_of_request _ hc (Filter.decides_all t.rows) (.inl rfl) hnames hopened
  have hdecides : f.Decides t.rows := by
    refine Filter.decides_of_wellTyped hw hf (fun r hr => ⟨ht r hr, ?_⟩) fun r hr n hn => ?_
    · rw [t.bound r hr]
      exact fun _ hc => hc
    · obtain ⟨c, hc, rfl⟩ := List.mem_map.mp hn
      have hmem := hwired.groups c hc
      rw [hchild] at hmem
      exact t.bound r hr ▸ List.mem_map_of_mem hmem
  obtain ⟨_, hread', hdrain⟩ := hwired'.read_grouped hchild hable hc (Filter.decides_all t.rows)
    (.inl rfl) hall hr hgrouping hg columns
  cases hread.symm.trans hread'
  obtain ⟨s', hs', hdrain'⟩ := hwired'.read_grouped hchild
    (hable.imp_right fun h => (t.keep_all ▸ h).keep f) hc hdecides (.inr hp) hf hr hgrouping hg
    columns'
  have hgrouped : g.grouped (required.sort t.rows) = rows.map .ok := by
    rw [Filter.filter_passes_all] at hdrain
    exact hdrain.symm.trans (s.answers_drain.unique hrows)
  refine ⟨s', hs', ?_⟩
  rw [← hwired'.grouped_passing hchild ho hg hf hgrouped, ← hdrain']
  exact s'.answers_drain

/-- The greatest count by identifier through a filter on it, over a table that has to be sorted and
filtered in its place. -/
theorem read_filtered_table_counts :
    let t := Table.counts [(2, 20), (1, 10), (2, 5)]
    let f := Filter.compare "id" .le (.ofInt64 1)
    ∃ (a : Aggregation) (s s' : RowStream) (rows : List Row),
      of t.toDataset ["id"] "n" .max = .ok a ∧
      ((a.withPolicy ⟨true, 3, true⟩).read .any .all []).outcome = .ok s ∧
      s.Answers (rows.map .ok) ∧
      ((a.withPolicy ⟨true, 3, true⟩).read .any f []).outcome = .ok s' ∧
      s'.Answers ((rows.filter f.passes).map .ok) := by
  intro t f
  obtain ⟨a, ha⟩ : ∃ a, of t.toDataset ["id"] "n" .max = .ok a := ⟨_, rfl⟩
  have ht : ∀ r ∈ t.rows, r.conforms := by decide
  have hc : t.ClosesWell := Table.closesWell_counts _
  have hs : t.Sortable ⟨true, 3, true⟩ := Table.sortable_counts rfl (by decide)
  obtain ⟨s, rows, hread, hrows⟩ : ∃ s rows,
      ((a.withPolicy ⟨true, 3, true⟩).read .any .all []).outcome = .ok s ∧
        s.Answers (List.map Except.ok rows) := by
    obtain ⟨hwired, hchild, -⟩ := wired_of_of ha
    have hr : SortOrder.compatible? a.groupBy .any = some ⟨SortOrder.complete [] a.groupBy⟩ := rfl
    obtain ⟨s, hread, keys, -, hsplit⟩ :=
      (hwired.withPolicy ⟨true, 3, true⟩).read_groups hchild ht hs hc hr []
    obtain ⟨rows, -, hall, -⟩ := hsplit keys [] (by simp) fun _ _ hover => by
      have hsum : a.reducer = .sum := hover.1
      cases ha
      cases hsum
    exact ⟨s, rows, hread, hall rfl⟩
  obtain ⟨hf, hw⟩ : f.refersOnlyTo a.groupNames ∧ f.wellTyped t.schema := by
    cases ha
    exact ⟨by rw [Filter.refersOnlyTo_iff]; decide, by decide⟩
  obtain ⟨s', hread', hrows'⟩ := read_filtered_table [] ha ht hc rfl hf hw hread hrows
  exact ⟨a, s, s', rows, ha, hread, hrows, hread', hrows'⟩

end Aggregation
end DatasetAlgebra
