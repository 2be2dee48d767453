import DatasetAlgebra.Dataset.Table
import DatasetAlgebra.Proofs.Dataset.Requests

/-!
Tables read honestly. A table whose rows can be sorted, by itself or under the policy, gives all
of them in any order of its columns, those with equal keys as they stand.
-/
namespace DatasetAlgebra
namespace Table

variable {t : Table} {o p : SortOrder} {f : Filter} {rows : List Row} {columns : List String}

/-- The stream of a table that was asked for `o` and `f` and gives some rows. -/
def stream (t : Table) (o : SortOrder) (f : Filter) (applied : SortOrder) (filter : Filter)
    (rows : List Row) : RowStream :=
  let s := ((RowStream.ofRows t.schema fun _ => .ofRows rows).wanted o f).applied applied filter
  t.release.elim s s.onClose

section

variable (t : Table) (o : SortOrder) (f : Filter) (p : SortOrder) (g : Filter) (rows : List Row)

@[simp] theorem schema_stream : (t.stream o f p g rows).schema = t.schema := by
  unfold stream; cases t.release <;> rfl
@[simp] theorem rows_stream : (t.stream o f p g rows).rows () = .ofRows rows := by
  unfold stream; cases t.release <;> rfl
@[simp] theorem release_stream : (t.stream o f p g rows).release = t.release := by
  unfold stream; cases t.release <;> rfl
@[simp] theorem finished_stream : (t.stream o f p g rows).finished = false := by
  unfold stream; cases t.release <;> rfl
@[simp] theorem wantedOrder_stream : (t.stream o f p g rows).wantedOrder = o := by
  unfold stream; cases t.release <;> rfl
@[simp] theorem wantedFilter_stream : (t.stream o f p g rows).wantedFilter = f := by
  unfold stream; cases t.release <;> rfl
@[simp] theorem order_stream : (t.stream o f p g rows).order = p := by
  unfold stream; cases t.release <;> rfl
@[simp] theorem filter_stream : (t.stream o f p g rows).filter = g := by
  unfold stream; cases t.release <;> rfl

end

/-- The filter a table applies by itself. -/
def ownFilter (t : Table) (f : Filter) : Filter := if t.filters then f else .all

/-- The stream of a table, before there is anything to release. -/
def opened (t : Table) (o : SortOrder) (f : Filter) : Except Error RowStream :=
  (if t.sorts then o.onto t.schema else .ok .any).bind fun applied =>
    (t.select applied (t.ownFilter f)).map fun rows =>
      ((RowStream.ofRows t.schema fun _ => .ofRows rows).wanted o f).applied applied (t.ownFilter f)

theorem read_eq (t : Table) (o : SortOrder) (f : Filter) (columns : List String) :
    t.read o f columns = .silent ((t.opened o f).map fun s => t.release.elim s s.onClose) := by
  have hselect (applied : SortOrder) :
      ((t.select applied (t.ownFilter f)).bind fun rows => Except.ok
        (t.stream o f applied (t.ownFilter f) rows)) =
      ((t.select applied (t.ownFilter f)).map fun rows =>
        ((RowStream.ofRows t.schema fun _ => .ofRows rows).wanted o f).applied applied
          (t.ownFilter f)).map fun s => t.release.elim s s.onClose := by
    cases t.select applied (t.ownFilter f) <;> rfl
  unfold read opened
  cases t.sorts with
  | false => exact congrArg Recorded.silent (hselect .any)
  | true =>
    cases o.onto t.schema with
    | error e => rfl
    | ok applied => exact congrArg Recorded.silent (hselect applied)

theorem read_eq_ok {s : RowStream} :
    (t.read o f columns).outcome = .ok s ↔
      ∃ applied, (if t.sorts then o.onto t.schema else .ok .any) = .ok applied ∧
        ∃ rows, t.select applied (t.ownFilter f) = .ok rows ∧
          s = t.stream o f applied (t.ownFilter f) rows := by
  rw [read_eq, Recorded.outcome_silent]
  constructor
  · intro h
    obtain ⟨_, hopened, rfl⟩ := map_eq_ok.mp h
    obtain ⟨applied, happlied, hselect⟩ := bind_eq_ok.mp hopened
    obtain ⟨rows, hrows, rfl⟩ := map_eq_ok.mp hselect
    exact ⟨applied, happlied, rows, hrows, rfl⟩
  · rintro ⟨applied, happlied, rows, hrows, rfl⟩
    exact map_eq_ok.mpr
      ⟨_, bind_eq_ok.mpr ⟨applied, happlied, map_eq_ok.mpr ⟨rows, hrows, rfl⟩⟩, rfl⟩

theorem kept_ok {table : List Row} (h : kept f table = .ok rows) :
    rows.Sublist table ∧ ∀ r ∈ rows, f.keeps r = .ok true := by
  induction table generalizing rows with
  | nil =>
    cases h
    simp
  | cons r rest ih =>
    obtain ⟨keep, hk, h⟩ := bind_eq_ok.mp h
    obtain ⟨more, hrest, rfl⟩ := map_eq_ok.mp h
    obtain ⟨hsub, hkeeps⟩ := ih hrest
    cases keep with
    | true => exact ⟨hsub.cons_cons r, List.forall_mem_cons.mpr ⟨hk, hkeeps⟩⟩
    | false => exact ⟨hsub.cons r, hkeeps⟩

theorem kept_eq {table : List Row} (h : f.Decides table) :
    kept f table = .ok (table.filter f.passes) := by
  induction table with
  | nil => rfl
  | cons r rest ih =>
    rw [kept, h.keeps_eq List.mem_cons_self, ih (h.subset (List.subset_cons_self r rest))]
    cases hp : f.passes r <;> simp [Except.bind, Except.map, hp]

theorem select_eq (h : f.Decides t.rows) :
    t.select p f = .ok (p.sort (t.rows.filter f.passes)) := by
  unfold select
  split
  · rename_i hboth
    obtain ⟨hf, hp⟩ := Bool.and_eq_true_iff.mp hboth
    rw [Filter.eq_all_of_isAll hf, SortOrder.isAny_iff.mp hp, SortOrder.sort_any,
      Filter.filter_passes_all]
  · rw [kept_eq h]
    rfl

theorem select_fulfils (hconforms : ∀ r ∈ t.rows, r.conforms)
    (ho : ∀ n ∈ p.columns, n ∈ t.schema.names) (h : t.select p f = .ok rows) :
    Fulfils t.schema p f rows := by
  have hany : Fulfils t.schema .any .all t.rows :=
    ⟨t.bound, hconforms,
      List.pairwise_of_forall fun _ _ => by simp [SortOrder.any, SortOrder.compare],
      fun r _ => Filter.keeps_all r⟩
  unfold select at h
  split at h
  · rename_i hboth
    obtain ⟨hf, hp⟩ := Bool.and_eq_true_iff.mp hboth
    cases h
    rw [Filter.eq_all_of_isAll hf, SortOrder.isAny_iff.mp hp]
    exact hany
  · obtain ⟨ks, hk, rfl⟩ := map_eq_ok.mp h
    obtain ⟨hsub, hkeeps⟩ := kept_ok hk
    exact ((hany.sublist hsub).filtered hkeeps).sort ho

theorem names_of_applied (h : (if t.sorts then o.onto t.schema else .ok .any) = .ok p) :
    ∀ n ∈ p.columns, n ∈ t.schema.names := by
  split at h
  · exact names_of_keys (SortOrder.onto_spec h).2
  · cases h
    simp [SortOrder.any, SortOrder.columns]

theorem honest (hconforms : ∀ r ∈ t.rows, r.conforms) : t.toDataset.Honest := by
  intro o f columns s (h : (t.read o f columns).outcome = .ok s)
  show s.Honest t.schema o f
  obtain ⟨applied, happlied, rows, hrows, rfl⟩ := read_eq_ok.mp h
  have hcovered := names_of_applied happlied
  refine ⟨by simp, by simp, by simp, ?_, by simpa using hcovered, ?_⟩
  · simp only [filter_stream, ownFilter]
    split <;> simp
  · simpa using select_fulfils hconforms hcovered hrows

/-- Rows of a table in an order, those of equal keys as they stand. -/
structure Arranges (o : SortOrder) (table rows : List Row) : Prop where
  perm : rows.Perm table
  sorted : o.Sorted rows
  stable : ∀ key, o.rowsOf key rows = o.rowsOf key table

theorem arranges_sort (h : ∀ r ∈ rows, o.Covers r) : Arranges o rows (o.sort rows) :=
  ⟨o.sort_perm rows, (SortOrder.sorted_sort h).1, (SortOrder.sorted_sort h).2⟩

/-- A table can be sorted if it does it by itself, or else if the policy has its rows sorted and
they are not too many. -/
def Sortable (t : Table) (policy : Policy) : Prop :=
  t.sorts ∨ policy.sorts ∧ t.rows.length ≤ policy.capacity

/-- Closing a stream of the table does not fail. -/
def ClosesWell (t : Table) : Prop := ∀ r, t.release = some r → r.failure = none

/-- The table of those rows that pass a filter. -/
def keep (f : Filter) (t : Table) : Table :=
  { t with
    rows := t.rows.filter f.passes
    bound := fun r hr => t.bound r (List.mem_of_mem_filter hr) }

@[simp] theorem schema_keep (f : Filter) (t : Table) : (t.keep f).schema = t.schema := rfl
@[simp] theorem rows_keep (f : Filter) (t : Table) :
    (t.keep f).rows = t.rows.filter f.passes := rfl
@[simp] theorem sorts_keep (f : Filter) (t : Table) : (t.keep f).sorts = t.sorts := rfl
@[simp] theorem keep_all (t : Table) : t.keep .all = t := by simp [keep]

theorem Sortable.keep {policy : Policy} (h : t.Sortable policy) (f : Filter) :
    (t.keep f).Sortable policy :=
  h.imp_right fun h => ⟨h.1, (List.length_filter_le _ _).trans h.2⟩

theorem covers_rows (ho : ∀ n ∈ o.columns, n ∈ t.schema.names) : ∀ r ∈ t.rows, o.Covers r :=
  fun r hr => covers_of_schema (t.bound r hr) ho

/-- A stream of all rows of a table in an order, which closes without failure. -/
structure Gives (t : Table) (o : SortOrder) (s : RowStream) : Prop where
  laid : s.schema = t.schema
  fresh : s.finished = false
  closes : ∀ r, s.release = some r → r.failure = none
  rows : (s.rows ()).Gives (o.sort t.rows)

theorem Gives.pending {s : RowStream} (h : t.Gives o s) : s.pending.failure = none :=
  RowStream.pending_of_closes h.closes

theorem Gives.bound {s : RowStream} (h : t.Gives o s) :
    ∀ r ∈ (s.rows ()).flow, r.schema = t.schema := by
  rw [h.rows.flow]
  exact fun r hr => t.bound r ((o.sort_perm t.rows).subset hr)

theorem Gives.arranges {s : RowStream} (h : t.Gives o s)
    (ho : ∀ n ∈ o.columns, n ∈ t.schema.names) :
    Arranges o t.rows (s.rows ()).collect.rows := by
  rw [h.rows.collected]
  exact arranges_sort (covers_rows ho)

/-- A stream of a table of which all is done that was wanted, but for the order it applied. -/
structure Opens (t : Table) (o : SortOrder) (f : Filter) (applied : SortOrder) (s : RowStream) :
    Prop extends (t.keep f).Gives applied s where
  wanted : s.wantedOrder = o
  order : s.order = applied
  filtered : s.residualFilter = .all

variable {policy : Policy}

theorem read_ok (hd : f.Decides t.rows)
    (h : (if t.sorts then o.onto t.schema else .ok .any) = .ok p) (columns : List String) :
    (t.toDataset.read o f columns).outcome = .ok (t.stream o f p (t.ownFilter f)
      (p.sort (t.rows.filter (t.ownFilter f).passes))) := by
  have hown : (t.ownFilter f).Decides t.rows := by
    unfold ownFilter
    split
    · exact hd
    · exact Filter.decides_all t.rows
  show (t.read o f columns).outcome = _
  exact read_eq_ok.mpr ⟨p, h, _, select_eq hown, rfl⟩

theorem opens_applied (hc : t.ClosesWell) :
    t.Opens o f p (t.stream o f p f (p.sort (t.rows.filter f.passes))) where
  laid := by simp
  fresh := by simp
  closes := by rw [release_stream]; exact hc
  rows := rows_stream .. ▸ Rows.gives_ofRows _
  wanted := by simp
  order := by simp
  filtered := RowStream.residualFilter_of_applied (by simp)

/-- Dropping rows after the table has sorted them gives the same as dropping them before. -/
theorem opens_unapplied (hc : t.ClosesWell) (hd : f.Decides t.rows)
    (hp : ∀ n ∈ p.columns, n ∈ t.schema.names) :
    let s := t.stream o f p .all (p.sort t.rows)
    t.Opens o f p { s with rows := fun _ => (s.rows ()).filter f, filter := f } := by
  intro s
  have hgives : (s.rows ()).Gives (p.sort t.rows) := rows_stream .. ▸ Rows.gives_ofRows _
  have hkept := hgives.filter (hd.subset (p.sort_perm t.rows).subset)
  rw [← SortOrder.sort_filter fun r hr => covers_of_schema (t.bound r hr) hp] at hkept
  exact ⟨⟨by simp [s], by simp [s], by rw [release_stream]; exact hc, hkept⟩, by simp [s],
    by simp [s], RowStream.residualFilter_of_applied (by simp [s])⟩

theorem Gives.congr {q : SortOrder} {s : RowStream} (h : t.Gives p s)
    (hq : p.demands = q.demands) : t.Gives q s :=
  { h with rows := SortOrder.sort_congr hq ▸ h.rows }

section

variable (columns) (hc : t.ClosesWell) (hd : f.Decides t.rows) (hf : f.isAll ∨ policy.filters)
include hc hd hf

/-- A table is opened, and what it leaves of the filter is done in its place. -/
theorem open_ok (h : (if t.sorts then o.onto t.schema else .ok .any) = .ok p) :
    ∃ s, ((t.toDataset.read o f columns).andThen (t.toDataset.settleFilter policy)).outcome =
        .ok s ∧ t.Opens o f p s := by
  rw [Recorded.outcome_andThen (read_ok hd h columns)]
  by_cases hown : t.ownFilter f = f
  · have hopens := opens_applied (t := t) (o := o) (f := f) (p := p) hc
    rw [hown, Dataset.settleFilter_of_isAll (by rw [hopens.filtered]; rfl)]
    exact ⟨_, rfl, hopens⟩
  · have hall : t.ownFilter f = .all := by
      unfold ownFilter at hown ⊢
      split <;> simp_all
    have hnot : ¬f.isAll := fun hf => hown (hall.trans (Filter.eq_all_of_isAll hf).symm)
    rw [hall, Filter.filter_passes_all, Dataset.settleFilter_of_unapplied (by simp)
      (by simpa using hnot) (hf.resolve_left hnot)]
    refine ⟨_, rfl, ?_⟩
    simpa using opens_unapplied (o := o) hc hd (names_of_applied h)

theorem request_sorts (hsorts : t.sorts) (ho : ∀ n ∈ o.columns, n ∈ t.schema.names) :
    ∃ s, (t.toDataset.request o f columns policy).outcome = .ok s ∧ (t.keep f).Gives o s ∧
      s.residualOrder = .any ∧ s.residualFilter = .all := by
  obtain ⟨p, hp⟩ := SortOrder.onto_ok ho
  obtain ⟨hdemands, -⟩ := SortOrder.onto_spec hp
  obtain ⟨s, hs, hopens⟩ := open_ok columns hc hd hf (by rw [if_pos hsorts]; exact hp)
  have happlied : s.wantedOrder.demands = s.order.demands := by
    rw [hopens.wanted, hopens.order, hdemands]
  have hres : s.residualOrder = .any :=
    RowStream.residualOrder_of_prefix (happlied ▸ List.prefix_rfl)
  refine ⟨s, ?_, hopens.toGives.congr hdemands, hres, hopens.filtered⟩
  rw [Dataset.request, Recorded.outcome_andThen hs,
    Dataset.settleOrder_of_isAny (by rw [hres]; rfl)]
  rfl

theorem request_unsorted (hsorts : t.sorts = false) :
    ∃ s, (t.toDataset.request o f columns policy).outcome =
        (t.toDataset.settleOrder policy o s).outcome ∧
      t.Opens o f .any s ∧ (s.rows ()).Gives (t.keep f).rows ∧ s.residualOrder = o := by
  obtain ⟨s, hs, hopens⟩ := open_ok (o := o) (p := .any) columns hc hd hf (by
    simp [hsorts])
  have hrows := hopens.rows
  rw [SortOrder.sort_any] at hrows
  exact ⟨s, Recorded.outcome_andThen hs _, hopens, hrows,
    (RowStream.residualOrder_of_any hopens.order).trans hopens.wanted⟩

theorem request_sorted (hsorts : t.sorts = false) (hany : ¬o.isAny) (hs : policy.sorts)
    (hfits : (t.keep f).rows.length ≤ policy.capacity)
    (ho : ∀ n ∈ o.columns, n ∈ t.schema.names) :
    ∃ s, (t.toDataset.request o f columns policy).outcome = .ok s ∧ (t.keep f).Gives o s ∧
      s.residualOrder = .any ∧ s.residualFilter = .all := by
  obtain ⟨s, hrequest, hopens, hrows, hres⟩ :=
    request_unsorted (o := o) columns hc hd hf hsorts
  obtain ⟨p, hp⟩ := SortOrder.onto_ok ho
  obtain ⟨hdemands, -⟩ := SortOrder.onto_spec hp
  have honto : s.residualOrder.onto s.schema = .ok p := by rwa [hres, hopens.laid]
  rw [hrequest, Dataset.settleOrder_of_sorts (hres ▸ hany) hs honto,
    Dataset.sortStream_fits hrows.failure hopens.pending (hrows.collected ▸ hfits)]
  refine ⟨_, rfl, ⟨hopens.laid, rfl, by simp, ?_⟩, ?_, hopens.filtered⟩
  · rw [← SortOrder.sort_congr hdemands, ← hrows.collected]
    exact Rows.gives_ofRows _
  · exact RowStream.residualOrder_of_prefix (hdemands ▸ List.prefix_rfl)

theorem request_overflow (hsorts : t.sorts = false) (hany : ¬o.isAny) (hs : policy.sorts)
    (hover : policy.capacity < (t.keep f).rows.length) (hp : o.onto t.schema = .ok p) :
    (t.toDataset.request o f columns policy).outcome =
      .error (.unsupported (.buffer p policy.capacity)) := by
  obtain ⟨s, hrequest, hopens, hrows, hres⟩ :=
    request_unsorted (o := o) columns hc hd hf hsorts
  have honto : s.residualOrder.onto s.schema = .ok p := by rwa [hres, hopens.laid]
  rw [hrequest, Dataset.settleOrder_of_sorts (hres ▸ hany) hs honto,
    Dataset.sortStream_overflow hopens.pending (hrows.collected.symm ▸ hover)]

/-- A table that need not sort, or can, gives the rows that pass in any order of its columns. -/
theorem request_ok (hs : o.isAny ∨ (t.keep f).Sortable policy)
    (ho : ∀ n ∈ o.columns, n ∈ t.schema.names) :
    ∃ s, (t.toDataset.request o f columns policy).outcome = .ok s ∧ (t.keep f).Gives o s ∧
      s.residualOrder = .any ∧ s.residualFilter = .all := by
  cases hsorts : t.sorts with
  | true => exact request_sorts columns hc hd hf hsorts ho
  | false =>
    by_cases hany : o.isAny
    · obtain ⟨s, hrequest, hopens, -, hres⟩ :=
        request_unsorted (o := o) columns hc hd hf hsorts
      rw [Dataset.settleOrder_of_isAny (hres ▸ hany)] at hrequest
      have hgives := hopens.toGives
      rw [← SortOrder.isAny_iff.mp hany] at hgives
      exact ⟨s, hrequest, hgives, hres.trans (SortOrder.isAny_iff.mp hany), hopens.filtered⟩
    · obtain ⟨hsort, hfits⟩ : policy.sorts ∧ (t.keep f).rows.length ≤ policy.capacity := by
        simpa [Sortable, hsorts, hany] using hs
      exact request_sorted columns hc hd hf hsorts hany hsort hfits ho

/-- Only a table that need not sort, or can, gives anything. -/
theorem sortable_of_request {s : RowStream} (ho : ∀ n ∈ o.columns, n ∈ t.schema.names)
    (h : (t.toDataset.request o f columns policy).outcome = .ok s) :
    o.isAny ∨ (t.keep f).Sortable policy := by
  by_contra hnot
  obtain ⟨hany, hsorts, hfits⟩ : ¬o.isAny ∧ t.sorts = false ∧
      (policy.sorts → policy.capacity < (t.keep f).rows.length) := by
    simpa [Sortable, not_or] using hnot
  by_cases hs : policy.sorts
  · obtain ⟨p, hp⟩ := SortOrder.onto_ok ho
    rw [request_overflow columns hc hd hf hsorts hany hs (hfits hs) hp] at h
    cases h
  · obtain ⟨u, hrequest, -, -, hres⟩ :=
      request_unsorted (o := o) columns hc hd hf hsorts
    rw [hrequest, Dataset.settleOrder_of_not_sorts (hres ▸ hany) hs] at h
    cases h

end

def countSchema : Schema :=
  ⟨[⟨"id", .identifier, .integer⟩, ⟨"n", .measure, .integer⟩], by decide⟩

def countRow (id n : Int64) : Row := ⟨countSchema, [.ofInt64 id, .ofInt64 n], rfl⟩

/-- Counts by identifier, as a table that leaves it to the reader to sort and filter. -/
def counts (rows : List (Int64 × Int64)) : Table where
  schema := countSchema
  rows := rows.map fun (id, n) => countRow id n
  bound := by simp only [List.forall_mem_map]; exact fun _ _ => rfl
  sorts := false
  filters := false

/-- A table of one row of integers. -/
def ofInts (s : Schema) (values : List Int64) (h : values.length = s.width) : Table where
  schema := s
  rows := [⟨s, values.map .ofInt64, by simpa using h⟩]
  bound := by simp

theorem sortable_counts {rows : List (Int64 × Int64)} {policy : Policy} (hp : policy.sorts)
    (h : rows.length ≤ policy.capacity) : (counts rows).Sortable policy :=
  .inr ⟨hp, by simpa [counts] using h⟩

theorem closesWell_counts (rows : List (Int64 × Int64)) : (counts rows).ClosesWell :=
  fun _ hr => by simp [counts] at hr

end Table
end DatasetAlgebra
