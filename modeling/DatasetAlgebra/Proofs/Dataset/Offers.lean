import DatasetAlgebra.Proofs.Dataset.Tables
import DatasetAlgebra.Proofs.Filter.ByKey
import DatasetAlgebra.Proofs.SortOrder.Completion

/-!
What a dataset can be asked for, if all of its rows are known as a table. A table serves any order of
its columns. A dataset that is keyed on some columns takes on orders and filters of those alone; it
does what it takes on by itself, and refuses the rest whatever the policy. To an operation, which
asks for all of its keys in every order, both look alike.
-/
namespace DatasetAlgebra
namespace Dataset

variable {d : Dataset} {o : SortOrder} {f : Filter} {policy : Policy} {columns : List String}
  {s : RowStream}

/-- Reading all of a dataset gives some rows, none of which fails. -/
def Yields (d : Dataset) (rows : List Row) : Prop :=
  ∃ s, d.readAll.outcome = .ok s ∧ s.Answers (rows.map .ok)

theorem yields_of_drain {rows : List Row} (h : d.readAll.outcome = .ok s)
    (hdrain : s.drain.2.1 = rows.map .ok) : d.Yields rows :=
  ⟨s, h, hdrain ▸ s.answers_drain⟩

theorem Yields.unique {rows more : List Row} (h : d.Yields rows) (h' : d.Yields more) :
    rows = more := by
  obtain ⟨s, hs, hrows⟩ := h
  obtain ⟨_, hs', hmore⟩ := h'
  cases hs.symm.trans hs'
  exact hrows.rows_unique hmore

theorem request_of_read (h : (d.read o f columns).outcome = .ok s)
    (ho : s.residualOrder = .any) (hf : s.residualFilter = .all) :
    (d.request o f columns policy).outcome = .ok s := by
  have hfilter : ((d.read o f columns).andThen (d.settleFilter policy)).outcome = .ok s := by
    rw [Recorded.outcome_andThen h, settleFilter_of_isAll (by rw [hf]; rfl)]
    rfl
  rw [request, Recorded.outcome_andThen hfilter, settleOrder_of_isAny (by rw [ho]; rfl)]
  rfl

theorem request_of_read_error {e : Error} (h : (d.read o f columns).outcome = .error e) :
    (d.request o f columns policy).outcome = .error e := by
  rw [request, Recorded.andThen_of_error h, Recorded.andThen_of_error rfl]

/-- Where all rows of a dataset can be had in an order, those that pass a filter on its columns can
be had in any order of them. They are the rows of a table. -/
structure Offers (d : Dataset) (t : Table) : Prop where
  laid : d.schema = t.schema
  request : ∀ {policy : Policy} {o p : SortOrder} {f : Filter} {columns : List String}
    {s : RowStream} (columns' : List String), policy.filters →
    (∀ n ∈ o.columns, n ∈ d.schema.names) → p.columns.Perm o.columns → f.wellTyped d.schema →
    f.refersOnlyTo p.columns → (d.request o .all columns policy).outcome = .ok s →
    ∃ s', (d.request p f columns' policy).outcome = .ok s' ∧ (t.keep f).Gives p s'

/-- A dataset keyed on columns of some names, which gives the rows of a table. -/
structure Keyed (d : Dataset) (names : List String) (t : Table) : Prop where
  laid : d.schema = t.schema
  order : ∀ o, (d.unsupportedOrder o).isAny ↔ o.columns.Nodup ∧ ∀ n ∈ o.columns, n ∈ names
  filter : ∀ f, (d.unsupportedFilter f).isAll ↔ f.refersOnlyTo names
  reads : ∀ {o f} (columns : List String), (d.unsupportedOrder o).isAny →
    (d.unsupportedFilter f).isAll → f.wellTyped d.schema →
    ∃ s, (d.read o f columns).outcome = .ok s ∧ (t.keep f).Gives o s ∧
      s.residualOrder = .any ∧ s.residualFilter = .all
  refuses : ∀ {o f} (columns : List String),
    ¬((d.unsupportedOrder o).isAny ∧ (d.unsupportedFilter f).isAll) →
    ∃ why, (d.read o f columns).outcome = .error (.unsupported why)

variable {names : List String} {t : Table}

theorem Keyed.request_ok (h : d.Keyed names t) (policy : Policy) (columns : List String)
    (ho : (d.unsupportedOrder o).isAny) (hf : (d.unsupportedFilter f).isAll)
    (hw : f.wellTyped d.schema) :
    ∃ s, (d.request o f columns policy).outcome = .ok s ∧ (t.keep f).Gives o s := by
  obtain ⟨s, hread, hgives, horder, hfilter⟩ := h.reads columns ho hf hw
  exact ⟨s, request_of_read hread horder hfilter, hgives⟩

/-- What a keyed dataset does not take on is refused under any policy. -/
theorem Keyed.request_refused (h : d.Keyed names t) (columns : List String)
    (hnot : ¬((d.unsupportedOrder o).isAny ∧ (d.unsupportedFilter f).isAll)) :
    ∃ why, (d.read o f columns).outcome = .error (.unsupported why) ∧
      ∀ policy, (d.request o f columns policy).outcome = .error (.unsupported why) := by
  obtain ⟨why, hread⟩ := h.refuses columns hnot
  exact ⟨why, hread, fun _ => request_of_read_error hread⟩

/-- An order that is taken on in one arrangement of its columns is taken on in any. -/
theorem Keyed.offers (h : d.Keyed names t) : d.Offers t where
  laid := h.laid
  request := by
    intro policy o p f columns s columns' _ _ hperm hw hf hs
    have htaken : (d.unsupportedOrder o).isAny ∧ (d.unsupportedFilter .all).isAll := by
      by_contra hnot
      obtain ⟨why, -, hrefused⟩ := h.request_refused columns hnot
      cases hs.symm.trans (hrefused policy)
    obtain ⟨hnodup, hnames⟩ := (h.order o).mp htaken.1
    have hnames' : ∀ n ∈ p.columns, n ∈ names := fun n hn => hnames n (hperm.subset hn)
    apply h.request_ok policy columns'
    · exact (h.order p).mpr ⟨hperm.nodup_iff.mpr hnodup, hnames'⟩
    · exact (h.filter f).mpr (Filter.refersOnlyTo_mono hf hnames')
    · exact hw

end Dataset

namespace Table

variable {t : Table} {o : SortOrder} {f : Filter} {s : RowStream}

theorem Gives.answers (h : t.Gives o s) : s.Answers ((o.sort t.rows).map .ok) :=
  RowStream.answers_of_gives h.fresh h.rows h.pending

theorem decides (ht : ∀ r ∈ t.rows, r.conforms) (hw : f.wellTyped t.schema) :
    f.Decides t.rows := by
  refine Filter.decides_of_wellTyped hw (Filter.refersOnlyTo_of_wellTyped hw)
    (fun r hr => ⟨ht r hr, ?_⟩) fun r hr => ?_
  · rw [t.bound r hr]
    exact fun _ hc => hc
  · rw [t.bound r hr]
    exact fun _ hn => hn

theorem yields (hc : t.ClosesWell) : t.toDataset.Yields t.rows := by
  have hown : t.ownFilter .all = .all := by
    unfold ownFilter
    split <;> rfl
  have hread := read_ok (o := .any) (p := .any) (Filter.decides_all t.rows)
    (by split <;> rfl) ([] : List String)
  have hopens : t.Opens .any .all .any (t.stream .any .all .any .all t.rows) := by
    simpa using opens_applied (o := .any) (f := .all) (p := .any) hc
  have hanswers := hopens.toGives.answers
  rw [hown, Filter.filter_passes_all, SortOrder.sort_any] at hread
  rw [keep_all, SortOrder.sort_any] at hanswers
  exact ⟨_, hread, hanswers⟩

theorem offers (ht : ∀ r ∈ t.rows, r.conforms) (hc : t.ClosesWell) : t.toDataset.Offers t where
  laid := rfl
  request := by
    intro policy o p f columns s columns' hp ho hperm hw hf hs
    have hall := sortable_of_request columns hc (Filter.decides_all t.rows) (.inl rfl) ho hs
    have hpass : p.isAny ∨ (t.keep f).Sortable policy := by
      rcases hall with hany | hsortable
      · have hlength := hperm.length_eq
        rw [SortOrder.isAny_iff.mp hany] at hlength
        have hnil : p.keys = [] := by simpa [SortOrder.columns, SortOrder.any] using hlength
        exact .inl (by simp [SortOrder.isAny, hnil])
      · rw [keep_all] at hsortable
        exact .inr (hsortable.keep f)
    have hnames : ∀ n ∈ p.columns, n ∈ t.schema.names := fun n hn => ho n (hperm.subset hn)
    obtain ⟨s', hrequest, hgives, -⟩ :=
      request_ok columns' hc (decides ht hw) (.inr hp) hpass hnames
    exact ⟨s', hrequest, hgives⟩

end Table
end DatasetAlgebra
