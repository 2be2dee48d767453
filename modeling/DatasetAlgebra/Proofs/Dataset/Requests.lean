import DatasetAlgebra.Dataset.Request
import DatasetAlgebra.Proofs.SortOrder.Buffers
import DatasetAlgebra.Proofs.SortOrder.Compatible
import DatasetAlgebra.Proofs.Value.Equality

/-!
Requests give what was asked for. A stream is honest if its rows are as it says: laid out in its
schema, in the order and through the filter on its record. Whatever an honest stream leaves undone
a request does itself, or it fails.
-/
namespace DatasetAlgebra

namespace Rows

theorem flow_filterAfter_sublist (f : Filter) (es : List Event) (r : Rows) :
    (filterAfter f es r).flow.Sublist r.flow := by
  induction r generalizing es with
  | ended e => exact .refl _
  | poll p rest ih =>
    obtain ⟨ps, item⟩ := p
    match item with
    | none => exact ih () []
    | some (.error e) => exact .refl _
    | some (.ok r) =>
      rw [flow_poll_ok]
      unfold filterAfter
      simp only
      split
      · exact (ih () []).cons_cons r
      · exact (ih () _).cons r
      · exact List.nil_sublist _

theorem keeps_of_mem_flow_filterAfter {f : Filter} {es : List Event} {r : Rows} {row : Row}
    (h : row ∈ (filterAfter f es r).flow) : f.keeps row = .ok true := by
  induction r generalizing es with
  | ended e => simp [filterAfter] at h
  | poll p rest ih =>
    obtain ⟨ps, item⟩ := p
    rcases item with _ | e | r
    · exact ih () h
    · simp [filterAfter] at h
    · unfold filterAfter at h
      simp only at h
      split at h
      · rename_i hk
        rcases List.mem_cons.mp h with rfl | h
        · exact hk
        · exact ih () h
      · exact ih () h
      · simp at h

end Rows

/-- Rows as a request asks for them: of a schema, in an order and through a filter. -/
structure Fulfils (schema : Schema) (o : SortOrder) (f : Filter) (rows : List Row) : Prop where
  bound : ∀ r ∈ rows, r.schema = schema
  conforms : ∀ r ∈ rows, r.conforms
  ascends : rows.Pairwise fun a b => o.compare a b ≠ .gt
  kept : ∀ r ∈ rows, f.keeps r = .ok true

namespace Fulfils

variable {schema : Schema} {o p : SortOrder} {f g : Filter} {rows some : List Row}

theorem sublist (h : Fulfils schema o f rows) (hs : some.Sublist rows) :
    Fulfils schema o f some where
  bound r hr := h.bound r (hs.subset hr)
  conforms r hr := h.conforms r (hs.subset hr)
  ascends := h.ascends.sublist hs
  kept r hr := h.kept r (hs.subset hr)

theorem filtered (h : Fulfils schema o f rows) (hk : ∀ r ∈ rows, g.keeps r = .ok true) :
    Fulfils schema o g rows := { h with kept := hk }

theorem ordered (h : Fulfils schema p f rows) (hp : o.demands <+: p.demands) :
    Fulfils schema o f rows :=
  { h with ascends := h.ascends.imp fun hab => SortOrder.compare_of_prefix hp hab }

end Fulfils

theorem Filter.keeps_all (r : Row) : Filter.all.keeps r = .ok true := rfl

theorem Filter.eq_all_of_isAll {f : Filter} (h : f.isAll) : f = .all := by
  cases f <;> simp [isAll] at h ⊢

theorem Filter.eq_all_of_same {f : Filter} (h : f == .all) : f = .all := by
  cases f <;> simp [BEq.beq, same] at h ⊢

theorem names_of_keys {o : SortOrder} {s : Schema} (h : ∀ k ∈ o.keys, k.column ∈ s.columns) :
    ∀ n ∈ o.columns, n ∈ s.names := by
  rintro n hn
  obtain ⟨k, hk, rfl⟩ := List.mem_map.mp hn
  exact List.mem_map_of_mem (h k hk)

theorem covers_of_schema {o : SortOrder} {s : Schema} {r : Row} (hs : r.schema = s)
    (ho : ∀ n ∈ o.columns, n ∈ s.names) : o.Covers r := fun n hn => by
  rw [Row.value?_isSome_iff, hs]
  exact ho n hn

theorem Fulfils.sorted {schema : Schema} {o : SortOrder} {f : Filter} {rows : List Row}
    (h : Fulfils schema o f rows) (ho : ∀ n ∈ o.columns, n ∈ schema.names) : o.Sorted rows :=
  (SortOrder.sorted_iff fun r hr => covers_of_schema (h.bound r hr) ho).mpr h.ascends

theorem Fulfils.sort {schema : Schema} {o p : SortOrder} {f : Filter} {rows : List Row}
    (h : Fulfils schema p f rows) (ho : ∀ n ∈ o.columns, n ∈ schema.names) :
    Fulfils schema o f (o.sort rows) := by
  have hsub : ∀ r ∈ o.sort rows, r ∈ rows := fun r hr => (o.sort_perm rows).subset hr
  have hcover : ∀ r ∈ rows, o.Covers r := fun r hr => covers_of_schema (h.bound r hr) ho
  have hsorted := (SortOrder.sorted_sort hcover).1
  refine ⟨?_, ?_, ?_, ?_⟩
  · exact fun r hr => h.bound r (hsub r hr)
  · exact fun r hr => h.conforms r (hsub r hr)
  · exact (SortOrder.sorted_iff fun r hr => hcover r (hsub r hr)).mp hsorted
  · exact fun r hr => h.kept r (hsub r hr)

namespace RowStream

/-- A stream whose rows are as its record says. It may leave a filter undone, but not apply part
of it. -/
structure Honest (s : RowStream) (schema : Schema) (o : SortOrder) (f : Filter) : Prop where
  laid : s.schema = schema
  wantedOrder : s.wantedOrder = o
  wantedFilter : s.wantedFilter = f
  filter : s.filter = f ∨ s.filter = .all
  covered : ∀ n ∈ s.order.columns, n ∈ schema.names
  rows : Fulfils schema s.order s.filter (s.rows ()).flow

variable {s : RowStream} {schema : Schema} {o : SortOrder} {f : Filter}

theorem residualFilter_cases (s : RowStream) :
    s.residualFilter = .all ∧ (s.wantedFilter = .all ∨ (s.wantedFilter == s.filter) = true) ∨
      s.residualFilter = s.wantedFilter := by
  unfold residualFilter
  split
  · rename_i h
    rcases Bool.or_eq_true _ _ ▸ h with h | h
    · exact .inl ⟨rfl, .inl (Filter.eq_all_of_isAll h)⟩
    · exact .inl ⟨rfl, .inr h⟩
  · exact .inr rfl

theorem residualOrder_cases (s : RowStream) :
    s.residualOrder = .any ∧ s.wantedOrder.satisfiedBy s.order ∨
      s.residualOrder = s.wantedOrder := by
  unfold residualOrder
  split <;> simp_all

theorem residualFilter_of_applied (h : s.filter = s.wantedFilter) : s.residualFilter = .all := by
  simp [residualFilter, h]

theorem residualOrder_of_prefix (h : s.wantedOrder.demands <+: s.order.demands) :
    s.residualOrder = .any := by
  rw [residualOrder, if_pos (SortOrder.satisfiedBy_iff.mpr h)]

theorem residualOrder_of_any (h : s.order = .any) : s.residualOrder = s.wantedOrder := by
  rcases s.residualOrder_cases with ⟨hres, hsat⟩ | hres
  · rw [h, SortOrder.satisfiedBy_iff, SortOrder.demands_any, List.prefix_nil] at hsat
    have hkeys : s.wantedOrder.keys = [] := List.map_eq_nil_iff.mp hsat
    exact hres.trans (SortOrder.isAny_iff.mp (by simp [SortOrder.isAny, hkeys])).symm
  · exact hres

theorem residualFilter_of_all (h : s.filter = .all) : s.residualFilter = s.wantedFilter := by
  rcases s.residualFilter_cases with ⟨hres, hw | hw⟩ | hres
  · exact hres.trans hw.symm
  · rw [h] at hw
    exact hres.trans (Filter.eq_all_of_same hw).symm
  · exact hres

/-- If nothing is left to be filtered, the rows are those wanted. -/
theorem Honest.kept (h : s.Honest schema o f) (hf : s.residualFilter.isAll) :
    Fulfils schema s.order f (s.rows ()).flow := by
  refine h.rows.filtered fun r hr => ?_
  have hkept := h.rows.kept r hr
  rcases s.residualFilter_cases with ⟨-, hw | hw⟩ | hw
  · have hall : f = .all := h.wantedFilter.symm.trans hw
    rw [hall, Filter.keeps_all]
  · rcases h.filter with hs | hs
    · rwa [← hs]
    · rw [hs] at hw
      have hall : f = .all := h.wantedFilter.symm.trans (Filter.eq_all_of_same hw)
      rw [hall, Filter.keeps_all]
  · have hall : f = .all := by
      rw [← h.wantedFilter, ← hw]
      exact Filter.eq_all_of_isAll hf
    rw [hall, Filter.keeps_all]

/-- If nothing is left to be sorted, the order on record satisfies the order wanted. -/
theorem satisfied_of_residualOrder (h : s.residualOrder.isAny) :
    s.wantedOrder.demands <+: s.order.demands := by
  rcases s.residualOrder_cases with ⟨-, hs⟩ | hs
  · exact SortOrder.satisfiedBy_iff.mp hs
  · rw [← hs, SortOrder.isAny_iff.mp h]
    exact List.nil_prefix

end RowStream

namespace Dataset

/-- A dataset all of whose streams are honest. -/
def Honest (d : Dataset) : Prop :=
  ∀ o f columns s, (d.read o f columns).outcome = .ok s → s.Honest d.schema o f

variable {d : Dataset} {o : SortOrder} {f : Filter} {policy : Policy} {s t : RowStream}

/-- After its filter is settled, a stream has the rows wanted, in the order on its record. -/
theorem settleFilter_fulfils (hs : s.Honest d.schema o f)
    (h : (d.settleFilter policy s).outcome = .ok t) :
    t.schema = d.schema ∧ t.wantedOrder = o ∧ Fulfils d.schema t.order f (t.rows ()).flow := by
  unfold settleFilter at h
  split at h
  · rename_i hall
    cases h
    exact ⟨hs.laid, hs.wantedOrder, hs.kept hall⟩
  · rename_i hall
    split at h
    · cases h
      have hres : s.residualFilter = f := by
        rcases s.residualFilter_cases with ⟨hr, -⟩ | hr
        · simp [hr, Filter.isAll] at hall
        · rw [hr, hs.wantedFilter]
      rw [RowStream.applyFilter, if_neg hall, hres]
      have hsub := Rows.flow_filterAfter_sublist f [] (s.rows ())
      have hkept := hs.rows.sublist hsub
      exact ⟨hs.laid, hs.wantedOrder,
        hkept.filtered fun r hr => Rows.keeps_of_mem_flow_filterAfter hr⟩
    · cases h

theorem settleFilter_of_isAll (h : s.residualFilter.isAll) : d.settleFilter policy s = .ok s := by
  rw [settleFilter, if_pos h]

theorem settleFilter_of_unapplied (hf : s.filter = .all) (hw : ¬s.wantedFilter.isAll)
    (hp : policy.filters) : d.settleFilter policy s = .ok { s with
      rows := fun _ => (s.rows ()).filter s.wantedFilter
      filter := s.wantedFilter } := by
  have hres : s.residualFilter = s.wantedFilter := by
    rcases s.residualFilter_cases with ⟨-, hall | hall⟩ | hres
    · simp [hall, Filter.isAll] at hw
    · rw [hf] at hall
      simp [Filter.eq_all_of_same hall, Filter.isAll] at hw
    · exact hres
  rw [settleFilter, hres, if_neg hw, if_pos hp, RowStream.applyFilter, if_neg hw]
  simp

theorem settleOrder_of_isAny (h : s.residualOrder.isAny) : d.settleOrder policy o s = .ok s := by
  rw [settleOrder, if_pos h]

theorem settleOrder_of_sorts {wanted p : SortOrder} (h : ¬s.residualOrder.isAny)
    (hs : policy.sorts) (hp : s.residualOrder.onto s.schema = .ok p) :
    d.settleOrder policy wanted s = sortStream policy.capacity wanted p s := by
  rw [settleOrder, if_neg h, if_pos hs, hp]

theorem settleOrder_of_not_sorts {wanted : SortOrder} (h : ¬s.residualOrder.isAny)
    (hs : ¬policy.sorts) : (d.settleOrder policy wanted s).outcome =
      .error (s.pending.onto (.unsupported (.order (.source d.schema) s.residualOrder))) := by
  rw [settleOrder, if_neg h, if_neg hs]
  rfl

/-- The rows of a stream sorted. -/
def sorted (wanted order : SortOrder) (s : RowStream) : RowStream :=
  ((RowStream.ofRows s.schema fun _ => .ofRows (order.sort (s.rows ()).collect.rows)).wanted
    wanted s.wantedFilter).applied order s.filter

@[simp] theorem release_sorted (wanted order : SortOrder) (s : RowStream) :
    (sorted wanted order s).release = none := rfl

theorem sortStream_fits {capacity : Nat} {wanted : SortOrder}
    (hf : (s.rows ()).collect.failure = none) (hc : s.pending.failure = none)
    (h : (s.rows ()).collect.rows.length ≤ capacity) :
    (sortStream capacity wanted o s).outcome = .ok (sorted wanted o s) := by
  unfold sortStream
  simp only [SortBuffer.fill_of_le h, hf, hc]
  rfl

theorem sortStream_overflow {capacity : Nat} {wanted : SortOrder}
    (hc : s.pending.failure = none) (h : capacity < (s.rows ()).collect.rows.length) :
    (sortStream capacity wanted o s).outcome =
      .error (.unsupported (.buffer o capacity)) := by
  unfold sortStream
  simp only [SortBuffer.fill_of_lt h, Release.onto, hc]

theorem sortStream_eq_ok {capacity : Nat} {wanted : SortOrder}
    (h : (sortStream capacity wanted o s).outcome = .ok t) :
    t.schema = s.schema ∧ t.rows () = .ofRows (o.sort (s.rows ()).collect.rows) := by
  unfold sortStream at h
  simp only at h
  split at h
  · cases h
  · cases h
  · rename_i hfilled hpending
    cases h
    rw [SortBuffer.buffer_of_failure_eq_none hfilled]
    exact ⟨rfl, rfl⟩

theorem settleOrder_fulfils (hs : s.schema = d.schema) (hw : s.wantedOrder = o)
    (hrows : Fulfils d.schema s.order f (s.rows ()).flow)
    (h : (d.settleOrder policy o s).outcome = .ok t) :
    t.schema = d.schema ∧ Fulfils d.schema o f (t.rows ()).flow := by
  unfold settleOrder at h
  split at h
  · rename_i hany
    cases h
    have hprefix := RowStream.satisfied_of_residualOrder hany
    exact ⟨hs, hrows.ordered (hw ▸ hprefix)⟩
  · rename_i hany
    have hres : s.residualOrder = o := by
      rcases s.residualOrder_cases with ⟨hr, -⟩ | hr
      · simp [hr, SortOrder.isAny, SortOrder.any] at hany
      · rw [hr, hw]
    rw [hres] at h
    split at h
    · split at h
      · cases h
      · rename_i order honto
        obtain ⟨hschema, hsorted⟩ := sortStream_eq_ok h
        obtain ⟨hdemands, hcolumns⟩ := SortOrder.onto_spec honto
        have hcovered := names_of_keys (hs ▸ hcolumns)
        have hcollected := hrows.sublist (s.rows ()).collect_rows_prefix_flow.sublist
        refine ⟨hschema.trans hs, ?_⟩
        rw [hsorted, Rows.flow_ofRows]
        exact (hcollected.sort hcovered).ordered (hdemands ▸ List.prefix_rfl)
    · cases h

theorem Honest.request_fulfils (hd : d.Honest) {columns : List String}
    (h : (d.request o f columns policy).outcome = .ok t) :
    t.schema = d.schema ∧ Fulfils d.schema o f (t.rows ()).flow := by
  obtain ⟨u, hu, horder⟩ := Recorded.andThen_eq_ok.mp h
  obtain ⟨s, hs, hfilter⟩ := Recorded.andThen_eq_ok.mp hu
  obtain ⟨hschema, hwanted, hrows⟩ := settleFilter_fulfils (hd o f columns s hs) hfilter
  exact settleOrder_fulfils hschema hwanted hrows horder

end Dataset

end DatasetAlgebra
