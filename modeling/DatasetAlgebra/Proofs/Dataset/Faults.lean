import DatasetAlgebra.Proofs.Dataset.Tables

/-!
What a request to a table can fail with: it is refused, or a hook fails that is called when the
table is closed. Whichever comes first is the primary failure, and the other is suppressed onto it.
-/
namespace DatasetAlgebra

/-- A failure that at the bottom is a refusal, or one of a hook. -/
def Error.Excused (hook : Error → Prop) (e : Error) : Prop :=
  e.isUnsupported ∨ ∃ c, hook c ∧ e.primary = c.primary

section

variable {hook : Error → Prop} {e : Error}

theorem Error.excused_unsupported (hook : Error → Prop) (why : Refusal) :
    (Error.unsupported why).Excused hook := .inl rfl

theorem Error.excused_hook (h : hook e) : e.Excused hook := .inr ⟨e, h, rfl⟩

theorem Error.Excused.of_primary {e' : Error} (h : e.Excused hook) (hp : e'.primary = e.primary) :
    e'.Excused hook := by
  rw [Excused, isUnsupported, hp]
  exact h

/-- What a release fails with on account of a failure does not change what that is. -/
theorem Error.Excused.onto (h : e.Excused hook) (r : Release) : (r.onto e).Excused hook := by
  unfold Release.onto
  split
  · exact h
  · exact h.of_primary (Error.primary_absorb e _)

theorem Error.Excused.mono {hook' : Error → Prop} (h : e.Excused hook)
    (hh : ∀ c, hook c → hook' c) : e.Excused hook' :=
  h.imp_right fun ⟨c, hc, hp⟩ => ⟨c, hh c hc, hp⟩

end

theorem Dataset.abort_ends {α : Type} {good : α → Prop} (hook : Error → Prop) (s : RowStream)
    (why : Refusal) : (abort s (.unsupported why) : Recorded α).Ends good (Error.Excused hook) :=
  (Error.excused_unsupported hook why).onto s.pending

namespace Table

/-- What closing a stream of the table may fail with. -/
def Fails (t : Table) (e : Error) : Prop := ∃ r, t.release = some r ∧ r.failure = some e

/-- A stream of rows of a table that fails at its end or not at all. -/
structure Calm (t : Table) (o : SortOrder) (f : Filter) (s : RowStream) : Prop where
  fresh : s.finished = false
  laid : s.schema = t.schema
  wantedOrder : s.wantedOrder = o
  wantedFilter : s.wantedFilter = f
  rows : ∃ rows ⊆ t.rows, (s.rows ()).Gives rows
  release : ∀ r e, s.release = some r → r.failure = some e → t.Fails e

variable {t : Table} {o : SortOrder} {f : Filter} {policy : Policy} {s : RowStream}

theorem Calm.pending (h : t.Calm o f s) {e : Error} (he : s.pending.failure = some e) :
    t.Fails e := by
  cases hr : s.release with
  | none => simp [RowStream.pending, hr, Release.nothing] at he
  | some r =>
    rw [RowStream.pending, hr] at he
    exact h.release r e hr he

theorem read_calm (hd : f.Decides t.rows) (ho : ∀ n ∈ o.columns, n ∈ t.schema.names)
    (columns : List String) :
    (t.toDataset.read o f columns).Ends (t.Calm o f) (Error.Excused t.Fails) := by
  obtain ⟨p, hp⟩ : ∃ p, (if t.sorts then o.onto t.schema else .ok .any) = .ok p := by
    split
    · exact SortOrder.onto_ok ho
    · exact ⟨.any, rfl⟩
  refine Recorded.ends_of_ok (read_ok hd hp columns) ⟨by simp, by simp, by simp, by simp, ?_, ?_⟩
  · refine ⟨_, ?_, rows_stream .. ▸ Rows.gives_ofRows _⟩
    exact fun r hr => List.mem_of_mem_filter ((p.sort_perm _).subset hr)
  · rw [release_stream]
    exact fun r e hr he => ⟨r, hr, he⟩

theorem settleFilter_calm (hd : f.Decides t.rows) (hs : t.Calm o f s) :
    (t.toDataset.settleFilter policy s).Ends (t.Calm o f) (Error.Excused t.Fails) := by
  unfold Dataset.settleFilter
  split
  · exact hs
  · rename_i hall
    split
    · have hres : s.residualFilter = f := by
        rcases s.residualFilter_cases with ⟨hr, -⟩ | hr
        · simp [hr, Filter.isAll] at hall
        · rw [hr, hs.wantedFilter]
      obtain ⟨rows, hsub, hgives⟩ := hs.rows
      have hkept : ((s.rows ()).filter f).Gives (rows.filter f.passes) :=
        hgives.filter (hd.subset hsub)
      rw [RowStream.applyFilter, if_neg hall, hres]
      refine ⟨hs.fresh, hs.laid, hs.wantedOrder, hs.wantedFilter, ⟨_, ?_, hkept⟩, hs.release⟩
      exact fun r hr => hsub (List.mem_of_mem_filter hr)
    · exact Dataset.abort_ends t.Fails s _

theorem sortStream_calm (hs : t.Calm o f s) (capacity : Nat) (p : SortOrder) :
    (Dataset.sortStream capacity o p s).Ends (t.Calm o f) (Error.Excused t.Fails) := by
  obtain ⟨rows, hsub, hgives⟩ := hs.rows
  unfold Dataset.sortStream
  simp only
  split
  · rename_i e hfill
    have hover : e = .unsupported (.buffer p capacity) := by
      by_cases hfits : (s.rows ()).collect.rows.length ≤ capacity
      · rw [SortBuffer.fill_of_le hfits, hgives.failure] at hfill
        cases hfill
      · rw [SortBuffer.fill_of_lt (Nat.lt_of_not_le hfits)] at hfill
        exact (Option.some.inj hfill).symm
    exact hover ▸ (Error.excused_unsupported t.Fails _).onto s.pending
  · rename_i e _ hpending
    exact Error.excused_hook (hs.pending hpending)
  · rename_i hfilled _
    have hbuffer := SortBuffer.buffer_of_failure_eq_none hfilled
    refine ⟨rfl, hs.laid, rfl, hs.wantedFilter, ⟨_, ?_, Rows.gives_ofRows _⟩, fun r e hr => ?_⟩
    · intro r hr
      have hmem := (SortOrder.sort_perm _ _).subset hr
      rw [hbuffer] at hmem
      exact hsub (hgives.collected ▸ hmem)
    · cases hr

theorem settleOrder_calm (ho : ∀ n ∈ o.columns, n ∈ t.schema.names) (hs : t.Calm o f s) :
    (t.toDataset.settleOrder policy o s).Ends (t.Calm o f) (Error.Excused t.Fails) := by
  unfold Dataset.settleOrder
  split
  · exact hs
  · rename_i hany
    have hres : s.residualOrder = o := by
      rcases s.residualOrder_cases with ⟨hr, -⟩ | hr
      · simp [hr, SortOrder.isAny, SortOrder.any] at hany
      · rw [hr, hs.wantedOrder]
    obtain ⟨p, hp⟩ := SortOrder.onto_ok ho
    rw [hres, hs.laid, hp]
    split
    · exact sortStream_calm hs policy.capacity p
    · exact Dataset.abort_ends t.Fails s _

/-- A request to a table, in an order of its columns through a filter that decides its rows, gives
rows that fail only when the table is closed, or is refused, or fails to close. -/
theorem request_calm (hd : f.Decides t.rows) (ho : ∀ n ∈ o.columns, n ∈ t.schema.names)
    (columns : List String) (policy : Policy) :
    (t.toDataset.request o f columns policy).Ends (t.Calm o f) (Error.Excused t.Fails) := by
  have hfiltered : ((t.toDataset.read o f columns).andThen (t.toDataset.settleFilter policy)).Ends
      (t.Calm o f) (Error.Excused t.Fails) :=
    (read_calm hd ho columns).andThen fun _ hs => settleFilter_calm hd hs
  exact hfiltered.andThen fun _ hs => settleOrder_calm ho hs

/-- What a stream of the table comes to in the end: what closing it fails with, if it does. -/
def closing (t : Table) : Option Error := t.release.bind Release.failure

theorem pending_failure {s : RowStream} (h : s.release = t.release) :
    s.pending.failure = t.closing := by
  rw [RowStream.pending, h, closing]
  cases t.release <;> rfl

theorem sortStream_eq {capacity : Nat} {wanted p : SortOrder} {rows : List Row}
    (hrows : (s.rows ()).Gives rows) (hfits : rows.length ≤ capacity) :
    (Dataset.sortStream capacity wanted p s).outcome =
      match s.pending.failure with
      | some e => .error e
      | none => .ok (Dataset.sorted wanted p s) := by
  split
  · rename_i e hpending
    have hfill := SortBuffer.fill_of_le (o := p) (hrows.collected.symm ▸ hfits)
    unfold Dataset.sortStream
    simp only [hfill, hrows.failure, hpending]
  · rename_i hpending
    exact Dataset.sortStream_fits hrows.failure hpending (hrows.collected.symm ▸ hfits)

theorem request_opened {p : SortOrder}
    (h : (if t.sorts then o.onto t.schema else .ok .any) = .ok p) (columns : List String) :
    (t.toDataset.request o .all columns policy).outcome =
      (t.toDataset.settleOrder policy o (t.stream o .all p .all (p.sort t.rows))).outcome := by
  have hown : t.ownFilter .all = .all := by simp [ownFilter]
  have hread := read_ok (f := .all) (Filter.decides_all t.rows) h columns
  rw [hown, Filter.filter_passes_all] at hread
  refine Recorded.outcome_andThen ?_ _
  rw [Recorded.outcome_andThen hread, Dataset.settleFilter_of_isAll]
  · rfl
  · rw [RowStream.residualFilter_of_applied (by simp)]
    rfl

/-- All rows of a table that can be sorted are given in any order of its columns. If the reader has
to sort them, the table is closed first; otherwise behind them. -/
theorem request_all (hs : t.Sortable policy) (ho : ∀ n ∈ o.columns, n ∈ t.schema.names)
    (columns : List String) :
    (¬(t.sorts ∨ o.isAny) → ∀ e, t.closing = some e →
      (t.toDataset.request o .all columns policy).outcome = .error e) ∧
    (t.sorts ∨ o.isAny ∨ t.closing = none →
      ∃ s, (t.toDataset.request o .all columns policy).outcome = .ok s ∧ s.schema = t.schema ∧
        (s.rows ()).Gives (o.sort t.rows) ∧ s.release.bind Release.failure = t.closing) := by
  obtain ⟨q, hq⟩ := SortOrder.onto_ok ho
  have hdemands := (SortOrder.onto_spec hq).1
  by_cases hsorts : t.sorts
  · refine ⟨fun h => absurd (.inl hsorts) h, fun _ => ⟨t.stream o .all q .all (q.sort t.rows), ?_,
      by simp, ?_, by rw [release_stream]; rfl⟩⟩
    · rw [request_opened (by rwa [if_pos hsorts]), Dataset.settleOrder_of_isAny]
      · rfl
      · rw [RowStream.residualOrder_of_prefix (by simp [hdemands])]
        rfl
    · rw [rows_stream, SortOrder.sort_congr hdemands]
      exact Rows.gives_ofRows _
  · let s := t.stream o .all .any .all t.rows
    have hgives : (s.rows ()).Gives t.rows := rows_stream .. ▸ Rows.gives_ofRows _
    have hrequest : (t.toDataset.request o .all columns policy).outcome =
        (t.toDataset.settleOrder policy o s).outcome := by
      rw [request_opened (if_neg hsorts), SortOrder.sort_any]
    have hres : s.residualOrder = o :=
      (RowStream.residualOrder_of_any (by simp [s])).trans (by simp [s])
    have hpending : s.pending.failure = t.closing := pending_failure (by simp [s])
    rw [hrequest]
    by_cases hany : o.isAny
    · refine ⟨fun h => absurd (.inr hany) h, fun _ => ⟨s, ?_, by simp [s], ?_, ?_⟩⟩
      · rw [Dataset.settleOrder_of_isAny (hres ▸ hany)]
        rfl
      · rwa [SortOrder.isAny_iff.mp hany, SortOrder.sort_any]
      · simp [s, closing]
    · obtain ⟨hsort, hfits⟩ := hs.resolve_left hsorts
      have honto : s.residualOrder.onto s.schema = .ok q := by
        rw [hres, schema_stream]
        exact hq
      rw [Dataset.settleOrder_of_sorts (hres ▸ hany) hsort honto, sortStream_eq hgives hfits,
        hpending]
      refine ⟨fun _ e he => by rw [he], fun h => ?_⟩
      have hclosing : t.closing = none := (h.resolve_left hsorts).resolve_left hany
      refine ⟨Dataset.sorted o q s, by rw [hclosing], by simp [s, Dataset.sorted, RowStream.ofRows,
        RowStream.wanted, RowStream.applied], ?_, by rw [hclosing]; rfl⟩
      rw [← SortOrder.sort_congr hdemands, ← hgives.collected]
      exact Rows.gives_ofRows _

end Table
end DatasetAlgebra
