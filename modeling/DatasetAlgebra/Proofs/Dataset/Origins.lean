import DatasetAlgebra.Proofs.Dataset.Tables

/-!
Where rows come from. Neither a filter nor a request makes up rows: whatever is given when a table
is asked for rows, behind an end or a failure too, is a row of the table.
-/
namespace DatasetAlgebra

namespace Rows

/-- All rows that are given, also those behind an end or a failure. -/
def given : Rows → List Row
  | .ended _ => []
  | .poll p rest =>
    match p.item with
    | some (.ok r) => r :: (rest ()).given
    | some (.error _) => (rest ()).given
    | none => (rest ()).given

@[simp] theorem given_ended (e : Ending) : (ended e).given = [] := rfl
@[simp] theorem given_poll_none (es : List Event) (rest : Unit → Rows) :
    (poll ⟨es, none⟩ rest).given = (rest ()).given := rfl
@[simp] theorem given_poll_error (es : List Event) (e : Error) (rest : Unit → Rows) :
    (poll ⟨es, some (.error e)⟩ rest).given = (rest ()).given := rfl
@[simp] theorem given_poll_ok (es : List Event) (r : Row) (rest : Unit → Rows) :
    (poll ⟨es, some (.ok r)⟩ rest).given = r :: (rest ()).given := rfl

@[simp] theorem given_prepend (rows : List Row) (rest : Delayed Rows) :
    (prepend (rows.map fun r => ⟨[], some (.ok r)⟩) rest).given = rows ++ (rest ()).given := by
  induction rows with
  | nil => rfl
  | cons r rows ih => simp [prepend, ih]

@[simp] theorem given_ofRows (rows : List Row) : (ofRows rows).given = rows := by
  simp [ofRows, ofItems, empty, Function.comp_def]

theorem given_map (f : Row → Row) (r : Rows) : (r.map f).given = r.given.map f := by
  induction r with
  | ended e => rfl
  | poll p rest ih =>
    obtain ⟨es, item⟩ := p
    match item with
    | none => exact ih ()
    | some (.error e) => exact ih ()
    | some (.ok r) => exact congrArg (f r :: ·) (ih ())

theorem flow_sublist_given (r : Rows) : r.flow.Sublist r.given := by
  induction r with
  | ended e => exact .refl _
  | poll p rest ih =>
    obtain ⟨es, item⟩ := p
    match item with
    | none => exact ih ()
    | some (.error e) => exact List.nil_sublist _
    | some (.ok r) => exact (ih ()).cons_cons r

theorem given_filterAfter_sublist (f : Filter) (es : List Event) (r : Rows) :
    (filterAfter f es r).given.Sublist r.given := by
  induction r generalizing es with
  | ended e => exact .refl _
  | poll p rest ih =>
    obtain ⟨ps, item⟩ := p
    match item with
    | none => exact ih () []
    | some (.error e) => exact ih () []
    | some (.ok r) =>
      rw [given_poll_ok]
      unfold filterAfter
      simp only
      split
      · exact (ih () []).cons_cons r
      · exact (ih () _).cons r
      · exact (ih () []).cons r

theorem collect_sublist_given (r : Rows) : r.collect.rows.Sublist r.given :=
  r.collect_rows_prefix_flow.sublist.trans r.flow_sublist_given

theorem mem_given_of_mem_drain {r : Rows} {x : Row} (h : .ok x ∈ r.drain.items) : x ∈ r.given := by
  induction r with
  | ended e => simp [drain] at h
  | poll p rest ih =>
    obtain ⟨es, item⟩ := p
    rcases item with _ | e | r
    · simp [drain] at h
    · exact ih () (by simpa [drain] using h)
    · rcases List.mem_cons.mp h with hx | h
      · cases hx
        exact List.mem_cons_self
      · exact List.mem_cons_of_mem r (ih () h)

end Rows

theorem RowStream.mem_given_of_mem_drain {s : RowStream} {x : Row} (h : .ok x ∈ s.drain.2.1) :
    x ∈ (s.rows ()).given := by
  unfold drain at h
  split at h
  · simp at h
  · rcases List.mem_append.mp h with h | h
    · exact Rows.mem_given_of_mem_drain h
    · cases hf : s.pending.failure <;> simp [hf] at h

theorem Feed.given_rowsAfter (seen : List Event) (f : Feed (List Row)) :
    (f.rowsAfter seen).given = f.items.flatten := by
  induction f generalizing seen with
  | stop es failure => cases failure <;> rfl
  | item es batch rest ih =>
    cases batch with
    | nil => simpa [rowsAfter] using ih () _
    | cons r rows => simp [rowsAfter, ih]

namespace Dataset

variable {d : Dataset} {o : SortOrder} {f : Filter} {policy : Policy} {s t : RowStream}

theorem settleFilter_given (h : (d.settleFilter policy s).outcome = .ok t) :
    (t.rows ()).given ⊆ (s.rows ()).given := by
  unfold settleFilter at h
  split at h
  · cases h
    exact List.Subset.refl _
  · rename_i hall
    split at h
    · cases h
      rw [RowStream.applyFilter, if_neg hall]
      exact (Rows.given_filterAfter_sublist _ [] (s.rows ())).subset
    · cases h

theorem settleOrder_given (h : (d.settleOrder policy o s).outcome = .ok t) :
    (t.rows ()).given ⊆ (s.rows ()).given := by
  unfold settleOrder at h
  split at h
  · cases h
    exact List.Subset.refl _
  · split at h
    · split at h
      · cases h
      · rename_i order _
        rw [(sortStream_eq_ok h).2, Rows.given_ofRows]
        exact List.Subset.trans (order.sort_perm _).subset (s.rows ()).collect_sublist_given.subset
    · cases h

theorem request_given {columns : List String}
    (h : (d.request o f columns policy).outcome = .ok t) :
    ∃ s, (d.read o f columns).outcome = .ok s ∧ (t.rows ()).given ⊆ (s.rows ()).given := by
  obtain ⟨u, hu, horder⟩ := Recorded.andThen_eq_ok.mp h
  obtain ⟨s, hs, hfilter⟩ := Recorded.andThen_eq_ok.mp hu
  exact ⟨s, hs, List.Subset.trans (settleOrder_given horder) (settleFilter_given hfilter)⟩

end Dataset

namespace Table

variable {t : Table} {o p : SortOrder} {f : Filter} {columns : List String}

theorem select_subset {rows : List Row} (h : t.select p f = .ok rows) : rows ⊆ t.rows := by
  unfold select at h
  split at h
  · cases h
    exact List.Subset.refl _
  · obtain ⟨ks, hk, rfl⟩ := map_eq_ok.mp h
    exact List.Subset.trans (p.sort_perm ks).subset (kept_ok hk).1.subset

theorem request_given {policy : Policy} {s : RowStream}
    (h : (t.toDataset.request o f columns policy).outcome = .ok s) :
    ∀ r ∈ (s.rows ()).given, r ∈ t.rows := by
  obtain ⟨u, (hread : (t.read o f columns).outcome = .ok u), hsub⟩ := Dataset.request_given h
  obtain ⟨applied, -, rows, hrows, rfl⟩ := read_eq_ok.mp hread
  rw [rows_stream, Rows.given_ofRows] at hsub
  exact fun r hr => select_subset hrows (hsub hr)

end Table
end DatasetAlgebra
