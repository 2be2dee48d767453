import DatasetAlgebra.Dataset.Replay
import DatasetAlgebra.Proofs.Aggregation.Reordered
import DatasetAlgebra.Proofs.Dataset.Tables
import DatasetAlgebra.Proofs.Join.Reordered

/-!
What datasets announce to leave to their reader. It is worked out before anything is read, from the
request alone; what a stream does leave is read off the record it carries. Tables, joins and
aggregations deliver what they announce, and the latter two leave nothing undone: they refuse a
request that they would not do all of before they ask anyone for rows.
-/
namespace DatasetAlgebra
namespace Dataset

/-- What every stream of a dataset leaves to the reader is what the dataset announces. -/
structure Announces (d : Dataset) : Prop where
  order : ∀ {o f columns s}, (d.read o f columns).outcome = .ok s →
    s.residualOrder = d.unsupportedOrder o
  filter : ∀ {o f columns s}, (d.read o f columns).outcome = .ok s →
    s.residualFilter = d.unsupportedFilter f

/-- A dataset that refuses, before anything can be observed, each request that it announces not to
do all of. -/
def Refuses (d : Dataset) : Prop :=
  ∀ o f columns, ¬((d.unsupportedOrder o).isAny ∧ (d.unsupportedFilter f).isAll) →
    ∃ why, d.read o f columns = .fail (.unsupported why)

end Dataset

theorem Table.announces (t : Table) : t.toDataset.Announces where
  order {o f columns s} h := by
    change (t.read o f columns).outcome = .ok s at h
    obtain ⟨applied, happlied, rows, -, rfl⟩ := Table.read_eq_ok.mp h
    cases hsorts : t.sorts with
    | true =>
      simp only [hsorts, if_true] at happlied
      have hdemands := (SortOrder.onto_spec happlied).1
      rw [RowStream.residualOrder_of_prefix (by simp [hdemands])]
      simp [toDataset, hsorts]
    | false =>
      simp only [hsorts, Bool.false_eq_true, if_false, Except.ok.injEq] at happlied
      rw [RowStream.residualOrder_of_any (by simp [happlied])]
      simp [toDataset, hsorts]
  filter {o f columns s} h := by
    change (t.read o f columns).outcome = .ok s at h
    obtain ⟨applied, -, rows, -, rfl⟩ := Table.read_eq_ok.mp h
    cases hfilters : t.filters with
    | true =>
      rw [RowStream.residualFilter_of_applied (by simp [ownFilter, hfilters])]
      simp [toDataset, hfilters]
    | false =>
      rw [RowStream.residualFilter_of_all (by simp [ownFilter, hfilters])]
      simp [toDataset, hfilters]

/-- A join that is read leaves nothing: the order it requires extends the one that was asked for. -/
theorem Join.announces (j : Join) : j.toDataset.Announces where
  order {o f columns s} h := by
    obtain ⟨required, hr, -, joined, -, rfl⟩ := Join.read_eq_ok.mp h
    have hprefix := SortOrder.satisfiedBy_iff.mp (SortOrder.satisfiedBy_of_compatible hr)
    have hleft : j.toDataset.unsupportedOrder o = .any := by simp [toDataset, hr]
    exact (RowStream.residualOrder_of_prefix hprefix).trans hleft.symm
  filter {o f columns s} h := by
    obtain ⟨required, -, hf, joined, -, rfl⟩ := Join.read_eq_ok.mp h
    have hleft : j.toDataset.unsupportedFilter f = .all := by simp [toDataset, hf]
    exact (RowStream.residualFilter_of_applied rfl).trans hleft.symm

theorem Aggregation.announces (a : Aggregation) : a.toDataset.Announces where
  order {o f columns s} h := by
    obtain ⟨required, hr, -, _, -, _, -, hgroup⟩ := Aggregation.read_eq_ok.mp h
    obtain ⟨g, -, rfl⟩ := Aggregation.group_eq_ok.mp hgroup
    have hprefix := SortOrder.satisfiedBy_iff.mp (SortOrder.satisfiedBy_of_compatible hr)
    have hleft : a.toDataset.unsupportedOrder o = .any := by simp [toDataset, hr]
    exact (RowStream.residualOrder_of_prefix hprefix).trans hleft.symm
  filter {o f columns s} h := by
    obtain ⟨required, -, hf, _, -, _, -, hgroup⟩ := Aggregation.read_eq_ok.mp h
    obtain ⟨g, -, rfl⟩ := Aggregation.group_eq_ok.mp hgroup
    have hleft : a.toDataset.unsupportedFilter f = .all := by simp [toDataset, hf]
    exact (RowStream.residualFilter_of_applied rfl).trans hleft.symm

namespace Dataset

/-- Tables, joins and aggregations leave to the reader just what they announce to leave, whatever
datasets are joined or aggregated. What joins and aggregations announce they refuse, before anything
is opened. -/
theorem delivered_as_announced :
    (∀ t : Table, t.toDataset.Announces) ∧
    (∀ j : Join, j.toDataset.Announces ∧ j.toDataset.Refuses) ∧
    ∀ a : Aggregation, a.toDataset.Announces ∧ a.toDataset.Refuses :=
  ⟨Table.announces, fun j => ⟨j.announces, fun _ _ columns => Join.read_refused columns⟩,
    fun a => ⟨a.announces, fun _ _ columns => Aggregation.read_refused columns⟩⟩

/-- A table that neither sorts nor filters leaves the order and the filter. A join leaves nothing of
an order of its identifiers, and refuses one of measures with nothing seen. -/
theorem delivered_as_announced_counts :
    let byId := SortOrder.ascending Table.countSchema.identifiers
    let byCount := SortOrder.ascending Table.countSchema.measures
    let few := Filter.compare "n" .lt (.ofInt64 15)
    let source : Replay := ⟨"a", Table.countSchema, Table.countSchema, [], none, none, true, none,
      none, true⟩
    (∃ s, ((Table.counts [(2, 20), (1, 10)]).toDataset.read byCount few []).outcome = .ok s ∧
      s.residualOrder = byCount ∧ s.residualFilter = few) ∧
    ∃ j s why, Join.on .inner [("left", source.toDataset), ("right", source.toDataset)] ["id"] =
        .ok j ∧
      (j.toDataset.read byId .all []).outcome = .ok s ∧
      (j.toDataset.read byId .all []).log.length = 2 ∧ s.residualOrder = .any ∧
      j.toDataset.read byCount .all [] = .fail (.unsupported why) := by
  intro byId byCount few source
  obtain ⟨htable, hjoin, -⟩ := delivered_as_announced
  refine ⟨?_, ?_⟩
  · obtain ⟨s, hs⟩ : ∃ s, ((Table.counts [(2, 20), (1, 10)]).toDataset.read byCount few
        []).outcome = .ok s := ⟨_, rfl⟩
    exact ⟨s, hs, (htable _).order hs, (htable _).filter hs⟩
  · obtain ⟨j, s, hj, hs, hlog, htakes, hleaves⟩ : ∃ j s,
        Join.on .inner [("left", source.toDataset), ("right", source.toDataset)] ["id"] = .ok j ∧
        (j.toDataset.read byId .all []).outcome = .ok s ∧
        (j.toDataset.read byId .all []).log.length = 2 ∧
        j.toDataset.unsupportedOrder byId = .any ∧
        (j.toDataset.unsupportedOrder byCount).isAny = false :=
      ⟨_, _, rfl, by with_unfolding_all rfl, by with_unfolding_all rfl, by with_unfolding_all rfl,
        by with_unfolding_all rfl⟩
    obtain ⟨why, hwhy⟩ := (hjoin j).2 byCount .all [] (by simp [hleaves])
    exact ⟨j, s, why, hj, hs, hlog, ((hjoin j).1.order hs).trans htakes, hwhy⟩

end Dataset
end DatasetAlgebra
