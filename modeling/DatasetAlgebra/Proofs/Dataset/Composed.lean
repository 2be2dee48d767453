import DatasetAlgebra.Proofs.Aggregation.Honest
import DatasetAlgebra.Proofs.Dataset.Tables
import DatasetAlgebra.Proofs.Join.Honest

/-!
Datasets composed by joins and aggregations, nested in any way and each under a policy of its own.
They are honest if the datasets at the leaves are, and tables of rows that conform are.
-/
namespace DatasetAlgebra

/-- Datasets composed of others that have some property. -/
inductive Composed (leaf : Dataset → Prop) : Dataset → Prop
  | leaf {d : Dataset} (h : leaf d) : Composed leaf d
  | join {kind : JoinKind} {datasets : List (String × Dataset)} {names : List String} {j : Join}
      (hj : Join.on kind datasets names = .ok j) (policy : Policy)
      (h : ∀ d ∈ datasets, Composed leaf d.2) : Composed leaf (j.withPolicy policy).toDataset
  | aggregation {child : Dataset} {names : List String} {measure : String} {r : Reducer}
      {a : Aggregation} (ha : Aggregation.of child names measure r = .ok a) (policy : Policy)
      (h : Composed leaf child) : Composed leaf (a.withPolicy policy).toDataset

namespace Composed

variable {leaf : Dataset → Prop} {d : Dataset}

theorem honest (hleaf : ∀ d, leaf d → d.Honest) (h : Composed leaf d) : d.Honest := by
  induction h with
  | leaf h => exact hleaf _ h
  | join hj policy _ ih =>
    obtain ⟨hwired, -, hdatasets, -⟩ := Join.wired_of_on hj
    refine (hwired.withPolicy policy).honest fun d hd => ih d ?_
    rwa [← hdatasets]
  | aggregation ha policy _ ih =>
    obtain ⟨hwired, hchild, -⟩ := Aggregation.wired_of_of ha
    exact (hwired.withPolicy policy).honest (hchild ▸ ih)

end Composed

/-- A table whose values have the types of their columns. -/
def ConformingTable (d : Dataset) : Prop :=
  ∃ t : Table, (∀ r ∈ t.rows, r.conforms) ∧ t.toDataset = d

namespace Composed

/-- Up to the first failure, what is read of a dataset composed of tables is as the stream has it on
record, and what the stream does not leave to the reader is done. -/
theorem read_as_recorded (hd : Composed ConformingTable d) {o : SortOrder} {f : Filter}
    {columns : List String} {s : RowStream} (h : (d.read o f columns).outcome = .ok s)
    {rows : List Row} (hrows : rows.map .ok <+: s.drain.2.1) :
    (∀ r ∈ rows, r.schema = d.schema ∧ r.conforms ∧ s.filter.keeps r = .ok true) ∧
      rows.Pairwise (fun a b => s.order.compare a b ≠ .gt) ∧
      (s.residualOrder.isAny → o.satisfiedBy s.order) ∧
      (s.residualFilter.isAll → ∀ r ∈ rows, f.keeps r = .ok true) := by
  have hhonest : s.Honest d.schema o f := by
    refine hd.honest (fun d hd => ?_) o f columns s h
    obtain ⟨t, hconforms, rfl⟩ := hd
    exact t.honest hconforms
  have hsub := (RowStream.prefix_flow_of_drain hrows).sublist
  have hrecord := hhonest.rows.sublist hsub
  refine ⟨fun r hr => ⟨hrecord.bound r hr, hrecord.conforms r hr, hrecord.kept r hr⟩,
    hrecord.ascends, fun hany => ?_, fun hall => ?_⟩
  · rw [SortOrder.satisfiedBy_iff, ← hhonest.wantedOrder]
    exact RowStream.satisfied_of_residualOrder hany
  · exact ((hhonest.kept hall).sublist hsub).kept

/-- The greatest count by identifier, over two tables that are joined first. -/
theorem read_as_recorded_counts :
    ∃ (j : Join) (a : Aggregation) (s : RowStream),
      Join.on .outer [("a", (Table.counts [(2, 20), (1, 10)]).toDataset),
        ("b", (Table.counts [(2, 5)]).toDataset)] ["id"] = .ok j ∧
      Aggregation.of (j.withPolicy ⟨true, 2, true⟩).toDataset ["id"] "n" .max = .ok a ∧
      ((a.withPolicy .standard).toDataset.read .any .all []).outcome = .ok s ∧
      s.drain.2.1 = [Table.countRow 1 10, Table.countRow 2 5].map .ok ∧
      [Table.countRow 1 10, Table.countRow 2 5].Pairwise (fun a b => s.order.compare a b ≠ .gt) := by
  obtain ⟨j, hj⟩ : ∃ j, Join.on .outer [("a", (Table.counts [(2, 20), (1, 10)]).toDataset),
    ("b", (Table.counts [(2, 5)]).toDataset)] ["id"] = .ok j := ⟨_, rfl⟩
  have hcounts (rows : List (Int64 × Int64)) (h : ∀ r ∈ (Table.counts rows).rows, r.conforms) :
      Composed ConformingTable (Table.counts rows).toDataset := .leaf ⟨_, h, rfl⟩
  have hjoin : Composed ConformingTable (j.withPolicy ⟨true, 2, true⟩).toDataset := by
    refine .join hj _ fun d hd => ?_
    rcases List.mem_pair.mp hd with rfl | rfl <;> exact hcounts _ (by decide)
  obtain ⟨a, ha⟩ : ∃ a, Aggregation.of (j.withPolicy ⟨true, 2, true⟩).toDataset ["id"] "n" .max =
      .ok a := by
    cases hj
    exact ⟨_, rfl⟩
  obtain ⟨s, hs, hdrain⟩ : ∃ s, ((a.withPolicy .standard).toDataset.read .any .all []).outcome =
      .ok s ∧ s.drain.2.1 = [Table.countRow 1 10, Table.countRow 2 5].map .ok := by
    cases hj
    cases ha
    exact ⟨_, by with_unfolding_all rfl, by with_unfolding_all rfl⟩
  have hrows : [Table.countRow 1 10, Table.countRow 2 5].map .ok <+: s.drain.2.1 :=
    hdrain ▸ List.prefix_rfl
  have hread := read_as_recorded (.aggregation ha .standard hjoin) hs hrows
  exact ⟨j, a, s, hj, ha, hs, hdrain, hread.2.1⟩

end Composed
end DatasetAlgebra
