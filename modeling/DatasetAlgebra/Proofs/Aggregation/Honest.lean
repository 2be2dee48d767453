import DatasetAlgebra.Proofs.Aggregation.Wiring
import DatasetAlgebra.Proofs.Filter.Mentions

/-!
An aggregation of an honest dataset is honest. The row of a group has the grouping values of the
row that opens the group, and so it passes the filter and stands in the order as that row does.
-/
namespace DatasetAlgebra

namespace Aggregation

variable {a : Aggregation} {required : SortOrder} {f : Filter}

theorem Orders.names_child (ho : a.Orders required) (ha : a.Wired) :
    ∀ n ∈ required.columns, n ∈ a.child.schema.names := names_of_keys (ha.key_mem ho)

theorem Orders.names (ho : a.Orders required) (ha : a.Wired) :
    ∀ n ∈ required.columns, n ∈ a.schema.names := by
  intro n hn
  obtain ⟨k, hk, rfl⟩ := List.mem_map.mp hn
  rw [Schema.names, ha.columns_eq, List.map_append, List.map_map, List.mem_append]
  exact .inl (List.mem_map.mpr ⟨k.column, ho.1 k hk, rfl⟩)

/-- Rows of groups are as asked for if those that open the groups are. -/
theorem Wired.heads_fulfil (ha : a.Wired) (ho : a.Orders required)
    (hf : f.refersOnlyTo a.groupNames) {firsts rows : List Row}
    (h : List.Forall₂ (a.Heads required) firsts rows)
    (hfirsts : Fulfils a.child.schema required f firsts) :
    Fulfils a.schema required f rows := by
  have hbound : ∀ x ∈ rows, x.schema = a.schema := fun x hx => by
    obtain ⟨r, -, hrx⟩ := exists_left_of_forall₂ h hx
    exact hrx.bound
  refine ⟨hbound, fun x hx => ?_, ?_, fun x hx => ?_⟩
  · obtain ⟨r, -, hrx⟩ := exists_left_of_forall₂ h hx
    exact hrx.conforms
  · have hkeys : firsts.map required.keyOf = rows.map required.keyOf := by
      rw [← List.forall₂_eq_eq_eq, List.forall₂_map_left_iff, List.forall₂_map_right_iff]
      exact h.imp fun _ _ hrx => hrx.key.symm
    have hsorted : required.Sorted rows := by
      have hfirst := hfirsts.sorted (ho.names_child ha)
      refine List.pairwise_map.mp (?_ : (rows.map required.keyOf).Pairwise fun k l =>
        (SortOrder.compareAlong required.keys k l).isLE)
      rw [← hkeys]
      exact List.pairwise_map.mpr hfirst
    refine (SortOrder.sorted_iff fun x hx => ?_).mp hsorted
    exact covers_of_schema (hbound x hx) (ho.names ha)
  · obtain ⟨r, hr, hrx⟩ := exists_left_of_forall₂ h hx
    rw [Filter.keeps_congr hf hrx.groups]
    exact hfirsts.kept r hr

theorem Wired.grouped_fulfil (ha : a.Wired) (ho : a.Orders required)
    (hf : f.refersOnlyTo a.groupNames) {g : Grouping} (hg : a.Groups required g) {rows : Rows}
    (h : Fulfils a.child.schema required f rows.flow) :
    Fulfils a.schema required f (g.rows rows).flow := by
  have hmeasured : ∀ r ∈ rows.flow,
      r.schema = a.child.schema ∧ (g.measured r).type = g.measureType := fun r hr => by
    rw [hg.measured_eq, hg.measureType]
    exact ⟨h.bound r hr, ha.type_measureOf (h.bound r hr) (h.conforms r hr)⟩
  obtain ⟨⟨firsts, hsub, hopens⟩, -⟩ := Grouping.flow_rowsFrom hg.reads hmeasured
  have hfirsts := h.sublist hsub
  refine ha.heads_fulfil ho hf ?_ hfirsts
  have hboth := (List.forall₂_and_left firsts _).mpr ⟨fun r hr =>
    And.intro (hfirsts.bound r hr) (hfirsts.conforms r hr), hopens⟩
  exact hboth.imp fun r x hrx => ha.heads ho hg hrx.1.1 hrx.1.2 hrx.2

theorem Wired.honest (ha : a.Wired) (hd : a.child.Honest) : a.toDataset.Honest := by
  intro order f columns s h
  obtain ⟨required, hr, hf, childOrder, honto, input, hinput, hgroup⟩ := read_eq_ok.mp h
  have ho := orders_of_compatible hr
  obtain ⟨hschema, hrows⟩ := hd.request_fulfils hinput
  obtain ⟨g, hg, rfl⟩ := group_eq_ok.mp hgroup
  rw [hschema] at hg
  obtain ⟨g', hg', hgroups⟩ := ha.grouping_ok ho
  cases hg.symm.trans hg'
  have hasked : Fulfils a.child.schema required f (input.rows ()).flow :=
    hrows.ordered ((SortOrder.onto_spec honto).1 ▸ List.prefix_rfl)
  exact ⟨rfl, rfl, rfl, .inl rfl, ho.names ha, ha.grouped_fulfil ho hf hgroups hasked⟩

end Aggregation

end DatasetAlgebra
