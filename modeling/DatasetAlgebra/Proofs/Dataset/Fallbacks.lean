import DatasetAlgebra.Proofs.Dataset.Tables

/-!
Whether a table sorts and filters by itself makes no difference to who asks for its rows, under a
policy that does both in its place. Only what has to be held in memory for sorting is limited.
-/
namespace DatasetAlgebra
namespace Table

variable {t : Table} {o : SortOrder} {f : Filter}

/-- A request to a table gives the rows that pass, stably sorted, and leaves nothing. It fails only
if the table does not sort and more rows pass than the policy has held. -/
theorem request_settles (policy : Policy) (columns : List String) (hc : t.ClosesWell)
    (hd : f.Decides t.rows) (ho : ∀ n ∈ o.columns, n ∈ t.schema.names) (hs : policy.sorts)
    (hf : policy.filters) :
    let kept := t.rows.filter f.passes
    let request := (t.toDataset.request o f columns policy).outcome
    Arranges o kept (o.sort kept) ∧
      (t.sorts ∨ o.isAny ∨ kept.length ≤ policy.capacity → ∃ s, request = .ok s ∧
        s.Answers ((o.sort kept).map .ok) ∧ s.residualOrder = .any ∧ s.residualFilter = .all) ∧
      (¬t.sorts ∧ ¬o.isAny ∧ policy.capacity < kept.length → ∃ p, o.onto t.schema = .ok p ∧
        request = .error (.unsupported (.buffer p policy.capacity))) := by
  intro kept request
  refine ⟨arranges_sort ((t.keep f).covers_rows ho), fun h => ?_, fun ⟨hsorts, hany, hover⟩ => ?_⟩
  · have hable : o.isAny ∨ (t.keep f).Sortable policy := by
      rcases h with hsorts | hany | hfits
      · exact .inr (.inl hsorts)
      · exact .inl hany
      · exact .inr (.inr ⟨hs, hfits⟩)
    obtain ⟨s, hrequest, hgives, hres⟩ := request_ok columns hc hd (.inr hf) hable ho
    exact ⟨s, hrequest, RowStream.answers_of_gives hgives.fresh hgives.rows hgives.pending, hres⟩
  · obtain ⟨p, hp⟩ := SortOrder.onto_ok ho
    rw [Bool.not_eq_true] at hsorts
    exact ⟨p, hp, request_overflow columns hc hd (.inr hf) hsorts hany hs hover hp⟩

/-- Two of three counts pass: a buffer for two rows sorts them, one for a single row does not. -/
theorem request_settles_counts :
    let t := counts [(2, 20), (3, 30), (1, 10)]
    let o := SortOrder.ascending countSchema.identifiers
    let f := Filter.compare "n" .lt (.ofInt64 25)
    (∃ s, (t.toDataset.request o f [] ⟨true, 2, true⟩).outcome = .ok s ∧
      s.Answers [.ok (countRow 1 10), .ok (countRow 2 20)] ∧
      s.residualOrder = .any ∧ s.residualFilter = .all) ∧
    (t.toDataset.request o f [] ⟨true, 1, true⟩).outcome = .error (.unsupported (.buffer o 1)) := by
  intro t o f
  have hd : f.Decides t.rows := by
    simp only [t, counts, List.map_cons, List.map_nil, Filter.Decides, List.forall_mem_cons]
    exact ⟨⟨true, rfl⟩, ⟨false, rfl⟩, ⟨true, rfl⟩, by simp⟩
  have ho : ∀ n ∈ o.columns, n ∈ t.schema.names := by decide
  have hc : t.ClosesWell := closesWell_counts _
  refine ⟨?_, ?_⟩
  · obtain ⟨-, hfits, -⟩ := request_settles ⟨true, 2, true⟩ [] hc hd ho rfl rfl
    exact hfits (.inr (.inr (by decide)))
  · obtain ⟨-, -, hover⟩ := request_settles ⟨true, 1, true⟩ [] hc hd ho rfl rfl
    obtain ⟨p, hp, herror⟩ := hover ⟨by decide, by decide, by decide⟩
    have hpo : p = o := by
      have honto : o.onto t.schema = .ok o := rfl
      rw [honto] at hp
      exact (Except.ok.inj hp).symm
    rw [herror, hpo]

end Table
end DatasetAlgebra
