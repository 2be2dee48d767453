import DatasetAlgebra.Join.Basic
import DatasetAlgebra.Proofs.Dataset.Requests
import DatasetAlgebra.Proofs.Schema.Columns

/-!
How a join is wired: what building one checks, and what has to succeed for it to be read. The
identifiers are columns of every dataset, found there under their own name, and the schema has the
columns of all datasets.
-/
namespace DatasetAlgebra

namespace ColumnMap

theorem addSource_ok {m n : ColumnMap} {dataset : String} {s : Schema} {identifiers : List Column}
    (h : m.addSource dataset s identifiers = .ok n) :
    (∀ c ∈ identifiers, c ∈ s.columns) ∧ ∀ i e, n.get? i e =
      if e = dataset ∧ i ∈ identifiers.map Column.name then s.column? i else m.get? i e := by
  induction identifiers generalizing m with
  | nil =>
    cases h
    simp
  | cons c rest ih =>
    rw [addSource] at h
    split at h
    · cases h
    · rename_i d hd
      split at h
      · rename_i hagree
        obtain ⟨hmem, hget⟩ := ih h
        obtain ⟨hds, hname⟩ := Schema.column?_eq_some_iff.mp hd
        have hcd : c = d := by
          simp only [Column.agrees, Bool.and_eq_true, decide_eq_true_eq] at hagree
          cases c
          cases d
          simp_all
        subst hcd
        refine ⟨List.forall_mem_cons.mpr ⟨hds, hmem⟩, fun i e => ?_⟩
        rw [hget i e]
        by_cases hie : (c.name, dataset) = (i, e)
        · obtain ⟨rfl, rfl⟩ := Prod.mk.inj hie
          simp [hd]
        · rw [get?_insert_of_ne hie]
          have hne : e = dataset → i ≠ c.name := fun he hi => hie (by rw [he, hi])
          by_cases he : e = dataset
          · simp [he, hne he]
          · simp [he]
      · cases h

theorem addSources_ok {m n : ColumnMap} {identifiers : List Column}
    {sources : List (String × Schema)} (hd : (sources.map Prod.fst).Nodup)
    (h : addSources identifiers m sources = .ok n) :
    (∀ d ∈ sources, ∀ c ∈ identifiers, c ∈ d.2.columns ∧ n.get? c.name d.1 = some c) ∧
      ∀ i e, e ∉ sources.map Prod.fst → n.get? i e = m.get? i e := by
  induction sources generalizing m with
  | nil =>
    cases h
    simp
  | cons source rest ih =>
    obtain ⟨dataset, s⟩ := source
    rw [List.map_cons, List.nodup_cons] at hd
    obtain ⟨m', hadd, h⟩ := bind_eq_ok.mp h
    obtain ⟨hmem, hget⟩ := addSource_ok hadd
    obtain ⟨hrest, hother⟩ := ih hd.2 h
    refine ⟨List.forall_mem_cons.mpr ⟨fun c hc => ⟨hmem c hc, ?_⟩, hrest⟩, fun i e he => ?_⟩
    · rw [hother _ _ hd.1, hget, if_pos ⟨rfl, List.mem_map_of_mem hc⟩]
      exact Schema.column?_eq_some_iff.mpr ⟨hmem c hc, rfl⟩
    · rw [List.map_cons, List.mem_cons, not_or] at he
      rw [hother i e he.2, hget, if_neg fun hc => he.1 hc.1]

end ColumnMap

namespace Join

theorem mem_columns_mergeSchemas {s u : Schema} {ts : List Schema}
    (h : mergeSchemas s ts = .ok u) (c : Column) :
    c ∈ u.columns ↔ ∃ t ∈ s :: ts, c ∈ t.columns := by
  induction ts generalizing s with
  | nil =>
    cases h
    simp
  | cons t rest ih =>
    obtain ⟨v, hm, h⟩ := bind_eq_ok.mp h
    rw [ih h]
    simp [Schema.mem_columns_merge hm, or_assoc]

theorem identifiersOf_ok {s : Schema} {names : List String} {identifiers : List Column}
    (h : identifiersOf s names = .ok identifiers) : identifiers.map Column.name = names := by
  induction names generalizing identifiers with
  | nil =>
    cases h
    rfl
  | cons name rest ih =>
    rw [identifiersOf] at h
    split at h
    · cases h
    · rename_i c hc
      split at h
      · obtain ⟨cs, hrest, rfl⟩ := map_eq_ok.mp h
        simp [ih hrest, (Schema.column?_eq_some_iff.mp hc).2]
      · cases h

/-- What building a join establishes. -/
structure Wired (j : Join) : Prop where
  columns : ∀ c, c ∈ j.schema.columns ↔ ∃ d ∈ j.datasets, c ∈ d.2.schema.columns
  shared : ∀ d ∈ j.datasets, ∀ c ∈ j.identifiers, c ∈ d.2.schema.columns
  mapped : ∀ d ∈ j.datasets, ∀ c ∈ j.identifiers, j.columnMap.resolve c.name d.1 = .ok c

theorem Wired.withPolicy {j : Join} (h : j.Wired) (policy : Policy) : (j.withPolicy policy).Wired :=
  ⟨h.columns, h.shared, h.mapped⟩

theorem wired_of_on {kind : JoinKind} {datasets : List (String × Dataset)} {names : List String}
    {j : Join} (h : on kind datasets names = .ok j) :
    j.Wired ∧ j.kind = kind ∧ j.datasets = datasets ∧ j.identifierNames = names := by
  unfold on at h
  split at h
  · cases h
  · rename_i first rest
    split at h
    · cases h
    · rename_i hdistinct
      obtain ⟨schema, hschema, h⟩ := bind_eq_ok.mp h
      obtain ⟨identifiers, hids, h⟩ := bind_eq_ok.mp h
      split at h
      · cases h
      · obtain ⟨columnMap, hmap, h⟩ := bind_eq_ok.mp h
        cases h
        have hnodup : ((((first :: rest).map fun d => (d.1, d.2.schema))).map
            Prod.fst).Nodup := by
          simpa [Function.comp_def] using (Schema.nodup_of_firstRepeat hdistinct).1
        obtain ⟨hfound, -⟩ := ColumnMap.addSources_ok hnodup hmap
        refine ⟨⟨fun c => ?_, fun d hd c hc => ?_, fun d hd c hc => ?_⟩, rfl, rfl,
          identifiersOf_ok hids⟩
        · rw [mem_columns_mergeSchemas hschema]
          simp [datasets]
        · exact (hfound _ (List.mem_map_of_mem hd) c hc).1
        · have hget := (hfound _ (List.mem_map_of_mem hd) c hc).2
          simp only [ColumnMap.resolve, hget]

end Join
end DatasetAlgebra
