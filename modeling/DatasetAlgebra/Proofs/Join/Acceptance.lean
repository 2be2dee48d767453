import DatasetAlgebra.Proofs.Join.Wiring
import DatasetAlgebra.Proofs.Schema.Merging
import Mathlib.Data.List.Pairwise

/-!
When datasets can be joined on what they have in common. That does not depend on their order, and
neither do the columns of the join.
-/
namespace DatasetAlgebra

theorem ColumnMap.addSource_of_mem {identifiers : List Column} {s : Schema}
    (h : ∀ c ∈ identifiers, c ∈ s.columns) (m : ColumnMap) (dataset : String) :
    ∃ n, m.addSource dataset s identifiers = .ok n := by
  induction identifiers generalizing m with
  | nil => exact ⟨m, rfl⟩
  | cons c rest ih =>
    rw [List.forall_mem_cons] at h
    have hc : s.column? c.name = some c := Schema.column?_eq_some_iff.mpr ⟨h.1, rfl⟩
    have hself : c.agrees c := by simp [Column.agrees]
    rw [addSource, hc]
    simp only [hself, if_true]
    exact ih h.2 _

theorem ColumnMap.addSources_of_mem {identifiers : List Column} {sources : List (String × Schema)}
    (h : ∀ d ∈ sources, ∀ c ∈ identifiers, c ∈ d.2.columns) (m : ColumnMap) :
    ∃ n, addSources identifiers m sources = .ok n := by
  induction sources generalizing m with
  | nil => exact ⟨m, rfl⟩
  | cons source rest ih =>
    rw [List.forall_mem_cons] at h
    obtain ⟨n, hn⟩ := addSource_of_mem h.1 m source.1
    obtain ⟨k, hk⟩ := ih h.2 n
    exact ⟨k, bind_eq_ok.mpr ⟨n, hn, hk⟩⟩

namespace Join

variable {kind : JoinKind} {datasets : List (String × Dataset)}

theorem mergeSchemas_ok {s : Schema} {ts : List Schema} (h : (s :: ts).Pairwise Schema.Agree) :
    ∃ u, mergeSchemas s ts = .ok u := by
  induction ts generalizing s with
  | nil => exact ⟨s, rfl⟩
  | cons t rest ih =>
    obtain ⟨hs, ht⟩ := List.pairwise_cons.mp h
    obtain ⟨u, hu⟩ := Schema.merge_ok (hs t List.mem_cons_self)
    have hagree : ∀ v ∈ rest, u.Agree v := by
      intro v hv c hc d hd hname
      rcases (Schema.mem_columns_merge hu c).mp hc with hc | hc
      · exact hs v (List.mem_cons_of_mem _ hv) c hc d hd hname
      · exact List.rel_of_pairwise_cons ht hv c hc d hd hname
    obtain ⟨w, hw⟩ := ih (List.pairwise_cons.mpr ⟨hagree, ht.of_cons⟩)
    exact ⟨w, bind_eq_ok.mpr ⟨u, hu, hw⟩⟩

theorem agree_of_mergeSchemas {s u : Schema} {ts : List Schema} (h : mergeSchemas s ts = .ok u) :
    (s :: ts).Pairwise Schema.Agree := by
  induction ts generalizing s with
  | nil => exact List.pairwise_singleton _ s
  | cons t rest ih =>
    obtain ⟨v, hv, hrest⟩ := bind_eq_ok.mp h
    obtain ⟨hagree, hpairs⟩ := List.pairwise_cons.mp (ih hrest)
    have hmem := Schema.mem_columns_merge hv
    refine List.pairwise_cons.mpr ⟨List.forall_mem_cons.mpr ⟨Schema.agree_of_merge hv, ?_⟩,
      List.pairwise_cons.mpr ⟨?_, hpairs⟩⟩
    · exact fun w hw c hc => hagree w hw c ((hmem c).mpr (.inl hc))
    · exact fun w hw c hc => hagree w hw c ((hmem c).mpr (.inr hc))

theorem identifiersOf_of_mem {s : Schema} {names : List String}
    (h : ∀ n ∈ names, ∃ c ∈ s.columns, c.name = n ∧ c.isIdentifier) :
    ∃ identifiers, identifiersOf s names = .ok identifiers ∧ ∀ c ∈ identifiers, c ∈ s.columns := by
  induction names with
  | nil => exact ⟨[], rfl, by simp⟩
  | cons n rest ih =>
    rw [List.forall_mem_cons] at h
    obtain ⟨⟨c, hc, hname, hid⟩, hrest⟩ := h
    obtain ⟨cs, hcs, hmem⟩ := ih hrest
    refine ⟨c :: cs, ?_, List.forall_mem_cons.mpr ⟨hc, hmem⟩⟩
    rw [identifiersOf, Schema.column?_eq_some_iff.mpr ⟨hc, hname⟩]
    simp [hid, hcs, Except.map]

theorem mem_commonNames {n : String} : n ∈ commonNames datasets ↔
    datasets ≠ [] ∧ ∀ d ∈ datasets, ∃ c ∈ d.2.schema.columns, c.name = n ∧ c.isIdentifier := by
  have hfound (s : Schema) : ((s.column? n).map Column.isIdentifier).getD false = true ↔
      ∃ c ∈ s.columns, c.name = n ∧ c.isIdentifier := by
    constructor
    · intro h
      cases hc : s.column? n with
      | none => simp [hc] at h
      | some c =>
        obtain ⟨hmem, hname⟩ := Schema.column?_eq_some_iff.mp hc
        exact ⟨c, hmem, hname, by simpa [hc] using h⟩
    · rintro ⟨c, hmem, hname, hid⟩
      simp [Schema.column?_eq_some_iff.mpr ⟨hmem, hname⟩, hid]
  cases datasets with
  | nil => simp [commonNames]
  | cons first rest =>
    simp only [commonNames, List.mem_map, List.mem_filter, List.all_eq_true, List.forall_mem_cons,
      ne_eq, reduceCtorEq, not_false_eq_true, true_and]
    constructor
    · rintro ⟨c, ⟨hc, hall⟩, rfl⟩
      obtain ⟨hmem, hid⟩ := List.mem_filter.mp hc
      exact ⟨⟨c, hmem, rfl, hid⟩, fun d hd => (hfound _).mp (hall d hd)⟩
    · rintro ⟨⟨c, hmem, rfl, hid⟩, hall⟩
      exact ⟨c, ⟨List.mem_filter.mpr ⟨hmem, hid⟩, fun d hd => (hfound _).mpr (hall d hd)⟩, rfl⟩

/-- What datasets have to be to be joined on what they have in common. -/
structure Joinable (datasets : List (String × Dataset)) : Prop where
  names : (datasets.map Prod.fst).Nodup
  agree : datasets.Pairwise fun d e => d.2.schema.Agree e.2.schema
  common : commonNames datasets ≠ [] ∨ datasets.length = 1

theorem Joinable.agree_of_mem (h : Joinable datasets) {d e : String × Dataset}
    (hd : d ∈ datasets) (he : e ∈ datasets) : d.2.schema.Agree e.2.schema := by
  have : Std.Symm fun d e : String × Dataset => d.2.schema.Agree e.2.schema :=
    ⟨fun _ _ h => h.symm⟩
  exact List.Pairwise.forall_of_forall (fun x _ => Schema.agree_self x.2.schema) h.agree hd he

theorem Joinable.mem_columns (h : Joinable datasets) {c : Column}
    (hc : c.name ∈ commonNames datasets) (hfrom : ∃ e ∈ datasets, c ∈ e.2.schema.columns) :
    ∀ d ∈ datasets, c ∈ d.2.schema.columns := by
  intro d hd
  obtain ⟨e, he, hce⟩ := hfrom
  obtain ⟨c', hc', hname, -⟩ := (mem_commonNames.mp hc).2 d hd
  have hde : e.2.schema.Agree d.2.schema := h.agree_of_mem he hd
  rwa [hde c hce c' hc' hname.symm]

theorem joinable_of_onCommon {j : Join} (h : onCommon kind datasets = .ok j) :
    Joinable datasets := by
  unfold onCommon on at h
  split at h
  · cases h
  · rename_i first rest
    split at h
    · cases h
    · rename_i hdistinct
      obtain ⟨schema, hschema, h⟩ := bind_eq_ok.mp h
      obtain ⟨identifiers, hids, h⟩ := bind_eq_ok.mp h
      split at h
      · cases h
      · rename_i hshared
        refine ⟨(Schema.nodup_of_firstRepeat hdistinct).1, ?_, ?_⟩
        · have hagree := agree_of_mergeSchemas hschema
          rw [← List.map_cons (f := fun d : String × Dataset => d.2.schema)] at hagree
          exact List.pairwise_map.mp hagree
        · have hnames := identifiersOf_ok hids
          cases identifiers with
          | nil => exact .inr (by simpa using hshared)
          | cons c cs => exact .inl (by simp [← hnames])

theorem onCommon_of_joinable (h : Joinable datasets) : ∃ j, onCommon kind datasets = .ok j := by
  cases datasets with
  | nil =>
    rcases h.common with hnil | hone
    · exact absurd rfl hnil
    · cases hone
  | cons first rest =>
    have hdistinct : Schema.firstRepeat [] ((first :: rest).map Prod.fst) = none :=
      Schema.firstRepeat_eq_none h.names fun _ _ => List.not_mem_nil
    have hagree : (first.2.schema :: rest.map fun d => d.2.schema).Pairwise Schema.Agree :=
      List.pairwise_map.mpr h.agree
    obtain ⟨u, hu⟩ := mergeSchemas_ok hagree
    have hcolumns : ∀ c ∈ u.columns, ∃ d ∈ first :: rest, c ∈ d.2.schema.columns := fun c hc => by
      simpa using (mem_columns_mergeSchemas hu c).mp hc
    obtain ⟨identifiers, hids, hmem⟩ : ∃ identifiers,
        identifiersOf u (commonNames (first :: rest)) = .ok identifiers ∧
          ∀ c ∈ identifiers, c ∈ u.columns := by
      apply identifiersOf_of_mem
      intro n hn
      obtain ⟨c, hc, hname, hid⟩ := (mem_commonNames.mp hn).2 first List.mem_cons_self
      exact ⟨c, (mem_columns_mergeSchemas hu c).mpr ⟨_, List.mem_cons_self, hc⟩, hname, hid⟩
    have hnames := identifiersOf_ok hids
    have hshared : (identifiers.isEmpty && !rest.isEmpty) = false := by
      rcases h.common with hne | hone
      · cases identifiers with
        | nil => exact absurd hnames.symm hne
        | cons c cs => rfl
      · have hnil : rest = [] := by simpa using hone
        simp [hnil]
    have hall : ∀ d ∈ first :: rest, ∀ c ∈ identifiers, c ∈ d.2.schema.columns := by
      intro d hd c hc
      exact h.mem_columns (hnames ▸ List.mem_map_of_mem hc) (hcolumns c (hmem c hc)) d hd
    obtain ⟨columnMap, hmap⟩ : ∃ m, ColumnMap.build identifiers
        ((first :: rest).map fun d => (d.1, d.2.schema)) = .ok m := by
      apply ColumnMap.addSources_of_mem
      rw [List.forall_mem_map]
      exact hall
    unfold onCommon on
    simp only [hdistinct, hu, hids, hshared, hmap, bind, Except.bind, Bool.false_eq_true, if_false]
    exact ⟨_, rfl⟩

/-- Datasets can be joined on what they have in common just if their names differ, a column name
stands for one column in all, and they share an identifier or there is only one. -/
theorem exists_onCommon_iff : (∃ j, onCommon kind datasets = .ok j) ↔ Joinable datasets :=
  ⟨fun ⟨_, h⟩ => joinable_of_onCommon h, onCommon_of_joinable⟩

variable {datasets' : List (String × Dataset)}

theorem mem_commonNames_perm (h : datasets.Perm datasets') (n : String) :
    n ∈ commonNames datasets ↔ n ∈ commonNames datasets' := by
  have hnil : datasets = [] ↔ datasets' = [] := by
    rw [← List.length_eq_zero_iff, h.length_eq, List.length_eq_zero_iff]
  simp only [mem_commonNames, h.mem_iff, ne_eq, hnil]

theorem joinable_perm (h : datasets.Perm datasets') (hd : Joinable datasets) :
    Joinable datasets' where
  names := (h.map Prod.fst).nodup_iff.mp hd.names
  agree := (h.pairwise_iff fun h => Schema.Agree.symm h).mp hd.agree
  common := by
    refine hd.common.imp (fun hne hnil => ?_) fun hone => h.length_eq ▸ hone
    obtain ⟨n, hn⟩ := List.exists_mem_of_ne_nil _ hne
    rw [mem_commonNames_perm h, hnil] at hn
    exact List.not_mem_nil hn

theorem columns_of_perm {j j' : Join} {kind' : JoinKind} {names names' : List String}
    (h : datasets.Perm datasets') (hj : on kind datasets names = .ok j)
    (hj' : on kind' datasets' names' = .ok j') :
    ∀ c, c ∈ j.schema.columns ↔ c ∈ j'.schema.columns := by
  obtain ⟨hwired, -, hdatasets, -⟩ := wired_of_on hj
  obtain ⟨hwired', -, hdatasets', -⟩ := wired_of_on hj'
  intro c
  simp only [hwired.columns, hwired'.columns, hdatasets, hdatasets', h.mem_iff]

end Join
end DatasetAlgebra
