import DatasetAlgebra.Proofs.SortOrder.Compatible
import DatasetAlgebra.Proofs.SortOrder.Sorting

/-!
Requests for an order, extended to all columns that an operation is keyed on. Whether a request can
be extended depends on the names in it alone. What is extended breaks the ties of the request by
the candidates, ascending; so rows that ascend by the candidates come out of the extended order as
they come out of the request.
-/
namespace DatasetAlgebra
namespace SortOrder

variable {candidates : List Column} {o p required : SortOrder} {a b : Row}

theorem compare_append (ks ls : List SortKey) (a b : Row) :
    compare ⟨ks ++ ls⟩ a b = (compare ⟨ks⟩ a b).then (compare ⟨ls⟩ a b) := by
  simp only [compare]
  induction ks with
  | nil => rfl
  | cons k ks ih =>
    rw [List.cons_append, List.foldr_cons, List.foldr_cons, ih]
    cases compareBy k a b <;> rfl

theorem compareBy_eq_iff {k : SortKey} : compareBy k a b = .eq ↔
    ∀ x, a.value? k.column.name = some x → ∀ y, b.value? k.column.name = some y →
      x.collate y = .eq := by
  unfold compareBy
  split
  · rename_i x y hx hy
    simp [hx, hy]
  · rename_i hnone
    simp only [true_iff]
    exact fun x hx y hy => absurd hy (hnone x y hx)

theorem compare_eq_eq_iff : o.compare a b = .eq ↔ ∀ k ∈ o.keys, compareBy k a b = .eq := by
  obtain ⟨ks⟩ := o
  induction ks with
  | nil => simp [compare]
  | cons k ks ih =>
    rw [List.forall_mem_cons, ← ih]
    exact Ordering.then_eq_eq

theorem compareBy_of_compare_eq {keys : List SortKey} (h : compare ⟨keys⟩ a b = .eq) {k l : SortKey}
    (hk : k ∈ keys) (hl : l.column.name = k.column.name) : compareBy l a b = .eq := by
  have hkey : compareBy k a b = .eq := compare_eq_eq_iff.mp h k hk
  rw [compareBy_eq_iff] at hkey ⊢
  rwa [hl]

/-- Completing keys breaks their ties by all candidates: those that have a key already tie. -/
theorem compare_complete (keys : List SortKey) (candidates : List Column) (a b : Row) :
    compare ⟨complete keys candidates⟩ a b =
      (compare ⟨keys⟩ a b).then (compare (ascending candidates) a b) := by
  induction candidates generalizing keys with
  | nil =>
    rw [complete]
    cases compare ⟨keys⟩ a b <;> rfl
  | cons c rest ih =>
    have hcons : compare (ascending (c :: rest)) a b =
        (compareBy ⟨c, .ascending⟩ a b).then (compare (ascending rest) a b) := rfl
    rw [complete, hcons]
    split
    · rename_i hc
      rw [ih]
      cases hkeys : compare ⟨keys⟩ a b with
      | lt => rfl
      | gt => rfl
      | eq =>
        obtain ⟨k, hk, hkc⟩ : ∃ k ∈ keys, k.column.name = c.name := by simpa using hc
        rw [compareBy_of_compare_eq hkeys hk hkc.symm]
        rfl
    · rw [ih, compare_append]
      cases hkeys : compare ⟨keys⟩ a b <;> cases hc : compareBy ⟨c, .ascending⟩ a b <;>
        simp [compare, hc]

/-- The keys of a request can be bound if each names a candidate, and another one than those before
it. -/
theorem bindKeys?_isSome_iff {bound keys : List SortKey} :
    (bindKeys? candidates bound keys).isSome ↔
      (keys.map (·.column.name)).Nodup ∧
        (∀ k ∈ keys, ∀ b ∈ bound, b.column.name ≠ k.column.name) ∧
        ∀ k ∈ keys, k.column.name ∈ candidates.map Column.name := by
  induction keys generalizing bound with
  | nil => simp [bindKeys?]
  | cons k keys ih =>
    rw [bindKeys?]
    split
    · rename_i hnone
      have habsent : k.column.name ∉ candidates.map Column.name := fun hmem => by
        obtain ⟨c, hc, hname⟩ := List.mem_map.mp hmem
        simpa [hname] using List.find?_eq_none.mp hnone c hc
      simp only [Option.isSome_none, Bool.false_eq_true, false_iff]
      exact fun h => habsent (h.2.2 k List.mem_cons_self)
    · rename_i c hc
      have hname : c.name = k.column.name := by simpa using List.find?_some hc
      have hmem : k.column.name ∈ candidates.map Column.name :=
        hname ▸ List.mem_map_of_mem (List.mem_of_find?_eq_some hc)
      split
      · rename_i htwice
        obtain ⟨b, hb, hbc⟩ : ∃ b ∈ bound, b.column.name = c.name := by simpa using htwice
        simp only [Option.isSome_none, Bool.false_eq_true, false_iff]
        exact fun h => h.2.1 k List.mem_cons_self b hb (hbc.trans hname)
      · rename_i honce
        have hfree : ∀ b ∈ bound, b.column.name ≠ k.column.name := by simpa [hname] using honce
        rw [ih]
        simp only [List.map_cons, List.nodup_cons, List.forall_mem_cons, List.forall_mem_append,
          List.mem_map, not_exists, not_and, hname]
        constructor
        · rintro ⟨hnodup, hbound, hcandidates⟩
          refine ⟨⟨fun l hl => ((hbound l hl).2.1 ·.symm), hnodup⟩, ⟨hfree, fun l hl => ?_⟩, ?_⟩
          · exact (hbound l hl).1
          · exact ⟨List.mem_map.mp hmem, hcandidates⟩
        · rintro ⟨⟨hk, hnodup⟩, ⟨-, hbound⟩, ⟨-, hcandidates⟩⟩
          exact ⟨hnodup, fun l hl => ⟨hbound l hl, (hk l hl ·.symm), by simp⟩, hcandidates⟩

theorem compatible?_isSome_iff : (compatible? candidates o).isSome ↔
    o.columns.Nodup ∧ ∀ n ∈ o.columns, n ∈ candidates.map Column.name := by
  rw [compatible?, Option.isSome_map, bindKeys?_isSome_iff]
  simp [columns]

theorem isAny_unsupported_iff :
    (if (compatible? candidates o).isSome then any else o).isAny ↔
      (compatible? candidates o).isSome := by
  split
  · rename_i h
    exact iff_of_true rfl h
  · rename_i h
    refine iff_of_false (fun hany => h ?_) h
    rw [isAny_iff.mp hany]
    rfl

theorem nodup_complete {keys : List SortKey} (h : (keys.map (·.column.name)).Nodup)
    (candidates : List Column) : ((complete keys candidates).map (·.column.name)).Nodup := by
  induction candidates generalizing keys with
  | nil => exact h
  | cons c rest ih =>
    rw [complete]
    split
    · exact ih h
    · rename_i hc
      apply ih
      rw [List.map_append, List.nodup_append]
      refine ⟨h, List.nodup_singleton _, fun n hn m hm hnm => hc ?_⟩
      obtain ⟨k, hk, rfl⟩ := List.mem_map.mp hn
      rw [List.map_singleton, List.mem_singleton] at hm
      simpa using ⟨k, hk, hnm.trans hm⟩

theorem nodup_columns_of_compatible (h : compatible? candidates o = some required) :
    required.columns.Nodup := by
  have hnodup : o.columns.Nodup := (compatible?_isSome_iff.mp (by rw [h]; rfl)).1
  obtain ⟨keys, hkeys, rfl⟩ := Option.map_eq_some_iff.mp h
  obtain ⟨_, rfl, hdemands, -⟩ := bindKeys?_spec hkeys
  apply nodup_complete
  have hnames := congrArg (List.map Prod.fst) hdemands
  simp only [List.map_map, Function.comp_def, demand] at hnames
  exact hnames ▸ hnodup

theorem columns_perm_of_compatible {required' : SortOrder}
    (h : compatible? candidates o = some required)
    (h' : compatible? candidates p = some required') : required.columns.Perm required'.columns := by
  apply (List.perm_ext_iff_of_nodup (nodup_columns_of_compatible h)
    (nodup_columns_of_compatible h')).mpr
  intro n
  rw [mem_columns_iff_of_compatible h, mem_columns_iff_of_compatible h']

theorem compare_of_compatible {standing : SortOrder}
    (h : compatible? candidates o = some required)
    (hs : compatible? candidates .any = some standing) (a b : Row) :
    required.compare a b = (o.compare a b).then (standing.compare a b) := by
  obtain ⟨keys, hkeys, rfl⟩ := Option.map_eq_some_iff.mp h
  obtain ⟨_, rfl, hdemands, -⟩ := bindKeys?_spec hkeys
  obtain ⟨_, hnone, rfl⟩ := Option.map_eq_some_iff.mp hs
  cases hnone
  rw [compare_complete, compare_complete, ← compare_congr hdemands]
  rfl

theorem Covers.mono {r : Row} (h : o.Covers r) (hp : ∀ n ∈ p.columns, n ∈ o.columns) :
    p.Covers r := fun n hn => h n (hp n hn)

theorem compare_of_mem_rowsOf {key : List Value} {rows : List Row}
    (hrows : ∀ r ∈ rows, o.Covers r) (ha : a ∈ o.rowsOf key rows) (hb : b ∈ o.rowsOf key rows) :
    o.compare a b = .eq := by
  obtain ⟨hmem, hkey⟩ := (mem_classOf _ _).mp ha
  obtain ⟨hmem', hkey'⟩ := (mem_classOf _ _).mp hb
  rw [compare_eq (hrows a hmem) (hrows b hmem')]
  exact Std.TransCmp.eq_trans hkey (Std.OrientedCmp.eq_symm hkey')

theorem eq_sort_of_rowsOf {rows sorted : List Row} (hs : o.Sorted sorted)
    (hrows : ∀ r ∈ rows, o.Covers r)
    (h : ∀ r, o.rowsOf (o.keyOf r) sorted = o.rowsOf (o.keyOf r) rows) : sorted = o.sort rows := by
  obtain ⟨hsort, hclass⟩ := sorted_sort hrows
  refine hs.eq_of_classOf_eq hsort fun key => ?_
  refine Eq.trans ?_ (hclass key).symm
  -- only keys of rows count: a class that has a row is the class of its key
  have hkey {l : List Row} {r : Row} (hr : r ∈ o.rowsOf key l) :
      o.rowsOf key sorted = o.rowsOf key rows := by
    have heq := ((mem_classOf _ _).mp hr).2
    have hr := h r
    unfold rowsOf at hr ⊢
    rwa [classOf_congr heq, classOf_congr heq] at hr
  by_cases hnil : o.rowsOf key sorted = [] ∧ o.rowsOf key rows = []
  · exact hnil.1.trans hnil.2.symm
  · rcases not_and_or.mp hnil with hne | hne
    · exact hkey (List.exists_mem_of_ne_nil _ hne).choose_spec
    · exact hkey (List.exists_mem_of_ne_nil _ hne).choose_spec

/-- Rows that ascend by the candidates come out of the extended order as out of the request. -/
theorem sort_of_compatible {standing : SortOrder} {rows : List Row}
    (h : compatible? candidates o = some required)
    (hs : compatible? candidates .any = some standing)
    (hrows : ∀ r ∈ rows, required.Covers r) (hsorted : standing.Sorted rows) :
    required.sort rows = o.sort rows := by
  have hstanding : ∀ r ∈ rows, standing.Covers r := fun r hr => (hrows r hr).mono fun n hn => by
    rwa [mem_columns_iff_of_compatible h, ← mem_columns_iff_of_compatible hs]
  have hrequest : ∀ r ∈ rows, o.Covers r := fun r hr => (hrows r hr).mono fun n hn => by
    rw [mem_columns_iff_of_compatible h]
    exact (compatible?_isSome_iff.mp (by rw [h]; rfl)).2 n hn
  have hperm : ∀ r ∈ required.sort rows, r ∈ rows := fun r hr => (required.sort_perm rows).subset hr
  refine eq_sort_of_rowsOf ?_ hrequest fun r => ?_
  · have hascends := (sorted_iff fun r hr => hrows r (hperm r hr)).mp (sorted_sort hrows).1
    refine (sorted_iff fun r hr => hrequest r (hperm r hr)).mpr (hascends.imp fun hab => ?_)
    exact compare_of_prefix (satisfiedBy_iff.mp (satisfiedBy_of_compatible h)) hab
  -- the rows of one key of the request are in the extended order already
  · have hclass : required.Sorted (o.rowsOf (o.keyOf r) rows) := by
      have hmem : ∀ a ∈ o.rowsOf (o.keyOf r) rows, a ∈ rows := fun a ha => List.mem_of_mem_filter ha
      have hascends := (sorted_iff hstanding).mp hsorted
      refine (sorted_iff fun a ha => hrows a (hmem a ha)).mpr ?_
      refine (hascends.sublist List.filter_sublist).imp_of_mem fun ha hb hab => ?_
      rw [compare_of_compatible h hs, compare_of_mem_rowsOf hrequest ha hb]
      exact hab
    calc o.rowsOf (o.keyOf r) (required.sort rows)
        = required.sort (o.rowsOf (o.keyOf r) rows) := (sort_filter hrows _).symm
      _ = o.rowsOf (o.keyOf r) rows :=
        sort_eq_self (fun a ha => hrows a (List.mem_of_mem_filter ha)) hclass

theorem filter_sort_of_compatible {standing : SortOrder} {rows : List Row}
    (h : compatible? candidates o = some required)
    (hs : compatible? candidates .any = some standing)
    (hrows : ∀ r ∈ rows, required.Covers r) (hsorted : standing.Sorted rows) (p : Row → Bool) :
    (required.sort rows).filter p = o.sort (rows.filter p) := by
  rw [← sort_filter hrows]
  exact sort_of_compatible h hs (fun r hr => hrows r (List.mem_of_mem_filter hr))
    (hsorted.sublist List.filter_sublist)

end SortOrder
end DatasetAlgebra
