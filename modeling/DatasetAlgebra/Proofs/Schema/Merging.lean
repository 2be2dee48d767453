import DatasetAlgebra.Proofs.Outcomes
import DatasetAlgebra.Proofs.Schema.Columns
import DatasetAlgebra.Schema.Fingerprint
import Mathlib.Data.List.Sort
import Mathlib.Data.String.Basic

/-!
Schemas that can be merged, and schemas that are the same. Both are questions of the columns alone
and not of their order: schemas merge if a name stands for one column in all of them, and they are
the same if they have the same columns.
-/
namespace DatasetAlgebra
namespace Schema

variable {s t u : Schema}

/-- A name that both schemas have stands for the same column in both. -/
def Agree (s t : Schema) : Prop := ∀ c ∈ s.columns, ∀ d ∈ t.columns, c.name = d.name → c = d

theorem Agree.symm (h : s.Agree t) : t.Agree s :=
  fun d hd c hc hname => (h c hc d hd hname.symm).symm

theorem agree_self (s : Schema) : s.Agree s :=
  fun _ hc _ hd hname => List.inj_on_of_nodup_map s.distinct hc hd hname

theorem firstRepeat_eq_none {seen names : List String} (hd : names.Nodup)
    (hs : ∀ n ∈ names, n ∉ seen) : firstRepeat seen names = none := by
  induction names generalizing seen with
  | nil => rfl
  | cons n rest ih =>
    rw [List.nodup_cons] at hd
    rw [List.forall_mem_cons] at hs
    rw [firstRepeat, if_neg hs.1]
    apply ih hd.2
    intro m hm
    rw [List.mem_cons, not_or]
    exact ⟨fun h => hd.1 (h ▸ hm), hs.2 m hm⟩

theorem ofColumns_ok {columns : List Column} (h : (columns.map Column.name).Nodup) :
    ∃ s, ofColumns columns = .ok s := by
  have hnone : firstRepeat [] (columns.map Column.name) = none :=
    firstRepeat_eq_none h fun _ _ => List.not_mem_nil
  unfold ofColumns
  split
  · rename_i name hsome
    rw [hnone] at hsome
    cases hsome
  · exact ⟨_, rfl⟩

theorem conflict?_eq_none_iff : s.conflict? t = none ↔ s.Agree t := by
  constructor
  · intro h c hc d hd hname
    exact conflict?_eq_none h hc hd hname
  · intro h
    apply List.findSome?_eq_none_iff.mpr
    intro d hd
    cases hc : s.column? d.name with
    | none => rfl
    | some c =>
      obtain ⟨hmem, hname⟩ := column?_eq_some_iff.mp hc
      simp [h c hmem d hd hname, Column.agrees]

theorem merge_ok (h : s.Agree t) : ∃ u, s.merge t = .ok u := by
  unfold merge
  rw [conflict?_eq_none_iff.mpr h]
  apply ofColumns_ok
  -- identifiers first is a permutation of the columns of `s` and the new ones of `t`
  let fresh := t.columns.filter fun c => !s.contains c.name
  have hperm : (identifiersFirst (s.columns ++ fresh)).Perm (s.columns ++ fresh) :=
    List.filter_append_perm _ _
  rw [(hperm.map Column.name).nodup_iff, List.map_append]
  apply s.distinct.append (t.distinct.sublist (List.filter_sublist.map _))
  intro n hs hfresh
  obtain ⟨c, hc, rfl⟩ := List.mem_map.mp hfresh
  have hnot := (List.mem_filter.mp hc).2
  rw [contains_iff.mpr hs] at hnot
  cases hnot

theorem agree_of_merge (h : s.merge t = .ok u) : s.Agree t := by
  unfold merge at h
  split at h
  · cases h
  · rename_i hnone
    exact conflict?_eq_none_iff.mp hnone

/-- Sorting by distinct names leaves nothing of the order before. -/
theorem mergeSort_eq_of_perm {α : Type} {name : α → String} {l l' : List α} (h : l.Perm l')
    (hn : (l.map name).Nodup) :
    (l.mergeSort fun a b => name a ≤ name b) = l'.mergeSort fun a b => name a ≤ name b := by
  have hsorted (l : List α) :
      (l.mergeSort fun a b => name a ≤ name b).Pairwise fun a b => name a ≤ name b := by
    have hsort : (l.mergeSort fun a b => name a ≤ name b).Pairwise
        fun a b => decide (name a ≤ name b) = true := by
      apply List.pairwise_mergeSort
      · intro a b c hab hbc
        simpa using le_trans (of_decide_eq_true hab) (of_decide_eq_true hbc)
      · intro a b
        simpa using le_total (name a) (name b)
    exact hsort.imp fun h => of_decide_eq_true h
  refine (((List.mergeSort_perm l _).trans h).trans (List.mergeSort_perm l' _).symm).eq_of_pairwise
    (fun a b ha hb hab hba => ?_) (hsorted l) (hsorted l')
  have hmem : a ∈ l := (List.mergeSort_perm _ _).subset ha
  have hmem' : b ∈ l := h.symm.subset ((List.mergeSort_perm _ _).subset hb)
  exact List.inj_on_of_nodup_map hn hmem hmem' (le_antisymm hab hba)

theorem fingerprintBytes_of_columns (h : ∀ c, c ∈ s.columns ↔ c ∈ t.columns) :
    s.fingerprintBytes = t.fingerprintBytes := by
  have hperm : s.columns.Perm t.columns :=
    (List.perm_ext_iff_of_nodup s.distinct.of_map t.distinct.of_map).mpr h
  simp only [fingerprintBytes, width, byName, mergeSort_eq_of_perm hperm s.distinct,
    hperm.length_eq]

theorem same_of_columns (h : ∀ c, c ∈ s.columns ↔ c ∈ t.columns) : s.same t := by
  simp [same, fingerprint, fingerprintBytes_of_columns h]

theorem sameLayout_self (s : Schema) : s.sameLayout s := by
  simp [sameLayout, same, List.zip_eq_zipWith, List.zipWith_self]

theorem column?_congr (h : ∀ c, c ∈ s.columns ↔ c ∈ t.columns) (name : String) :
    s.column? name = t.column? name := by
  ext c
  rw [column?_eq_some_iff, column?_eq_some_iff, h]

end Schema
end DatasetAlgebra
