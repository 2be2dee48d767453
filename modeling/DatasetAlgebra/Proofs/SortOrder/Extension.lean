import DatasetAlgebra.Proofs.SortOrder.Completion

/-!
The extension of a request to all candidates in full: which requests have none, which keys it
consists of, and that it is its own extension.
-/
namespace DatasetAlgebra
namespace SortOrder

/-- Whether a key is on the first candidate of its name. -/
def BoundTo (candidates : List Column) (k : SortKey) : Prop :=
  candidates.find? (fun c => c.name = k.column.name) = some k.column

/-- The names of candidates that an order lacks, each where it comes first. -/
def remaining (o : SortOrder) (candidates : List Column) : List String :=
  ((candidates.map Column.name).filter (· ∉ o.columns)).eraseDups

variable {candidates : List Column} {o required : SortOrder} {bound keys out : List SortKey}

/-! ### Keys of the extension -/

theorem boundTo_of_bindKeys? (h : bindKeys? candidates bound keys = some out)
    (hbound : ∀ k ∈ bound, BoundTo candidates k) : ∀ k ∈ out, BoundTo candidates k := by
  induction keys generalizing bound with
  | nil =>
    cases h
    exact hbound
  | cons k keys ih =>
    rw [bindKeys?] at h
    split at h
    · cases h
    · rename_i c hc
      split at h
      · cases h
      · refine ih h (List.forall_mem_append.mpr ⟨hbound, List.forall_mem_singleton.mpr ?_⟩)
        have hname : c.name = k.column.name := by simpa using List.find?_some hc
        simpa only [BoundTo, hname] using hc

/-- The candidates that were passed have keys already, so the next one without a key is the first
of its name. -/
theorem boundTo_complete {passed : List Column}
    (hbound : ∀ k ∈ keys, BoundTo (passed ++ candidates) k)
    (hpassed : ∀ c ∈ passed, ∃ k ∈ keys, k.column.name = c.name) :
    ∀ k ∈ complete keys candidates, BoundTo (passed ++ candidates) k := by
  induction candidates generalizing keys passed with
  | nil => exact hbound
  | cons c rest ih =>
    rw [List.append_cons] at hbound ⊢
    rw [complete]
    split
    · rename_i hc
      refine ih hbound (List.forall_mem_append.mpr ⟨hpassed, List.forall_mem_singleton.mpr ?_⟩)
      simpa using hc
    · rename_i hc
      have hnew : ∀ k ∈ keys, k.column.name ≠ c.name := by simpa using hc
      have hfirst : passed.find? (fun d => d.name = c.name) = none := by
        refine List.find?_eq_none.mpr fun d hd hdc => ?_
        obtain ⟨k, hk, hkd⟩ := hpassed d hd
        exact hnew k hk (hkd.trans (by simpa using hdc))
      apply ih
      · refine List.forall_mem_append.mpr ⟨hbound, List.forall_mem_singleton.mpr ?_⟩
        simp [BoundTo, hfirst]
      · refine List.forall_mem_append.mpr ⟨fun d hd => ?_, List.forall_mem_singleton.mpr ?_⟩
        · obtain ⟨k, hk, hkd⟩ := hpassed d hd
          exact ⟨k, List.mem_append_left _ hk, hkd⟩
        · exact ⟨⟨c, .ascending⟩, by simp, rfl⟩

theorem boundTo_of_compatible (h : compatible? candidates o = some required) :
    ∀ k ∈ required.keys, BoundTo candidates k := by
  obtain ⟨keys, hkeys, rfl⟩ := Option.map_eq_some_iff.mp h
  have hbound : ∀ k ∈ keys, BoundTo ([] ++ candidates) k :=
    boundTo_of_bindKeys? hkeys (List.forall_mem_nil _)
  exact boundTo_complete hbound (List.forall_mem_nil _)

theorem demands_complete (keys : List SortKey) (candidates : List Column) :
    demands ⟨complete keys candidates⟩ =
      demands ⟨keys⟩ ++ (remaining ⟨keys⟩ candidates).map (·, .ascending) := by
  induction candidates generalizing keys with
  | nil => simp [complete, remaining]
  | cons c rest ih =>
    rw [complete]
    split
    · rename_i hc
      have hmem : c.name ∈ columns ⟨keys⟩ := by simpa [columns] using hc
      have hskip : remaining ⟨keys⟩ (c :: rest) = remaining ⟨keys⟩ rest := by
        simp [remaining, hmem]
      rw [ih, hskip]
    · rename_i hc
      have hnew : c.name ∉ columns ⟨keys⟩ := by simpa [columns] using hc
      have hnext : remaining ⟨keys⟩ (c :: rest) =
          c.name :: remaining ⟨keys ++ [⟨c, .ascending⟩]⟩ rest := by
        have hleft (n : String) : (!(n == c.name) && decide (n ∉ columns ⟨keys⟩)) =
            decide (n ∉ columns ⟨keys ++ [⟨c, .ascending⟩]⟩) := by
          by_cases hn : n = c.name <;> simp [columns, hn]
        rw [remaining, List.map_cons, List.filter_cons_of_pos (by simpa using hnew),
          List.eraseDups_cons, List.filter_filter, List.filter_congr fun n _ => hleft n]
        rfl
      rw [ih, hnext]
      simp [demands, demand]

theorem demands_of_compatible (h : compatible? candidates o = some required) :
    required.demands = o.demands ++ (o.remaining candidates).map (·, .ascending) := by
  obtain ⟨keys, hkeys, rfl⟩ := Option.map_eq_some_iff.mp h
  obtain ⟨_, rfl, hdemands, -⟩ := bindKeys?_spec hkeys
  have hbound : demands ⟨keys⟩ = o.demands := hdemands
  have hcolumns : columns ⟨keys⟩ = o.columns := by rw [columns_eq, columns_eq, hbound]
  rw [demands_complete, hbound, remaining, remaining, hcolumns]

/-! ### Extending once more -/

theorem bindKeys?_self (hkeys : ∀ k ∈ keys, BoundTo candidates k)
    (hnodup : ((bound ++ keys).map (·.column.name)).Nodup) :
    bindKeys? candidates bound keys = some (bound ++ keys) := by
  induction keys generalizing bound with
  | nil => simp [bindKeys?]
  | cons k keys ih =>
    rw [List.forall_mem_cons] at hkeys
    rw [List.append_cons] at hnodup ⊢
    have hfresh : ¬bound.any fun b => b.column.name = k.column.name := by
      rw [List.map_append, List.map_append, List.append_assoc, List.nodup_append] at hnodup
      simp only [List.any_eq_true, decide_eq_true_eq, not_exists, not_and]
      exact fun b hb hbk => hnodup.2.2 _ (List.mem_map_of_mem hb) _ (by simp) hbk
    rw [bindKeys?, hkeys.1]
    simp only [hfresh]
    exact ih hkeys.2 hnodup

theorem complete_self (h : ∀ c ∈ candidates, ∃ k ∈ keys, k.column.name = c.name) :
    complete keys candidates = keys := by
  induction candidates with
  | nil => rfl
  | cons c rest ih =>
    rw [List.forall_mem_cons] at h
    rw [complete, if_pos (by simpa using h.1), ih h.2]

theorem compatible?_self (h : compatible? candidates o = some required) :
    compatible? candidates required = some required := by
  have hbind : bindKeys? candidates [] required.keys = some required.keys :=
    bindKeys?_self (boundTo_of_compatible h) (nodup_columns_of_compatible h)
  have hcomplete : complete required.keys candidates = required.keys :=
    complete_self fun c hc => List.mem_map.mp (mem_columns_of_compatible h hc)
  rw [compatible?, hbind, Option.map_some, hcomplete]

/-! ### Ties -/

theorem compare_eq_of_compatible (h : compatible? candidates o = some required) {a b : Row} :
    required.compare a b = .eq ↔
      ∀ c ∈ candidates, ∀ x, a.value? c.name = some x → ∀ y, b.value? c.name = some y →
        x.collate y = .eq := by
  rw [compare_eq_eq_iff]
  simp only [compareBy_eq_iff]
  constructor
  · intro hkeys c hc
    obtain ⟨k, hk, hname⟩ := List.mem_map.mp (mem_columns_of_compatible h hc)
    exact hname ▸ hkeys k hk
  · intro hcandidates k hk
    exact hcandidates k.column (columns_mem_of_compatible h k hk)

/-- A request that names candidates only, each once, is extended to all of them; any other is not.
Rows that an extended order does not tell apart are alike in all candidates. -/
theorem extension_laws (candidates : List Column) (o : SortOrder) :
    (compatible? candidates o = none ↔
      (∃ n ∈ o.columns, n ∉ candidates.map Column.name) ∨ ¬o.columns.Nodup) ∧
    ∀ required, compatible? candidates o = some required →
      required.demands = o.demands ++ (o.remaining candidates).map (·, .ascending) ∧
      (∀ k ∈ required.keys, BoundTo candidates k) ∧
      o.satisfiedBy required ∧
      required.columns.Nodup ∧
      (∀ n, n ∈ required.columns ↔ n ∈ candidates.map Column.name) ∧
      compatible? candidates required = some required ∧
      ∀ a b, required.compare a b = .eq ↔
        ∀ c ∈ candidates, ∀ x, a.value? c.name = some x → ∀ y, b.value? c.name = some y →
          x.collate y = .eq := by
  constructor
  · have hsome : compatible? candidates o = none ↔ ¬(compatible? candidates o).isSome := by simp
    rw [hsome, compatible?_isSome_iff]
    simp only [not_and_or, not_forall, exists_prop, or_comm]
  · exact fun required h => ⟨demands_of_compatible h, boundTo_of_compatible h,
      satisfiedBy_of_compatible h, nodup_columns_of_compatible h, mem_columns_iff_of_compatible h,
      compatible?_self h, fun a b => compare_eq_of_compatible h⟩

end SortOrder
end DatasetAlgebra
