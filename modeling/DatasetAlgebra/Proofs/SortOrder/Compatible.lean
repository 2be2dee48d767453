import DatasetAlgebra.Proofs.Outcomes
import DatasetAlgebra.Proofs.SortOrder.Sorting
import DatasetAlgebra.SortOrder.Compatible

/-!
What an order demands is the names of its keys with their directions. Orders with the same demands
compare alike, binding an order to a schema keeps its demands, and the demands of a compatible
order begin with those of the request.
-/
namespace DatasetAlgebra

namespace SortOrder

def demand (k : SortKey) : String × Direction := (k.column.name, k.direction)

def demands (o : SortOrder) : List (String × Direction) := o.keys.map demand

@[simp] theorem demands_any : any.demands = [] := rfl

theorem columns_eq (o : SortOrder) : o.columns = o.demands.map Prod.fst := by
  simp [columns, demands, demand, Function.comp_def]

theorem sameDemand_iff {a b : SortKey} : sameDemand a b = true ↔ demand a = demand b := by
  simp [sameDemand, demand]

theorem satisfiedBy_iff {wanted provided : SortOrder} :
    wanted.satisfiedBy provided = true ↔ wanted.demands <+: provided.demands := by
  obtain ⟨ws⟩ := wanted
  obtain ⟨ps⟩ := provided
  simp only [satisfiedBy, demands]
  induction ws generalizing ps with
  | nil => simp
  | cons w ws ih =>
    cases ps with
    | nil => simp
    | cons p ps =>
      simp only [List.map_cons, List.cons_prefix_cons, ← ih, ← sameDemand_iff]
      simp [and_left_comm]

theorem isAny_iff {o : SortOrder} : o.isAny = true ↔ o = any := by
  obtain ⟨keys⟩ := o
  cases keys <;> simp [isAny, any]

theorem compareBy_congr {k l : SortKey} (h : demand k = demand l) : compareBy k = compareBy l := by
  simp only [demand, Prod.mk.injEq] at h
  funext a b
  simp only [compareBy, h.1, h.2]

theorem compare_congr {o p : SortOrder} (h : p.demands = o.demands) : p.compare = o.compare := by
  obtain ⟨ks⟩ := o
  obtain ⟨ls⟩ := p
  simp only [demands] at h
  funext a b
  unfold compare
  induction ks generalizing ls with
  | nil => rw [List.map_eq_nil_iff.mp h]
  | cons k ks ih =>
    cases ls with
    | nil => simp at h
    | cons l ls =>
      simp only [List.map_cons, List.cons.injEq] at h
      simp only [List.foldr_cons, compareBy_congr h.1, ih ls h.2]

theorem sort_congr {o p : SortOrder} (h : p.demands = o.demands) : p.sort = o.sort :=
  funext fun _ => sort_eq_of_compare fun _ _ _ _ => by rw [compare_congr h]

/-- Rows that do not descend in an order do not descend in one that it satisfies. -/
theorem compare_of_prefix {wanted provided : SortOrder} (h : wanted.demands <+: provided.demands)
    {a b : Row} (hab : provided.compare a b ≠ .gt) : wanted.compare a b ≠ .gt := by
  obtain ⟨ws⟩ := wanted
  obtain ⟨ps⟩ := provided
  simp only [demands, compare] at *
  induction ws generalizing ps with
  | nil => simp
  | cons w ws ih =>
    cases ps with
    | nil => simp at h
    | cons p ps =>
      rw [List.map_cons, List.map_cons, List.cons_prefix_cons] at h
      rw [List.foldr_cons, ← compareBy_congr h.1] at hab
      rw [List.foldr_cons]
      cases hc : compareBy w a b with
      | lt => simp
      | eq =>
        rw [hc] at hab
        exact ih ps hab h.2
      | gt => simp [hc] at hab

variable {o p : SortOrder}

theorem onto_spec {s : Schema} (h : o.onto s = .ok p) :
    p.demands = o.demands ∧ ∀ k ∈ p.keys, k.column ∈ s.columns := by
  obtain ⟨ks⟩ := o
  obtain ⟨ls, hls, rfl⟩ := map_eq_ok.mp h
  unfold demands
  clear h
  induction ks generalizing ls with
  | nil =>
    cases hls
    simp
  | cons k ks ih =>
    rw [keysOnto] at hls
    split at hls
    · cases hls
    · rename_i c hc
      obtain ⟨rest, hrest, rfl⟩ := map_eq_ok.mp hls
      obtain ⟨hd, hm⟩ := ih rest hrest
      obtain ⟨hmem, hname⟩ := Schema.column?_eq_some_iff.mp hc
      simp only [List.map_cons, hd, List.forall_mem_cons, demand, hname]
      exact ⟨trivial, hmem, hm⟩

theorem onto_ok {s : Schema} (h : ∀ n ∈ o.columns, n ∈ s.names) : ∃ p, o.onto s = .ok p := by
  obtain ⟨ks⟩ := o
  have hkeys : ∃ ls, keysOnto s ks = .ok ls := by
    induction ks with
    | nil => exact ⟨[], rfl⟩
    | cons k ks ih =>
      simp only [columns, List.map_cons, List.forall_mem_cons] at h
      obtain ⟨c, hc⟩ := Option.isSome_iff_exists.mp (Schema.column?_isSome_iff.mpr h.1)
      obtain ⟨ls, hls⟩ := ih h.2
      exact ⟨⟨c, k.direction⟩ :: ls, by simp only [keysOnto, hc, hls, Except.map]⟩
  obtain ⟨ls, hls⟩ := hkeys
  exact ⟨⟨ls⟩, by simp only [onto, hls, Except.map]⟩

theorem onto_eq_error {s : Schema} {e : Error} (h : o.onto s = .error e) :
    ∃ n ∈ o.columns, n ∉ s.names ∧ e = .unknown n := by
  obtain ⟨ks⟩ := o
  have hkeys : keysOnto s ks = .error e := by
    cases hks : keysOnto s ks <;> simp [onto, hks, Except.map] at h ⊢
    exact h
  clear h
  induction ks with
  | nil => cases hkeys
  | cons k ks ih =>
    rw [keysOnto] at hkeys
    cases hc : s.column? k.column.name with
    | none =>
      rw [hc] at hkeys
      cases hkeys
      refine ⟨_, List.mem_cons_self, fun hn => ?_, rfl⟩
      simpa [hc] using Schema.column?_isSome_iff.mpr hn
    | some c =>
      have hrest : keysOnto s ks = .error e := by
        rw [hc] at hkeys
        cases hks : keysOnto s ks <;> simp [hks, Except.map] at hkeys ⊢
        exact hkeys
      obtain ⟨n, hn, hlacks, he⟩ := ih hrest
      exact ⟨n, List.mem_cons_of_mem _ hn, hlacks, he⟩

theorem onto_self {s : Schema} (h : ∀ k ∈ o.keys, k.column ∈ s.columns) : o.onto s = .ok o := by
  obtain ⟨ks⟩ := o
  have hkeys : keysOnto s ks = .ok ks := by
    induction ks with
    | nil => rfl
    | cons k ks ih =>
      rw [List.forall_mem_cons] at h
      have hc : s.column? k.column.name = some k.column := Schema.column?_eq_some_iff.mpr ⟨h.1, rfl⟩
      simp [keysOnto, hc, ih h.2, Except.map]
  simp [onto, hkeys, Except.map]

theorem bindKeys?_spec {candidates : List Column} {bound keys out : List SortKey}
    (h : bindKeys? candidates bound keys = some out) :
    ∃ added, out = bound ++ added ∧ added.map demand = keys.map demand ∧
      ∀ k ∈ added, k.column ∈ candidates := by
  induction keys generalizing bound with
  | nil => exact ⟨[], by simpa [bindKeys?] using h.symm, rfl, by simp⟩
  | cons k keys ih =>
    rw [bindKeys?] at h
    split at h
    · cases h
    · rename_i c hc
      split at h
      · cases h
      · obtain ⟨added, rfl, hd, hm⟩ := ih h
        have hname : c.name = k.column.name := by simpa using List.find?_some hc
        refine ⟨⟨c, k.direction⟩ :: added, by simp, by simp [demand, hname, hd], ?_⟩
        exact List.forall_mem_cons.mpr ⟨List.mem_of_find?_eq_some hc, hm⟩

/-- Completing keys adds candidates, until each of them has a key. -/
theorem complete_spec (keys : List SortKey) (candidates : List Column) :
    ∃ added, complete keys candidates = keys ++ added ∧ (∀ k ∈ added, k.column ∈ candidates) ∧
      ∀ c ∈ candidates, ∃ k ∈ keys ++ added, k.column.name = c.name := by
  induction candidates generalizing keys with
  | nil => exact ⟨[], by simp [complete]⟩
  | cons c rest ih =>
    rw [complete]
    split
    · rename_i hc
      obtain ⟨added, hadd, hmem, hall⟩ := ih keys
      obtain ⟨k, hk, hkc⟩ : ∃ k ∈ keys, k.column.name = c.name := by simpa using hc
      refine ⟨added, hadd, fun k hk => List.mem_cons_of_mem c (hmem k hk), ?_⟩
      exact List.forall_mem_cons.mpr ⟨⟨k, List.mem_append_left added hk, hkc⟩, hall⟩
    · obtain ⟨added, hadd, hmem, hall⟩ := ih (keys ++ [⟨c, .ascending⟩])
      rw [List.append_assoc] at hadd hall
      refine ⟨⟨c, .ascending⟩ :: added, hadd, ?_, ?_⟩
      · exact List.forall_mem_cons.mpr
          ⟨List.mem_cons_self, fun k hk => List.mem_cons_of_mem c (hmem k hk)⟩
      · exact List.forall_mem_cons.mpr ⟨⟨⟨c, .ascending⟩, by simp, rfl⟩, hall⟩

variable {candidates : List Column} {requested required : SortOrder}

theorem columns_mem_of_compatible (h : compatible? candidates requested = some required) :
    ∀ k ∈ required.keys, k.column ∈ candidates := by
  obtain ⟨keys, hkeys, rfl⟩ := Option.map_eq_some_iff.mp h
  obtain ⟨_, rfl, -, hbound⟩ := bindKeys?_spec hkeys
  obtain ⟨added, hadd, hmem, -⟩ := complete_spec keys candidates
  intro k hk
  rw [hadd] at hk
  rcases List.mem_append.mp hk with hk | hk
  · exact hbound k hk
  · exact hmem k hk

theorem mem_columns_of_compatible (h : compatible? candidates requested = some required)
    {c : Column} (hc : c ∈ candidates) : c.name ∈ required.columns := by
  obtain ⟨keys, -, rfl⟩ := Option.map_eq_some_iff.mp h
  obtain ⟨added, hadd, -, hall⟩ := complete_spec keys candidates
  obtain ⟨k, hk, hkc⟩ := hall c hc
  rw [columns, hadd]
  exact List.mem_map.mpr ⟨k, hk, hkc⟩

theorem mem_columns_iff_of_compatible (h : compatible? candidates requested = some required)
    (n : String) : n ∈ required.columns ↔ n ∈ candidates.map Column.name := by
  constructor
  · intro hn
    obtain ⟨k, hk, rfl⟩ := List.mem_map.mp hn
    exact List.mem_map_of_mem (columns_mem_of_compatible h k hk)
  · intro hn
    obtain ⟨c, hc, rfl⟩ := List.mem_map.mp hn
    exact mem_columns_of_compatible h hc

theorem satisfiedBy_of_compatible (h : compatible? candidates requested = some required) :
    requested.satisfiedBy required := by
  obtain ⟨keys, hkeys, rfl⟩ := Option.map_eq_some_iff.mp h
  obtain ⟨_, rfl, hd, -⟩ := bindKeys?_spec hkeys
  obtain ⟨added, hadd, -, -⟩ := complete_spec keys candidates
  rw [satisfiedBy_iff, demands, demands, hadd, ← hd]
  simp

end SortOrder
end DatasetAlgebra
