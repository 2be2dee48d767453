import DatasetAlgebra.Proofs.Join.Layout

/-!
Keys of rows of any layout. A key is read by position, and it is what the row has under the names
of the order; where a column stands elsewhere than declared, the row is refused. So keys compare
as the rows do that they were read of, whatever the layouts of the two sides.
-/
namespace DatasetAlgebra

theorem Row.places_of_names {s : Schema} {r : Row} (h : r.schema.names = s.names) (name : String) :
    r.Places s name := by
  have hposition (t : Schema) : t.position? name = t.names.findIdx? (· = name) := by
    rw [Schema.names, List.findIdx?_map]
    rfl
  rw [Places, hposition, hposition, h]

namespace SortOrder

variable {o : SortOrder} {a b : Row} {x y : List Value}

theorem keyOf_of_values (h : o.columns.map a.value? = x.map some) :
    o.Covers a ∧ o.keyOf a = x := by
  constructor
  · intro n hn
    have hmem : a.value? n ∈ x.map some := h ▸ List.mem_map_of_mem hn
    obtain ⟨v, -, hv⟩ := List.mem_map.mp hmem
    rw [← hv]
    rfl
  · have hvalues := congrArg (List.map fun v : Option Value => v.getD default) h
    simpa [keyOf, Function.comp_def] using hvalues

/-- Keys that have the values of two rows by name compare as the rows do. -/
theorem compareKeys_of_values (hx : o.columns.map a.value? = x.map some)
    (hy : o.columns.map b.value? = y.map some) : o.compareKeys x y = o.compare a b := by
  obtain ⟨ha, rfl⟩ := keyOf_of_values hx
  obtain ⟨hb, rfl⟩ := keyOf_of_values hy
  rw [compareKeys_eq (o.fits_keyOf a) (o.fits_keyOf b), compare_eq ha hb]

end SortOrder

namespace KeyReader

variable {s : Schema} {o : SortOrder} {k : KeyReader} {r : Row}

theorem components_cases {names : List String} {columns : List (String × Nat)}
    (h : locateAll s .ok names = .ok columns) (r : Row) :
    (∃ key, components r columns = .ok key ∧ names.map r.value? = key.map some) ∨
      ∃ n ∈ names, ¬r.Places s n ∧ ∃ i, s.position? n = some i ∧
        components r columns = .error (.breach (.key r n i)) := by
  induction names generalizing columns with
  | nil =>
    cases h
    exact .inl ⟨[], rfl, rfl⟩
  | cons n names ih =>
    obtain ⟨_, hlocate, h⟩ := bind_eq_ok.mp h
    obtain ⟨rest, hrest, h⟩ := bind_eq_ok.mp h
    cases h
    obtain ⟨i, hi, rfl⟩ := locate_eq_ok hlocate
    rcases component_cases r n i with ⟨v, hread, hv, -⟩ | ⟨hbreach, hmoved⟩
    · rcases ih hrest with ⟨key, hkey, hvalues⟩ | ⟨m, hm, hmoved, j, hj, hbreach⟩
      · refine .inl ⟨v :: key, ?_, ?_⟩
        · simp [components, hread, hkey, bind, Except.bind]
        · simp [hv, hvalues]
      · refine .inr ⟨m, List.mem_cons_of_mem _ hm, hmoved, j, hj, ?_⟩
        simp [components, hread, hbreach, bind, Except.bind]
    · refine .inr ⟨n, List.mem_cons_self, fun hplaced => hmoved (hplaced.trans hi), i, hi, ?_⟩
      simp [components, hbreach, bind, Except.bind]

theorem read_cases (hk : byName s o = .ok k) (r : Row) :
    (∃ key, k.read r = .ok key ∧ o.columns.map r.value? = key.map some) ∨
      ∃ n ∈ o.columns, ¬r.Places s n ∧ ∃ i, s.position? n = some i ∧
        k.read r = .error (.breach (.key r n i)) := by
  obtain ⟨columns, hcolumns, rfl⟩ := map_eq_ok.mp hk
  exact components_cases hcolumns r

/-- A key that was read is what the row has under the names of the order. -/
theorem values_of_read {key : List Value} (hk : byName s o = .ok k) (h : k.read r = .ok key) :
    o.columns.map r.value? = key.map some := by
  rcases read_cases hk r with ⟨values, hread, hvalues⟩ | ⟨n, -, -, i, -, hread⟩
  · cases h.symm.trans hread
    exact hvalues
  · cases h.symm.trans hread

/-- Rows are sorted by their values under the names of an order, and merged by keys read at declared
positions. A key that was read has the values by name, so both are one comparison. -/
theorem merges_as_sorted (o : SortOrder) (s t : Schema) (hs : ∀ n ∈ o.columns, n ∈ s.names)
    (ht : ∀ n ∈ o.columns, n ∈ t.names) :
    ∃ k l, byName s o = .ok k ∧ byName t o = .ok l ∧
      (∀ a b x y, k.read a = .ok x → l.read b = .ok y →
        o.columns.map a.value? = x.map some ∧ o.columns.map b.value? = y.map some ∧
          o.compareKeys x y = o.compare a b) ∧
      (∀ a : Row, a.schema.names = s.names → ∃ x, k.read a = .ok x) ∧
      ∀ a, (∃ x, k.read a = .ok x ∧ o.columns.map a.value? = x.map some) ∨
        ∃ n ∈ o.columns, ¬a.Places s n ∧ ∃ i, s.position? n = some i ∧
          k.read a = .error (.breach (.key a n i)) := by
  obtain ⟨k, hk, -⟩ := byName_ok hs
  obtain ⟨l, hl, -⟩ := byName_ok ht
  refine ⟨k, l, hk, hl, fun a b x y ha hb => ?_, fun a ha => ?_, read_cases hk⟩
  · have hx := values_of_read hk ha
    have hy := values_of_read hl hb
    exact ⟨hx, hy, SortOrder.compareKeys_of_values hx hy⟩
  · rcases read_cases hk a with ⟨x, hx, -⟩ | ⟨n, -, hmoved, -⟩
    · exact ⟨x, hx⟩
    · exact absurd (a.places_of_names ha n) hmoved

end KeyReader

namespace Relaid

def declaredRow : Row := ⟨declared, [.ofInt64 1, .ofInt64 10, .ofInt64 30], rfl⟩

def keys : SortOrder :=
  ⟨[⟨⟨"id", .identifier, .integer⟩, .ascending⟩, ⟨⟨"b", .measure, .integer⟩, .descending⟩]⟩

end Relaid

open Relaid

/-- Two layouts of the same columns. Their rows compare by their keys as they do by name, and the
reader of the one refuses a row of the other for the measure that stands elsewhere. -/
theorem KeyReader.merges_as_sorted_relaid :
    ∃ k l x y, byName declared keys = .ok k ∧ byName stored keys = .ok l ∧
      k.read declaredRow = .ok x ∧ l.read storedRow = .ok y ∧
      keys.compareKeys x y = keys.compare declaredRow storedRow ∧
      keys.compare declaredRow storedRow = .lt ∧
      ∃ n ∈ keys.columns, ¬storedRow.Places declared n ∧
        ∃ i, k.read storedRow = .error (.breach (.key storedRow n i)) := by
  obtain ⟨k, l, hk, hl, hcompare, hlaid, hcases⟩ :=
    merges_as_sorted keys declared stored (by decide) (by decide)
  obtain ⟨x, hx⟩ := hlaid declaredRow rfl
  obtain ⟨y, hy⟩ : ∃ y, l.read storedRow = .ok y := by
    cases hl
    exact ⟨_, rfl⟩
  have hless : keys.compare declaredRow storedRow = .lt := by decide
  refine ⟨k, l, x, y, hk, hl, hx, hy, (hcompare _ _ x y hx hy).2.2, hless, ?_⟩
  rcases hcases storedRow with ⟨z, hz, -⟩ | ⟨n, hn, hmoved, i, -, hbreach⟩
  · cases hk
    cases hz
  · exact ⟨n, hn, hmoved, i, hbreach⟩

end DatasetAlgebra
