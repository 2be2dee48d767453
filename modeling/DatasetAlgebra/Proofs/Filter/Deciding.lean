import DatasetAlgebra.Proofs.Filter.Mentions
import DatasetAlgebra.Proofs.Outcomes
import DatasetAlgebra.Proofs.Schema.Columns

/-!
Filters that evaluate without failure. A filter is well typed in a schema if it reads columns of
the schema, and compares each with constants of its type only; then it decides every row that
conforms and has the columns it reads.
-/
namespace DatasetAlgebra
namespace Filter

mutual
/-- Every column that is read is in the schema, and constants have the types of the columns that
they are compared with. -/
def wellTyped (s : Schema) : Filter → Bool
  | .all => true
  | .compare column _ constant => (s.column? column).any fun c => c.type = constant.type
  | .isNull column => s.contains column
  | .and terms => allWellTyped s terms
  | .or terms => allWellTyped s terms
  | .not term => wellTyped s term

def allWellTyped (s : Schema) : List Filter → Bool
  | [] => true
  | f :: rest => wellTyped s f && allWellTyped s rest
end

mutual
theorem mentions_of_wellTyped {s : Schema} : (f : Filter) → f.wellTyped s →
    ∀ n ∈ f.mentions, n ∈ s.names
  | .all, _, n, hn => absurd hn (List.not_mem_nil (a := n))
  | .compare column test constant, hf, n, hn => by
    obtain rfl : n = column := List.mem_singleton.mp hn
    refine Schema.column?_isSome_iff.mp ?_
    cases hc : s.column? n with
    | none => simp [wellTyped, hc] at hf
    | some c => rfl
  | .isNull column, hf, n, hn => by
    obtain rfl : n = column := List.mem_singleton.mp hn
    exact Schema.contains_iff.mp hf
  | .and terms, hf, n, hn => mentionsAll_of_allWellTyped terms hf n hn
  | .or terms, hf, n, hn => mentionsAll_of_allWellTyped terms hf n hn
  | .not term, hf, n, hn => mentions_of_wellTyped term hf n hn

theorem mentionsAll_of_allWellTyped {s : Schema} : (fs : List Filter) → allWellTyped s fs →
    ∀ n ∈ mentionsAll fs, n ∈ s.names
  | [], _, n, hn => absurd hn (List.not_mem_nil (a := n))
  | f :: rest, hf, n, hn => by
    simp only [allWellTyped, Bool.and_eq_true] at hf
    rcases List.mem_append.mp hn with hn | hn
    · exact mentions_of_wellTyped f hf.1 n hn
    · exact mentionsAll_of_allWellTyped rest hf.2 n hn
end

theorem refersOnlyTo_of_wellTyped {s : Schema} {f : Filter} (hf : f.wellTyped s) :
    f.refersOnlyTo s.names := refersOnlyTo_iff.mpr (mentions_of_wellTyped f hf)

/-- The columns of some names have the same types in two schemas, if they are in either. -/
def SameTypes (s t : Schema) (names : List String) : Prop :=
  ∀ n ∈ names, (s.column? n).map Column.type = (t.column? n).map Column.type

mutual
/-- Only the types of the columns that a filter reads matter to whether it is well typed. -/
theorem wellTyped_congr {s t : Schema} : (f : Filter) → SameTypes s t f.mentions →
    f.wellTyped s = f.wellTyped t
  | .all, _ => rfl
  | .compare column test constant, h => by
    have htypes := h column (by simp [mentions])
    cases hs : s.column? column <;> cases ht : t.column? column <;>
      simp_all [wellTyped]
  | .isNull column, h => by
    have htypes := h column (by simp [mentions])
    have hcontains (u : Schema) : u.contains column = ((u.column? column).map Column.type).isSome := by
      rw [Option.isSome_map, Bool.eq_iff_iff, Schema.column?_isSome_iff]
      exact Schema.contains_iff
    rw [wellTyped, wellTyped, hcontains, hcontains, htypes]
  | .and terms, h => allWellTyped_congr terms h
  | .or terms, h => allWellTyped_congr terms h
  | .not term, h => wellTyped_congr term h

theorem allWellTyped_congr {s t : Schema} : (fs : List Filter) → SameTypes s t (mentionsAll fs) →
    allWellTyped s fs = allWellTyped t fs
  | [], _ => rfl
  | f :: rest, h => by
    simp only [SameTypes, mentionsAll, List.mem_append] at h
    rw [allWellTyped, allWellTyped, wellTyped_congr f fun n hn => h n (.inl hn),
      allWellTyped_congr rest fun n hn => h n (.inr hn)]
end

/-- A row that has no values of other types than the columns of a schema. -/
structure Suits (s : Schema) (r : Row) : Prop where
  conforms : r.conforms
  columns : ∀ c ∈ r.schema.columns, c ∈ s.columns

variable {s : Schema} {r : Row}

theorem exists_value {column : String} (h : column ∈ r.schema.names) :
    ∃ v, r.value? column = some v :=
  Option.isSome_iff_exists.mp (Row.value?_isSome_iff.mpr h)

theorem truth_ok (hr : Suits s r) {column : String} (hc : column ∈ r.schema.names)
    {constant : Value} (ht : (s.column? column).any fun c => c.type = constant.type)
    (test : Comparison) : ∃ t, truth r column test constant = .ok t := by
  obtain ⟨v, hv⟩ := exists_value hc
  cases hfound : s.column? column with
  | none => simp [hfound] at ht
  | some c =>
    have htype : c.type = constant.type := by simpa [hfound] using ht
    obtain ⟨hmem, rfl⟩ := Schema.column?_eq_some_iff.mp hfound
    have hvalue : c.type = v.type := Row.type_eq_of_value? hr.conforms hr.columns hmem hv
    simp only [truth, hv, Value.compare, if_pos (hvalue.symm.trans htype)]
    exact ⟨_, rfl⟩

mutual
theorem eval_ok (hr : Suits s r) : (f : Filter) → f.wellTyped s →
    (∀ n ∈ f.mentions, n ∈ r.schema.names) → ∃ t, eval r f = .ok t
  | .all, _, _ => ⟨some true, rfl⟩
  | .compare column test constant, hf, h => truth_ok hr (h column (by simp [mentions])) hf test
  | .isNull column, _, h => by
    obtain ⟨v, hv⟩ := exists_value (h column (by simp [mentions]))
    exact ⟨some v.isNull, by simp only [eval, hv]⟩
  | .and terms, hf, h => evalAnd_ok hr terms (some true) hf h
  | .or terms, hf, h => evalOr_ok hr terms (some false) hf h
  | .not term, hf, h => by
    obtain ⟨t, ht⟩ := eval_ok hr term hf h
    exact ⟨t.map fun b => !b, by simp only [eval, ht, Except.map]⟩

theorem evalAnd_ok (hr : Suits s r) : (fs : List Filter) → (sofar : Option Bool) →
    allWellTyped s fs → (∀ n ∈ mentionsAll fs, n ∈ r.schema.names) →
    ∃ t, evalAnd r sofar fs = .ok t
  | [], sofar, _, _ => ⟨sofar, rfl⟩
  | f :: rest, sofar, hf, h => by
    simp only [allWellTyped, Bool.and_eq_true] at hf
    simp only [mentionsAll, List.mem_append] at h
    obtain ⟨t, ht⟩ := eval_ok hr f hf.1 fun n hn => h n (.inl hn)
    have hrest (sofar : Option Bool) := evalAnd_ok hr rest sofar hf.2 fun n hn => h n (.inr hn)
    simp only [evalAnd, ht]
    match t with
    | some false => exact ⟨some false, rfl⟩
    | some true => exact hrest sofar
    | none => exact hrest none

theorem evalOr_ok (hr : Suits s r) : (fs : List Filter) → (sofar : Option Bool) →
    allWellTyped s fs → (∀ n ∈ mentionsAll fs, n ∈ r.schema.names) →
    ∃ t, evalOr r sofar fs = .ok t
  | [], sofar, _, _ => ⟨sofar, rfl⟩
  | f :: rest, sofar, hf, h => by
    simp only [allWellTyped, Bool.and_eq_true] at hf
    simp only [mentionsAll, List.mem_append] at h
    obtain ⟨t, ht⟩ := eval_ok hr f hf.1 fun n hn => h n (.inl hn)
    have hrest (sofar : Option Bool) := evalOr_ok hr rest sofar hf.2 fun n hn => h n (.inr hn)
    simp only [evalOr, ht]
    match t with
    | some true => exact ⟨some true, rfl⟩
    | some false => exact hrest sofar
    | none => exact hrest none
end

/-- A filter that keeps or drops each of some rows, and fails on none. -/
def Decides (f : Filter) (rows : List Row) : Prop := ∀ r ∈ rows, ∃ keep, f.keeps r = .ok keep

theorem decides_of_wellTyped {f : Filter} {names : List String} {rows : List Row}
    (hf : f.wellTyped s) (hn : f.refersOnlyTo names) (hr : ∀ r ∈ rows, Suits s r)
    (hnames : ∀ r ∈ rows, ∀ n ∈ names, n ∈ r.schema.names) : f.Decides rows := by
  intro r hmem
  obtain ⟨t, ht⟩ := eval_ok (hr r hmem) f hf fun n hmentions =>
    hnames r hmem n (refersOnlyTo_iff.mp hn n hmentions)
  exact ⟨t = some true, by rw [keeps, ht]; rfl⟩

/-- Whether a filter keeps a row, where it does not fail. -/
def passes (f : Filter) (r : Row) : Bool :=
  match f.keeps r with
  | .ok keep => keep
  | .error _ => false

variable {f : Filter} {rows : List Row}

@[simp] theorem passes_all (r : Row) : Filter.all.passes r = true := rfl

@[simp] theorem filter_passes_all (rows : List Row) : rows.filter Filter.all.passes = rows :=
  List.filter_eq_self.mpr fun _ _ => rfl

theorem passes_of_keeps {keep : Bool} (h : f.keeps r = .ok keep) : f.passes r = keep := by
  rw [passes, h]

theorem passes_congr {a b : Row} (h : f.keeps a = f.keeps b) : f.passes a = f.passes b := by
  rw [passes, passes, h]

theorem Decides.keeps_eq (h : f.Decides rows) (hr : r ∈ rows) : f.keeps r = .ok (f.passes r) := by
  obtain ⟨keep, hk⟩ := h r hr
  rw [hk, passes_of_keeps hk]

theorem Decides.subset {more : List Row} (h : f.Decides more) (hs : rows ⊆ more) :
    f.Decides rows := fun r hr => h r (hs hr)

theorem decides_all (rows : List Row) : Filter.all.Decides rows := fun _ _ => ⟨true, rfl⟩

end Filter
end DatasetAlgebra
