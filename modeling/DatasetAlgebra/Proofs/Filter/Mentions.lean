import DatasetAlgebra.Filter.Eval
import DatasetAlgebra.Proofs.Value.Collation

/-!
A filter depends on the values of the columns that it mentions, and on nothing else of a row. Of
the values it matters only how they stand in the order of values.
-/
namespace DatasetAlgebra
namespace Filter

theorem mem_columns {f : Filter} {name : String} : name ∈ f.columns ↔ name ∈ f.mentions := by
  simp [columns]

theorem refersOnlyTo_iff {f : Filter} {names : List String} :
    f.refersOnlyTo names ↔ ∀ n ∈ f.mentions, n ∈ names := by
  simp [refersOnlyTo, mem_columns]

theorem all_refersOnlyTo (names : List String) : all.refersOnlyTo names := by
  simp [refersOnlyTo_iff, mentions]

/-- Values that are equal in the order, or none on either side. -/
abbrev Alike (v w : Option Value) : Prop := Option.Rel (fun v w => v.collate w = .eq) v w

theorem Alike.of_eq {v w : Option Value} (h : v = w) : Alike v w := by
  subst h
  cases v with
  | none => exact .none
  | some v => exact .some Std.ReflCmp.compare_self

variable {a b : Row}

theorem truth_congr {column : String} (h : Alike (a.value? column) (b.value? column))
    (test : Comparison) (constant : Value) :
    truth a column test constant = truth b column test constant := by
  unfold truth
  generalize a.value? column = v at h
  generalize b.value? column = w at h
  cases h with
  | none => rfl
  | some h => simp only [Value.compare_congr h]

mutual
theorem eval_congr : (f : Filter) → (∀ n ∈ f.mentions, Alike (a.value? n) (b.value? n)) →
    eval a f = eval b f
  | .all, _ => rfl
  | .compare column test constant, h => truth_congr (h column (by simp [mentions])) test constant
  | .isNull column, h => by
    have hc : Alike (a.value? column) (b.value? column) := h column (by simp [mentions])
    unfold eval
    generalize a.value? column = v at hc
    generalize b.value? column = w at hc
    cases hc with
    | none => rfl
    | some hvw => simp only [Value.isNull_eq_of_collate hvw]
  | .and terms, h => evalAnd_congr terms (some true) h
  | .or terms, h => evalOr_congr terms (some false) h
  | .not term, h => by
    have ht := eval_congr term h
    simp only [eval, ht]

theorem evalAnd_congr : (fs : List Filter) → (sofar : Option Bool) →
    (∀ n ∈ mentionsAll fs, Alike (a.value? n) (b.value? n)) →
    evalAnd a sofar fs = evalAnd b sofar fs
  | [], _, _ => rfl
  | f :: rest, sofar, h => by
    simp only [mentionsAll, List.mem_append] at h
    have hf := eval_congr f fun n hn => h n (.inl hn)
    have hrest (sofar : Option Bool) := evalAnd_congr rest sofar fun n hn => h n (.inr hn)
    simp only [evalAnd, hf, hrest]

theorem evalOr_congr : (fs : List Filter) → (sofar : Option Bool) →
    (∀ n ∈ mentionsAll fs, Alike (a.value? n) (b.value? n)) →
    evalOr a sofar fs = evalOr b sofar fs
  | [], _, _ => rfl
  | f :: rest, sofar, h => by
    simp only [mentionsAll, List.mem_append] at h
    have hf := eval_congr f fun n hn => h n (.inl hn)
    have hrest (sofar : Option Bool) := evalOr_congr rest sofar fun n hn => h n (.inr hn)
    simp only [evalOr, hf, hrest]
end

theorem keeps_congr_of_alike {f : Filter} {names : List String} (hf : f.refersOnlyTo names)
    (h : ∀ n ∈ names, Alike (a.value? n) (b.value? n)) : f.keeps a = f.keeps b := by
  rw [keeps, keeps, eval_congr f fun n hn => h n (refersOnlyTo_iff.mp hf n hn)]

/-- Rows with the same values under the names that a filter may refer to are kept alike. -/
theorem keeps_congr {f : Filter} {names : List String} (hf : f.refersOnlyTo names)
    (h : ∀ n ∈ names, a.value? n = b.value? n) : f.keeps a = f.keeps b :=
  keeps_congr_of_alike hf fun n hn => .of_eq (h n hn)

end Filter
end DatasetAlgebra
