import DatasetAlgebra.Filter.Eval
import DatasetAlgebra.Proofs.Row.Hashing

/-!
Filters that are equal evaluate alike, as long as the zeros inside their constants have the same
signs. With that, equality of values, rows and filters is set against their order, hash content
and evaluation: zeros inside stored JSON values are all that they disagree on.
-/
namespace DatasetAlgebra

namespace Filter

mutual
/-- The signs of the zeros inside the constants, in the order of the text. -/
def zeroSigns : Filter → List Bool
  | .compare _ _ constant => constant.zeroSigns
  | .and terms | .or terms => termZeroSigns terms
  | .not term => term.zeroSigns
  | .all | .isNull _ => []

def termZeroSigns : List Filter → List Bool
  | [] => []
  | f :: rest => f.zeroSigns ++ termZeroSigns rest
end

mutual
theorem length_zeroSigns : (f : Filter) → {g : Filter} → f.same g →
    f.zeroSigns.length = g.zeroSigns.length
  | .all, g, h | .isNull _, g, h => by
    cases g <;> simp [same, zeroSigns] at h ⊢
  | .compare _ _ x, g, h => by
    cases g <;> simp only [same, Bool.and_eq_true, Bool.false_eq_true] at h
    case compare => exact Value.length_zeroSigns h.2
  | .and fs, g, h | .or fs, g, h => by
    cases g <;> simp only [same, Bool.false_eq_true] at h
    exact length_termZeroSigns fs h
  | .not f, g, h => by
    cases g <;> simp only [same, Bool.false_eq_true] at h
    case not g => exact length_zeroSigns (g := g) f h

theorem length_termZeroSigns : (fs : List Filter) → {gs : List Filter} → sameTerms fs gs →
    (termZeroSigns fs).length = (termZeroSigns gs).length
  | [], [], _ => rfl
  | f :: fs, g :: gs, h => by
    simp only [sameTerms, Bool.and_eq_true] at h
    simp only [termZeroSigns, List.length_append, length_zeroSigns f h.1,
      length_termZeroSigns fs h.2]
  | [], _ :: _, h | _ :: _, [], h => by simp [sameTerms] at h
end

variable {r : Row}

mutual
/-- Every constant may be replaced by an equal one with the same signs of zeros. -/
theorem eval_of_same : (f : Filter) → {g : Filter} → f.same g → f.zeroSigns = g.zeroSigns →
    eval r f = eval r g
  | .all, g, h, _ => by
    cases g <;> simp only [same, Bool.false_eq_true] at h
    rfl
  | .isNull _, g, h, _ => by
    cases g <;> simp only [same, beq_iff_eq, Bool.false_eq_true] at h
    rw [h]
  | .compare column test x, g, h, hz => by
    cases g <;> simp only [same, Bool.and_eq_true, beq_iff_eq, Bool.false_eq_true] at h
    case compare column' test' y =>
      obtain ⟨⟨rfl, rfl⟩, hxy⟩ := h
      have hcollate : x.collate y = .eq := Value.collate_eq_iff.mpr ⟨hxy, hz⟩
      simp only [eval, truth, Value.compare_congr_right hcollate]
  | .and fs, g, h, hz => by
    cases g <;> simp only [same, Bool.false_eq_true] at h
    exact evalAnd_of_same fs (some true) h hz
  | .or fs, g, h, hz => by
    cases g <;> simp only [same, Bool.false_eq_true] at h
    exact evalOr_of_same fs (some false) h hz
  | .not f, g, h, hz => by
    cases g <;> simp only [same, Bool.false_eq_true] at h
    case not g => simp only [eval, eval_of_same (g := g) f h hz]

theorem evalAnd_of_same : (fs : List Filter) → (sofar : Option Bool) → {gs : List Filter} →
    sameTerms fs gs → termZeroSigns fs = termZeroSigns gs →
    evalAnd r sofar fs = evalAnd r sofar gs
  | [], _, [], _, _ => rfl
  | f :: fs, sofar, g :: gs, h, hz => by
    simp only [sameTerms, Bool.and_eq_true] at h
    obtain ⟨hz, hzs⟩ := List.append_inj hz (length_zeroSigns f h.1)
    have hrest (sofar : Option Bool) := evalAnd_of_same fs sofar h.2 hzs
    simp only [evalAnd, eval_of_same f h.1 hz, hrest]
  | [], _, _ :: _, h, _ | _ :: _, _, [], h, _ => by simp [sameTerms] at h

theorem evalOr_of_same : (fs : List Filter) → (sofar : Option Bool) → {gs : List Filter} →
    sameTerms fs gs → termZeroSigns fs = termZeroSigns gs →
    evalOr r sofar fs = evalOr r sofar gs
  | [], _, [], _, _ => rfl
  | f :: fs, sofar, g :: gs, h, hz => by
    simp only [sameTerms, Bool.and_eq_true] at h
    obtain ⟨hz, hzs⟩ := List.append_inj hz (length_zeroSigns f h.1)
    have hrest (sofar : Option Bool) := evalOr_of_same fs sofar h.2 hzs
    simp only [evalOr, eval_of_same f h.1 hz, hrest]
  | [], _, _ :: _, h, _ | _ :: _, _, [], h, _ => by simp [sameTerms] at h
end

end Filter

/-- Order and hash content of values agree. With equality they agree up to the signs of zeros inside
stored JSON values, and so do the hashes of rows and the evaluation of filters. -/
theorem equal_up_to_zero_signs (a b : Value) (p q : Row) (f g : Filter) (r : Row) :
    (a.collate b = .eq ↔ a == b ∧ a.zeroSigns = b.zeroSigns) ∧
    (a.hashContent = b.hashContent ↔ a == b ∧ a.zeroSigns = b.zeroSigns) ∧
    ((p.schema.fingerprint = q.schema.fingerprint →
        p.schema.fingerprintBytes = q.schema.fingerprintBytes) →
      (p.hashContent = q.hashContent ↔ p.same q ∧
        ∀ name v w, p.value? name = some v → q.value? name = some w →
          v.zeroSigns = w.zeroSigns)) ∧
    (f == g → f.zeroSigns = g.zeroSigns → f.eval r = g.eval r) := by
  refine ⟨Value.collate_eq_iff, ?_, Row.hashContent_eq_iff, f.eval_of_same⟩
  rw [← Value.collate_eq_iff_hashContent, Value.collate_eq_iff]

namespace SignedZeros

def declared : Schema :=
  ⟨[⟨"v", .measure, .float⟩, ⟨"o", .measure, .object⟩], by decide⟩

/-- The same columns in another order. -/
def reordered : Schema :=
  ⟨[⟨"o", .measure, .object⟩, ⟨"v", .measure, .float⟩], by decide⟩

theorem mem_declared_iff (c : Column) : c ∈ declared.columns ↔ c ∈ reordered.columns := by
  simp only [declared, reordered, List.mem_cons, List.not_mem_nil, or_false]
  exact Or.comm

/-- A stored JSON number. -/
def number (x : Float) (h : Binary64.isFinite x) : Value := .ofJson ⟨.float x, h⟩

def zero : Value := number 0.0 (by decide)

def negativeZero : Value := number (-0.0) (by decide)

/-- A row of zeros, one of them inside a stored JSON value. -/
def row (o : Value) : Row := ⟨declared, [.ofFloat 0.0, o], rfl⟩

def reorderedRow : Row := ⟨reordered, [zero, .ofFloat (-0.0)], rfl⟩

theorem value?_row {o v : Value} {name : String} (h : (row o).value? name = some v) :
    name = "v" ∧ v = .ofFloat 0.0 ∨ name = "o" ∧ v = o := by
  simpa [← Row.mem_zip_values, row, declared, Schema.names] using h

theorem same_reorderedRow : (row zero).same reorderedRow := by
  refine Row.same_iff.mpr ⟨Schema.same_of_columns mem_declared_iff, fun name v hv => ?_⟩
  rcases value?_row hv with ⟨rfl, rfl⟩ | ⟨rfl, rfl⟩
  · exact ⟨.ofFloat (-0.0), rfl, by decide⟩
  · exact ⟨zero, rfl, by decide⟩

/-- In a float column the two zeros are one number. -/
theorem equal_in_float_column :
    (row zero).same reorderedRow ∧ (row zero).hashContent = reorderedRow.hashContent ∧
      (Filter.compare "v" .eq (.ofFloat 0.0)).eval reorderedRow =
        (Filter.compare "v" .eq (.ofFloat (-0.0))).eval reorderedRow := by
  obtain ⟨-, -, hrows, hfilters⟩ := equal_up_to_zero_signs zero zero (row zero) reorderedRow
    (.compare "v" .eq (.ofFloat 0.0)) (.compare "v" .eq (.ofFloat (-0.0))) reorderedRow
  refine ⟨same_reorderedRow, ?_, hfilters (by decide) rfl⟩
  refine (hrows fun _ => Schema.fingerprintBytes_of_columns mem_declared_iff).mpr
    ⟨same_reorderedRow, fun name v w hv hw => ?_⟩
  rcases value?_row hv with ⟨rfl, rfl⟩ | ⟨rfl, rfl⟩
  · cases hw
    rfl
  · cases hw
    rfl

/-- Inside stored JSON values the two zeros are equal, but order, hash and comparison with a
constant tell them apart. -/
theorem told_apart_in_documents :
    zero == negativeZero ∧ zero.collate negativeZero ≠ .eq ∧
      zero.hashContent ≠ negativeZero.hashContent ∧
      (row zero).same (row negativeZero) ∧
      (row zero).hashContent ≠ (row negativeZero).hashContent ∧
      Filter.compare "o" .eq zero == Filter.compare "o" .eq negativeZero ∧
      (Filter.compare "o" .eq zero).eval (row zero) = .ok (some true) ∧
      (Filter.compare "o" .eq negativeZero).eval (row zero) = .ok (some false) := by
  have hequal : zero == negativeZero := by decide
  have hsigns : zero.zeroSigns ≠ negativeZero.zeroSigns := by decide
  have hcollate : zero.collate negativeZero ≠ .eq := fun h =>
    hsigns (Value.collate_eq_iff.mp h).2
  have hhash := mt Value.collate_eq_iff_hashContent.mpr hcollate
  refine ⟨hequal, hcollate, hhash, ?_, fun h => hhash ?_, by decide, ?_, ?_⟩
  · refine Row.same_iff.mpr ⟨decide_eq_true rfl, fun name v hv => ?_⟩
    rcases value?_row hv with ⟨rfl, rfl⟩ | ⟨rfl, rfl⟩
    · exact ⟨.ofFloat 0.0, rfl, by decide⟩
    · exact ⟨negativeZero, rfl, by decide⟩
  · exact Option.some.inj ((Row.hashContent_eq_iff_values.mp h).2 "o")
  · with_unfolding_all rfl
  · with_unfolding_all rfl

end SignedZeros

end DatasetAlgebra
