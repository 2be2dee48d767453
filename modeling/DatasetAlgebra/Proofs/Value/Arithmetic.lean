import DatasetAlgebra.Value.Arithmetic
import Mathlib.Algebra.Ring.Int.Defs

/-!
Arithmetic on values. An operation on two integers gives its exact result, or fails if that has no
64 bits or there is none; a null among them makes the result null; operands of other types are
refused, null or not. So adding up integers is exact for as long as no sum on the way leaves the
range, and then it fails.
-/
namespace DatasetAlgebra

/-- Whether an integer has 64 bits. -/
def Fits64 (n : Int) : Prop := -2 ^ 63 ≤ n ∧ n < 2 ^ 63

instance (n : Int) : Decidable (Fits64 n) := inferInstanceAs (Decidable (_ ∧ _))

theorem fits64_toInt (n : Int64) : Fits64 n.toInt := ⟨n.le_toInt, n.toInt_lt⟩

theorem toInt_ofInt_of_fits {n : Int} (h : Fits64 n) : (Int64.ofInt n).toInt = n :=
  Int64.toInt_ofInt_of_le h.1 h.2

theorem narrow?_of_fits {n : Int} (h : Fits64 n) : Int64.narrow? n = some (Int64.ofInt n) := by
  have hmin : Int64.minValue.toInt = -2 ^ 63 := rfl
  have hmax : Int64.maxValue.toInt = 2 ^ 63 - 1 := rfl
  obtain ⟨hlow, hhigh⟩ := h
  rw [Int64.narrow?, if_pos]
  omega

theorem narrow?_of_not_fits {n : Int} (h : ¬Fits64 n) : Int64.narrow? n = none := by
  have hmin : Int64.minValue.toInt = -2 ^ 63 := rfl
  have hmax : Int64.maxValue.toInt = 2 ^ 63 - 1 := rfl
  rw [Int64.narrow?, if_neg]
  intro hn
  apply h
  unfold Fits64
  omega

/-- Whether `q` is the quotient of `a` and `b` without its fraction: what remains is smaller than the
divisor, and on the side of zero where the dividend is. -/
def Truncates (a b q : Int) : Prop :=
  ∃ r, r + b * q = a ∧ r.natAbs < b.natAbs ∧ (0 ≤ a → 0 ≤ r) ∧ (a < 0 → r ≤ 0)

theorem not_truncates_zero (a q : Int) : ¬Truncates a 0 q := by
  rintro ⟨r, -, hr, -⟩
  simp at hr

theorem truncates_iff {a b q : Int} (hb : b ≠ 0) : Truncates a b q ↔ a.tdiv b = q := by
  rcases Int.lt_or_le a 0 with ha | ha
  · have hunique {r : Int} := Int.tdiv_tmod_unique' (r := r) (q := q) (Int.le_of_lt ha) hb
    constructor
    · rintro ⟨r, hsum, hsmall, -, hside⟩
      have hneg := hside ha
      exact (hunique.mpr ⟨hsum, by omega, hneg⟩).1
    · intro hq
      obtain ⟨hsum, hsmall, hside⟩ := hunique.mp ⟨hq, rfl⟩
      exact ⟨_, hsum, by omega, fun hpos => by omega, fun _ => hside⟩
  · have hunique {r : Int} := Int.tdiv_tmod_unique (r := r) (q := q) ha hb
    constructor
    · rintro ⟨r, hsum, hsmall, hside, -⟩
      have hpos := hside ha
      exact (hunique.mpr ⟨hsum, hpos, by omega⟩).1
    · intro hq
      obtain ⟨hsum, hside, hsmall⟩ := hunique.mp ⟨hq, rfl⟩
      exact ⟨_, hsum, by omega, fun _ => hside, fun hneg => by omega⟩

/-- Whether an operation on two integers gives `n`, as it does in mathematics. -/
def ArithmeticOp.Gives : ArithmeticOp → Int → Int → Int → Prop
  | .add, a, b, n => n = a + b
  | .subtract, a, b, n => n + b = a
  | .multiply, a, b, n => n = a * b
  | .divide, a, b, n => Truncates a b n

theorem ArithmeticOp.onIntegers?_eq_some_iff {op : ArithmeticOp} {a b n : Int} :
    op.onIntegers? a b = some n ↔ op.Gives a b n := by
  cases op with
  | add => exact Option.some_inj.trans eq_comm
  | subtract =>
    simp only [onIntegers?, Gives, Option.some_inj]
    omega
  | multiply => exact Option.some_inj.trans eq_comm
  | divide =>
    by_cases hb : b = 0
    · subst hb
      exact iff_of_false (by simp [onIntegers?]) (not_truncates_zero a n)
    · simp only [onIntegers?, if_neg hb, Option.some_inj, Gives, truncates_iff hb]

namespace Value

variable {op : ArithmeticOp} {a b : Value} {x y : Int64} {n : Int}

theorem arithmetic_of_gives (h : op.Gives x.toInt y.toInt n) (hn : Fits64 n) :
    arithmetic op (ofInt64 x) (ofInt64 y) = .ok (ofInt64 (Int64.ofInt n)) := by
  have hresult : (op.onIntegers? x.toInt y.toInt).bind Int64.narrow? = some (Int64.ofInt n) := by
    rw [ArithmeticOp.onIntegers?_eq_some_iff.mpr h, Option.bind_some, narrow?_of_fits hn]
  simp [arithmetic, ofInt64, Scalar.type, ValueType.isNumeric, hresult]

theorem arithmetic_of_not_fits (h : ∀ n, op.Gives x.toInt y.toInt n → ¬Fits64 n) :
    arithmetic op (ofInt64 x) (ofInt64 y) = .error (.arithmetic (.binary op.name x y)) := by
  have hresult : (op.onIntegers? x.toInt y.toInt).bind Int64.narrow? = none := by
    rw [Option.bind_eq_none_iff]
    exact fun n hn => narrow?_of_not_fits (h n (ArithmeticOp.onIntegers?_eq_some_iff.mp hn))
  simp [arithmetic, ofInt64, Scalar.type, ValueType.isNumeric, hresult]

theorem integers_of_arithmetic {z : Int64} (h : arithmetic op a b = .ok (ofInt64 z)) :
    ∃ x y, a = ofInt64 x ∧ b = ofInt64 y := by
  unfold arithmetic at h
  split at h
  · split at h
    · exact ⟨_, _, rfl, rfl⟩
    · cases h
    · cases h
  · cases h

theorem gives_of_arithmetic {v : Value} (h : arithmetic op (ofInt64 x) (ofInt64 y) = .ok v) :
    ∃ z : Int64, v = ofInt64 z ∧ op.Gives x.toInt y.toInt z.toInt := by
  by_cases hexact : ∃ n, op.Gives x.toInt y.toInt n ∧ Fits64 n
  · obtain ⟨n, hgives, hfits⟩ := hexact
    rw [arithmetic_of_gives hgives hfits] at h
    cases h
    exact ⟨_, rfl, by rwa [toInt_ofInt_of_fits hfits]⟩
  · rw [arithmetic_of_not_fits fun n hgives hfits => hexact ⟨n, hgives, hfits⟩] at h
    cases h

theorem arithmetic_of_isNull (ha : a.type = .integer) (hb : b.type = .integer)
    (h : a.isNull ∨ b.isNull) : arithmetic op a b = .ok (null .integer) := by
  unfold arithmetic
  rw [if_pos (by simp [ha, hb, ValueType.isNumeric]), ha]
  split
  · simp at h
  · cases ha
  · rfl

theorem arithmetic_of_mistyped (h : ¬(a.type = b.type ∧ a.type.isNumeric)) :
    arithmetic op a b = .error (.operands op.name a.type b.type) :=
  if_neg (by simpa using h)

theorem negate_of_fits (h : Fits64 (-x.toInt)) :
    (ofInt64 x).negate = .ok (ofInt64 (Int64.ofInt (-x.toInt))) := by
  rw [ofInt64, negate, narrow?_of_fits h]

theorem negate_of_not_fits (h : ¬Fits64 (-x.toInt)) :
    (ofInt64 x).negate = .error (.arithmetic (.negation x)) := by
  rw [ofInt64, negate, narrow?_of_not_fits h]

theorem negate_of_mistyped (h : a.type.isNumeric = false) :
    a.negate = .error (.operands "negation" a.type a.type) := by
  unfold negate
  split
  · cases h
  · cases h
  · rw [if_neg (by simp [h])]
    rfl

theorem subtract_of_add {z : Int64} (h : a.add b = .ok (ofInt64 z)) :
    (ofInt64 z).subtract b = .ok a := by
  obtain ⟨x, y, rfl, rfl⟩ := integers_of_arithmetic h
  obtain ⟨z', hz, hsum⟩ := gives_of_arithmetic h
  cases hz
  have hdifference : ArithmeticOp.subtract.Gives z.toInt y.toInt x.toInt := hsum.symm
  rw [subtract, arithmetic_of_gives hdifference (fits64_toInt x), Int64.ofInt_toInt]

end Value

/-- Whether a sum stays within 64 bits while integers are added to it one after the other. -/
def SumsFit (start : Int) (ns : List Int) : Prop := ∀ p, p <+: ns → Fits64 (start + p.sum)

theorem sumsFit_cons {start n : Int} {ns : List Int} :
    SumsFit start (n :: ns) ↔ Fits64 start ∧ SumsFit (start + n) ns := by
  constructor
  · intro h
    refine ⟨by simpa using h [] List.nil_prefix, fun p hp => ?_⟩
    have hcons := h (n :: p) (List.prefix_cons_inj n |>.mpr hp)
    rwa [List.sum_cons, ← Int.add_assoc] at hcons
  · rintro ⟨hstart, hrest⟩ p hp
    rcases List.prefix_cons_iff.mp hp with rfl | ⟨q, rfl, hq⟩
    · simpa using hstart
    · rw [List.sum_cons, ← Int.add_assoc]
      exact hrest q hq

namespace Value

/-- Adding up integers gives their sum if no sum on the way leaves the range, and fails if one
does. -/
theorem foldlM_add (m : Int64) (ns : List Int64) :
    (SumsFit m.toInt (ns.map Int64.toInt) →
      ∃ z : Int64, z.toInt = m.toInt + (ns.map Int64.toInt).sum ∧
        (ns.map ofInt64).foldlM add (ofInt64 m) = .ok (ofInt64 z)) ∧
    (¬SumsFit m.toInt (ns.map Int64.toInt) →
      ∃ x y, (ns.map ofInt64).foldlM add (ofInt64 m) =
        .error (.arithmetic (.binary "addition" x y))) := by
  induction ns generalizing m with
  | nil =>
    refine ⟨fun _ => ⟨m, by simp, rfl⟩, fun h => absurd (fun p hp => ?_) h⟩
    rw [List.prefix_nil.mp hp]
    simpa using fits64_toInt m
  | cons n ns ih =>
    rw [List.map_cons, List.map_cons, List.foldlM_cons, sumsFit_cons]
    by_cases hfits : Fits64 (m.toInt + n.toInt)
    · obtain ⟨hall, hfails⟩ := ih (Int64.ofInt (m.toInt + n.toInt))
      rw [toInt_ofInt_of_fits hfits] at hall hfails
      have hsum : ArithmeticOp.add.Gives m.toInt n.toInt (m.toInt + n.toInt) := rfl
      have hadd : add (ofInt64 m) (ofInt64 n) = .ok (ofInt64 (Int64.ofInt (m.toInt + n.toInt))) :=
        arithmetic_of_gives hsum hfits
      rw [hadd]
      refine ⟨fun h => ?_, fun h => hfails fun hrest => h ⟨fits64_toInt m, hrest⟩⟩
      obtain ⟨z, hz, hfold⟩ := hall h.2
      exact ⟨z, by rw [hz, List.sum_cons, Int.add_assoc], hfold⟩
    · have hover : ∀ k, ArithmeticOp.add.Gives m.toInt n.toInt k → ¬Fits64 k :=
        fun _ hk => hk ▸ hfits
      have hadd : add (ofInt64 m) (ofInt64 n) = .error (.arithmetic (.binary "addition" m n)) :=
        arithmetic_of_not_fits hover
      rw [hadd]
      refine ⟨fun h => absurd ?_ hfits, fun _ => ⟨m, n, rfl⟩⟩
      simpa using h.2 [] List.nil_prefix

theorem divide_zero (x : Int64) :
    (ofInt64 x).divide (ofInt64 0) = .error (.arithmetic (.binary "division" x 0)) := by
  have hnone : ∀ n, ¬ArithmeticOp.divide.Gives x.toInt (0 : Int64).toInt n :=
    not_truncates_zero x.toInt
  exact arithmetic_of_not_fits fun n hn => absurd hn (hnone n)

/-- Two integers have their exact result if there is one of 64 bits, and none otherwise. Nulls make
it null, operands of unequal or no numeric type are refused, and sums can be taken back. -/
theorem exact_or_refused (op : ArithmeticOp) (x y : Int64) (a b : Value) :
    (∀ n, op.Gives x.toInt y.toInt n → Fits64 n →
      ∃ z : Int64, z.toInt = n ∧ arithmetic op (ofInt64 x) (ofInt64 y) = .ok (ofInt64 z)) ∧
    ((∀ n, op.Gives x.toInt y.toInt n → ¬Fits64 n) →
      arithmetic op (ofInt64 x) (ofInt64 y) = .error (.arithmetic (.binary op.name x y))) ∧
    (Fits64 (-x.toInt) →
      ∃ z : Int64, z.toInt = -x.toInt ∧ (ofInt64 x).negate = .ok (ofInt64 z)) ∧
    (¬Fits64 (-x.toInt) → (ofInt64 x).negate = .error (.arithmetic (.negation x))) ∧
    (ofInt64 x).divide (ofInt64 0) = .error (.arithmetic (.binary "division" x 0)) ∧
    (ofInt64 Int64.minValue).divide (ofInt64 (-1)) =
      .error (.arithmetic (.binary "division" Int64.minValue (-1))) ∧
    (ofInt64 Int64.minValue).negate = .error (.arithmetic (.negation Int64.minValue)) ∧
    (a.type = .integer → b.type = .integer → a.isNull ∨ b.isNull →
      arithmetic op a b = .ok (null .integer)) ∧
    (null .integer).negate = .ok (null .integer) ∧
    (a.type ≠ b.type ∨ ¬a.type.isNumeric ∨ ¬b.type.isNumeric →
      arithmetic op a b = .error (.operands op.name a.type b.type)) ∧
    (¬a.type.isNumeric → a.negate = .error (.operands "negation" a.type a.type)) ∧
    (∀ z, a.add b = .ok (ofInt64 z) → (ofInt64 z).subtract b = .ok a) ∧
    ∀ ns : List Int64,
      ((∃ v, (ns.map ofInt64).foldlM add (ofInt64 x) = .ok v) ↔
        SumsFit x.toInt (ns.map Int64.toInt)) ∧
      ∀ v, (ns.map ofInt64).foldlM add (ofInt64 x) = .ok v →
        ∃ z : Int64, v = ofInt64 z ∧ z.toInt = x.toInt + (ns.map Int64.toInt).sum := by
  have hleast : (ofInt64 Int64.minValue).divide (ofInt64 (-1)) =
      .error (.arithmetic (.binary "division" Int64.minValue (-1))) := rfl
  refine ⟨fun n hn hfits => ?_, arithmetic_of_not_fits, fun hfits => ?_, negate_of_not_fits,
    divide_zero x, hleast, rfl, arithmetic_of_isNull, rfl, fun h => ?_, fun h => ?_,
    fun z => subtract_of_add, fun ns => ?_⟩
  · exact ⟨_, toInt_ofInt_of_fits hfits, arithmetic_of_gives hn hfits⟩
  · exact ⟨_, toInt_ofInt_of_fits hfits, negate_of_fits hfits⟩
  · refine arithmetic_of_mistyped fun ⟨htype, hnumeric⟩ => ?_
    rcases h with h | h | h
    · exact h htype
    · exact h hnumeric
    · exact h (htype ▸ hnumeric)
  · exact negate_of_mistyped (Bool.not_eq_true _ ▸ h)
  · obtain ⟨hall, hfails⟩ := foldlM_add x ns
    by_cases hfits : SumsFit x.toInt (ns.map Int64.toInt)
    · obtain ⟨z, hz, hfold⟩ := hall hfits
      rw [hfold]
      exact ⟨iff_of_true ⟨_, rfl⟩ hfits, fun v hv => by cases hv; exact ⟨z, rfl, hz⟩⟩
    · obtain ⟨m, n, hfold⟩ := hfails hfits
      rw [hfold]
      exact ⟨iff_of_false (fun ⟨v, hv⟩ => by cases hv) hfits, fun v hv => by cases hv⟩

/-- Quotients are truncated, not rounded down. -/
example : (ofInt64 (-7)).divide (ofInt64 2) = .ok (ofInt64 (-3)) := by rfl

end Value
end DatasetAlgebra
