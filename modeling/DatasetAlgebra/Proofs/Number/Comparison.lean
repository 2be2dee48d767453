import DatasetAlgebra.Number.Binary64
import Mathlib

/-!
Ranks against the comparison of numbers. A number is compared by its sign, its exponent and its
mantissa; read off its bit pattern these make a signed magnitude, and numbers that are not NaN
compare as their ranks do.
-/
namespace DatasetAlgebra
namespace Binary64

open Float.Model (UnpackedFloat)
open Float.Model.UnpackedFloat (Sign unpackExponent unpackMantissa unpackSign)

/-! ### Parts of a number -/

def sign (x : Float) : Sign := if isNegative x then .negative else .positive

/-- A finite number other than zero, by its magnitude. Exponents are as far apart as there are
mantissas with a leading bit; without that bit the exponent is the lowest one. -/
structure Counts (magnitude mantissa : Nat) (exponent : Int) : Prop where
  count : (magnitude : Int) = 2 ^ 52 * (exponent + 1074) + mantissa
  lowest : -1074 ≤ exponent
  mantissa_lt : mantissa < 2 ^ 53
  leading : -1074 < exponent → 2 ^ 52 ≤ mantissa

/-- What a number of some sign and magnitude is read as. -/
inductive Reads (s : Sign) (magnitude : Nat) : UnpackedFloat → Prop
  | nan (h : infinity < magnitude) : Reads s magnitude .notANumber
  | infinity (h : magnitude = infinity) : Reads s magnitude (.infinity s)
  | zero (h : magnitude = 0) : Reads s magnitude (.zero s)
  | finite {m : Nat} {e : Int} (h : magnitude < Binary64.infinity) (hm : 0 < m)
    (hc : Counts magnitude m e) : Reads s magnitude (.finite s m e hm)

theorem ofBitVec_unpackSign (x : Float) :
    Sign.ofBitVec (@unpackSign .binary64 x.toBits.toBitVec) = sign x := by
  have hlt := x.toBits.toNat_lt
  have hs : @unpackSign .binary64 x.toBits.toBitVec = 0#1 ↔ ¬isNegative x := by
    rw [← BitVec.toNat_inj]
    simp [unpackSign, isNegative, Nat.shiftRight_eq_div_pow]
    omega
  by_cases h : isNegative x <;> simp [Sign.ofBitVec, sign, hs, h]

theorem unpackExponent_eq_iff (x : Float) (e : BitVec 11) :
    @unpackExponent .binary64 x.toBits.toBitVec = e ↔ magnitude x / 2 ^ 52 = e.toNat := by
  rw [← BitVec.toNat_inj]
  simp only [unpackExponent, magnitude, BitVec.toNat_cast, BitVec.extractLsb_toNat,
    Nat.shiftRight_eq_div_pow, UInt64.toNat_toBitVec]
  simp only [Nat.pow_eq, Nat.reducePow, Nat.reduceAdd, Nat.reduceSub]
  omega

theorem unpackMantissa_eq_iff (x : Float) (m : BitVec 52) :
    @unpackMantissa .binary64 x.toBits.toBitVec = m ↔ magnitude x % 2 ^ 52 = m.toNat := by
  rw [← BitVec.toNat_inj]
  simp [unpackMantissa, magnitude]

theorem reads_unpack (x : Float) : Reads (sign x) (magnitude x) x.toModel.unpack := by
  have hx : x.toModel.unpack = UnpackedFloat.unpack .binary64 x.toBits.toBitVec := rfl
  have hexponent := unpackExponent_eq_iff x
  have hmantissa := unpackMantissa_eq_iff x
  have he := (hexponent _).mp rfl
  have hm := (hmantissa _).mp rfl
  have hinfinity : infinity = 2047 * 2 ^ 52 := rfl
  have hbias : (Float.Model.Format.binary64.exponentBias : Int) = 1023 := by decide
  have hlt : magnitude x < 2 ^ 63 := Nat.mod_lt _ (by decide)
  rw [hx, UnpackedFloat.unpack]
  simp only [ofBitVec_unpackSign, hbias]
  split
  case isTrue h =>
    have hgreatest : magnitude x / 2 ^ 52 = 2047 := (hexponent _).mp h
    split
    case isTrue h =>
      have hnone : magnitude x % 2 ^ 52 = 0 := (hmantissa _).mp h
      exact .infinity (by omega)
    case isFalse h =>
      have hsome : magnitude x % 2 ^ 52 ≠ 0 := mt (hmantissa 0#52).mpr h
      exact .nan (by omega)
  case isFalse h =>
    have hless : magnitude x / 2 ^ 52 ≠ 2047 := mt (hexponent (-1#11)).mpr h
    split
    case isTrue h =>
      have hleast : magnitude x / 2 ^ 52 = 0 := (hexponent _).mp h
      split
      case isTrue h =>
        have hnone : magnitude x % 2 ^ 52 = 0 := (hmantissa _).mp h
        exact .zero (by omega)
      case isFalse h =>
        have hsome : magnitude x % 2 ^ 52 ≠ 0 := mt (hmantissa 0#52).mpr h
        refine .finite (by omega) _ ?_
        constructor <;> omega
    case isFalse h =>
      have hmore : magnitude x / 2 ^ 52 ≠ 0 := mt (hexponent 0#11).mpr h
      have hlead : (1#1 ++ @unpackMantissa .binary64 x.toBits.toBitVec).toNat =
          2 ^ 52 + magnitude x % 2 ^ 52 := by
        rw [BitVec.toNat_append, ← Nat.shiftLeft_add_eq_or_of_lt (BitVec.isLt _), hm]
        rfl
      refine .finite (by omega) _ ?_
      rw [hlead]
      constructor <;> omega

/-! ### Comparison -/

def signed : Sign → Nat → Int
  | .positive, m => m
  | .negative, m => -m

theorem rank_eq {x : Float} (h : isNaN x = false) : rank x = signed (sign x) (magnitude x) := by
  unfold rank sign
  rw [h]
  cases isNegative x <;> rfl

/-- How a number of some sign compares with those of smaller magnitude. -/
def outward : Sign → Ordering
  | .positive => .gt
  | .negative => .lt

theorem compare_signed_of_lt (s t : Sign) {a b : Nat} (h : b < a) :
    compare (signed s a) (signed t b) = outward s := by
  have hb : -(b : Int) ≤ signed t b ∧ signed t b ≤ b := by
    cases t <;> simp only [signed] <;> omega
  cases s with
  | positive => exact compare_gt_iff_gt.mpr (show signed t b < (a : Int) by omega)
  | negative => exact compare_lt_iff_lt.mpr (show -(a : Int) < signed t b by omega)

theorem compare_signed_of_gt (s t : Sign) {a b : Nat} (h : a < b) :
    compare (signed s a) (signed t b) = (outward t).swap := by
  rw [← compare_signed_of_lt t s h, Std.OrientedOrd.eq_swap]

section

variable {s t : Sign} {a b m n : Nat} {e f : Int} {u v : UnpackedFloat}

theorem Counts.pos (h : Counts a m e) (hm : 0 < m) : 0 < a := by
  have hcount := h.count
  have hlowest := h.lowest
  omega

theorem Counts.compare_parts (ha : Counts a m e) (hb : Counts b n f) :
    (compare e f).then (compare m n) = compare (a : Int) b := by
  obtain ⟨ha, hae, ham, hal⟩ := ha
  obtain ⟨hb, hbf, hbn, hbl⟩ := hb
  rcases lt_trichotomy e f with h | rfl | h
  · rw [compare_lt_iff_lt.mpr h, compare_lt_iff_lt.mpr (show (a : Int) < b by omega)]
    rfl
  · rw [compare_eq_iff_eq.mpr rfl, Ordering.then]
    rcases lt_trichotomy m n with h | h | h
    · rw [compare_lt_iff_lt.mpr h, compare_lt_iff_lt.mpr (by omega)]
    · rw [compare_eq_iff_eq.mpr h, compare_eq_iff_eq.mpr (by omega)]
    · rw [compare_gt_iff_gt.mpr h, compare_gt_iff_gt.mpr (by omega)]
  · rw [compare_gt_iff_gt.mpr h, compare_gt_iff_gt.mpr (show (b : Int) < a by omega)]
    rfl

theorem Counts.compare_finite (ha : Counts a m e) (hb : Counts b n f) (hm : 0 < m) (hn : 0 < n) :
    UnpackedFloat.compare (.finite s m e hm) (.finite t n f hn) =
      some (compare (signed s a) (signed t b)) := by
  have hpos := ha.pos hm
  have hpos' := hb.pos hn
  cases s <;> cases t <;> simp only [UnpackedFloat.compare, signed, ha.compare_parts hb]
  case negative.negative =>
    rw [← Std.OrientedOrd.eq_swap]
    rcases lt_trichotomy a b with h | h | h
    · rw [compare_gt_iff_gt.mpr (by omega), compare_gt_iff_gt.mpr (by omega)]
    · rw [compare_eq_iff_eq.mpr (by omega), compare_eq_iff_eq.mpr (by omega)]
    · rw [compare_lt_iff_lt.mpr (by omega), compare_lt_iff_lt.mpr (by omega)]
  case negative.positive => rw [compare_lt_iff_lt.mpr (by omega)]
  case positive.negative => rw [compare_gt_iff_gt.mpr (by omega)]

/-- One case for each two kinds of numbers. Unless both are finite, they have the same magnitude,
or the greater one decides. -/
theorem Reads.compare_eq (hu : Reads s a u) (hv : Reads t b v) (ha : a ≤ Binary64.infinity)
    (hb : b ≤ Binary64.infinity) : u.compare v = some (compare (signed s a) (signed t b)) := by
  have hinfinity : 0 < Binary64.infinity := by decide
  cases hu with
  | nan h => omega
  | infinity h =>
    cases hv with
    | nan h' => omega
    | infinity h' =>
      cases h
      cases h'
      cases s <;> cases t <;> rfl
    | zero h' =>
      rw [compare_signed_of_lt s t (by omega)]
      cases s <;> rfl
    | finite h' =>
      rw [compare_signed_of_lt s t (by omega)]
      cases s <;> rfl
  | zero h =>
    cases hv with
    | nan h' => omega
    | infinity h' =>
      rw [compare_signed_of_gt s t (by omega)]
      cases t <;> rfl
    | zero h' =>
      cases h
      cases h'
      cases s <;> cases t <;> rfl
    | finite h' hn hc =>
      rw [compare_signed_of_gt s t (h ▸ hc.pos hn)]
      cases t <;> rfl
  | finite h hm hc =>
    cases hv with
    | nan h' => omega
    | infinity h' =>
      rw [compare_signed_of_gt s t (by omega)]
      cases t <;> rfl
    | zero h' =>
      rw [compare_signed_of_lt s t (h' ▸ hc.pos hm)]
      cases s <;> rfl
    | finite h' hn hc' => exact hc.compare_finite hc' hm hn

end

theorem isNaN_eq (x : Float) : x.isNaN = isNaN x := by
  have hx : x.isNaN = x.toModel.unpack.isNaN := rfl
  have hread := reads_unpack x
  rw [hx, isNaN]
  generalize x.toModel.unpack = u at hread
  cases hread with
  | nan h => simp [UnpackedFloat.isNaN, h]
  | infinity h => simp [UnpackedFloat.isNaN, h]
  | zero h => simp [UnpackedFloat.isNaN, h]
  | finite h hm hc => simp [UnpackedFloat.isNaN, h.le]

variable {x y : Float}

theorem rank_lt_of_isNaN (hx : x.isNaN = false) (hy : y.isNaN) : rank x < rank y := by
  rw [isNaN_eq] at hx hy
  have hle : magnitude x ≤ infinity := by simpa [isNaN] using hx
  have hinfinity : infinity < 0x7ff8000000000000 := by decide
  simp only [rank, hx, hy, if_true, Bool.false_eq_true, if_false]
  split <;> omega

theorem rank_eq_of_isNaN (hx : x.isNaN) (hy : y.isNaN) : rank x = rank y := by
  rw [isNaN_eq] at hx hy
  simp only [rank, hx, hy, if_true]

theorem compare_unpack (hx : x.isNaN = false) (hy : y.isNaN = false) :
    x.toModel.unpack.compare y.toModel.unpack = some (compare (rank x) (rank y)) := by
  rw [isNaN_eq] at hx hy
  rw [rank_eq hx, rank_eq hy]
  refine (reads_unpack x).compare_eq (reads_unpack y) ?_ ?_
  · simpa [isNaN] using hx
  · simpa [isNaN] using hy

theorem lt_iff_rank_lt (hx : x.isNaN = false) (hy : y.isNaN = false) :
    x < y ↔ rank x < rank y := by
  have hlt : x < y ↔ (x.toModel.unpack.compare y.toModel.unpack == some .lt) = true := by
    show decide (x.toModel < y.toModel) = true ↔ _
    rw [decide_eq_true_iff]
    exact Iff.rfl
  rw [hlt, compare_unpack hx hy]
  simp [compare_lt_iff_lt]

theorem beq_iff_rank_eq (hx : x.isNaN = false) (hy : y.isNaN = false) :
    x == y ↔ rank x = rank y := by
  have heq : (x == y) = (x.toModel.unpack.compare y.toModel.unpack == some .eq) := rfl
  rw [heq, compare_unpack hx hy]
  simp

end Binary64
end DatasetAlgebra
