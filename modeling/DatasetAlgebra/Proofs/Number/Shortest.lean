import DatasetAlgebra.Number.Shortest
import Mathlib.Algebra.Order.Field.Power
import Mathlib.Data.Rat.Cast.Order
import Mathlib.Tactic.FieldSimp
import Mathlib.Tactic.Linarith
import Mathlib.Tactic.NormNum
import Mathlib.Tactic.Ring

/-!
Shortest decimals stand in the order of the numbers they are written for. Each lies in the
interval of reals that round to its number, and the intervals of neighbours share one end, which
belongs to the one of them with the even mantissa.
-/
namespace DatasetAlgebra

/-- The number that a decimal stands for. -/
def Decimal.value (d : Decimal) : ℚ := d.digits * 10 ^ d.exponent

namespace Binary64

theorem magnitude_lt {x : Float} (hx : isFinite x) : magnitude x < infinity :=
  of_decide_eq_true hx

/-- `scaled` of the numbers of one magnitude. -/
def scaledAt (m : Nat) : Scaled :=
  if m / Nat.pow 2 52 = 0 then ⟨m % Nat.pow 2 52, -1074⟩
  else ⟨m % Nat.pow 2 52 + Nat.pow 2 52, (m / Nat.pow 2 52 : Nat) - 1075⟩

theorem pow_fraction : Nat.pow 2 52 = 4503599627370496 := rfl

theorem scaledAt_mantissa_eq_zero {m : Nat} : (scaledAt m).mantissa = 0 ↔ m = 0 := by
  simp only [scaledAt, pow_fraction]
  split <;> simp only <;> omega

theorem scaledAt_mantissa_lt (m : Nat) : (scaledAt m).mantissa < Nat.pow 2 53 := by
  have hq : Nat.pow 2 53 = 9007199254740992 := rfl
  simp only [scaledAt, pow_fraction, hq]
  split <;> simp only <;> omega

theorem le_scaledAt_exponent (m : Nat) : -1074 ≤ (scaledAt m).exponent := by
  simp only [scaledAt, pow_fraction]
  split <;> simp only <;> omega

theorem scaledAt_exponent_le {m : Nat} (h : m < infinity) : (scaledAt m).exponent ≤ 971 := by
  simp only [infinity] at h
  simp only [scaledAt, pow_fraction]
  split <;> simp only <;> omega

theorem scaledAt_mantissa_mod (m : Nat) : (scaledAt m).mantissa % 2 = m % 2 := by
  simp only [scaledAt, pow_fraction]
  split <;> simp only <;> omega

end Binary64

namespace Shortest

open Binary64 (Scaled scaledAt pow_fraction)

/-! ### Intervals -/

namespace Interval

def bottom (i : Interval) : ℚ := i.low * 2 ^ i.exponent

def top (i : Interval) : ℚ := i.high * 2 ^ i.exponent

/-- Whether a real rounds to the number of an interval. -/
def Holds (i : Interval) (q : ℚ) : Prop :=
  if i.closed then i.bottom ≤ q ∧ q ≤ i.top else i.bottom < q ∧ q < i.top

theorem Holds.bottom_le {i : Interval} {q : ℚ} (h : i.Holds q) : i.bottom ≤ q := by
  unfold Holds at h
  split at h
  · exact h.1
  · exact h.1.le

theorem Holds.le_top {i : Interval} {q : ℚ} (h : i.Holds q) : q ≤ i.top := by
  unfold Holds at h
  split at h
  · exact h.2
  · exact h.2.le

theorem Holds.closed_of_bottom {i : Interval} (h : i.Holds i.bottom) : i.closed := by
  unfold Holds at h
  split at h
  · assumption
  · exact absurd h.1 (lt_irrefl _)

theorem Holds.closed_of_top {i : Interval} (h : i.Holds i.top) : i.closed := by
  unfold Holds at h
  split at h
  · assumption
  · exact absurd h.2 (lt_irrefl _)

/-- What an end of the interval is multiplied by, to compare it with multiples of `10 ^ k`. -/
def scale (i : Interval) (k : Int) : Nat :=
  Nat.pow 10 (-k).toNat * Nat.pow 2 i.exponent.toNat

/-- What a count of `10 ^ k` is multiplied by, to compare it with ends of the interval. -/
def unit (i : Interval) (k : Int) : Nat :=
  Nat.pow 10 k.toNat * Nat.pow 2 (-i.exponent).toNat

def inside (i : Interval) (k : Int) (n : Nat) : Bool :=
  if i.closed then i.low * i.scale k ≤ n * i.unit k && n * i.unit k ≤ i.high * i.scale k
  else i.low * i.scale k < n * i.unit k && n * i.unit k < i.high * i.scale k

theorem pow_toNat {b : ℚ} (hb : b ≠ 0) (z : ℤ) : b ^ z.toNat = b ^ z * b ^ (-z).toNat := by
  rw [← zpow_natCast, ← zpow_natCast, ← zpow_add₀ hb]
  congr 1
  omega

theorem exists_common (i : Interval) (k : Int) :
    ∃ c : ℚ, 0 < c ∧ i.scale k = c * 2 ^ i.exponent ∧ i.unit k = c * 10 ^ k := by
  refine ⟨10 ^ (-k).toNat * 2 ^ (-i.exponent).toNat, by positivity, ?_, ?_⟩
  · simp only [scale, Nat.pow_eq, Nat.cast_mul, Nat.cast_pow, Nat.cast_ofNat,
      pow_toNat two_ne_zero i.exponent]
    ring
  · simp only [unit, Nat.pow_eq, Nat.cast_mul, Nat.cast_pow, Nat.cast_ofNat,
      pow_toNat (by norm_num : (10 : ℚ) ≠ 0) k]
    ring

theorem unit_pos (i : Interval) (k : Int) : 0 < i.unit k :=
  Nat.mul_pos (Nat.pow_pos (by decide)) (Nat.pow_pos (by decide))

theorem inside_iff (i : Interval) (k : Int) (n : Nat) : i.inside k n ↔ i.Holds (n * 10 ^ k) := by
  obtain ⟨c, hc, hs, hu⟩ := i.exists_common k
  have hle (a : Nat) : a * i.scale k ≤ n * i.unit k ↔ (a * 2 ^ i.exponent : ℚ) ≤ n * 10 ^ k := by
    rw [← mul_le_mul_iff_right₀ hc, ← Rat.natCast_le_natCast]
    push_cast
    rw [hs, hu]
    ring_nf
  have hge (a : Nat) : n * i.unit k ≤ a * i.scale k ↔ (n * 10 ^ k : ℚ) ≤ a * 2 ^ i.exponent := by
    rw [← mul_le_mul_iff_right₀ hc, ← Rat.natCast_le_natCast]
    push_cast
    rw [hs, hu]
    ring_nf
  simp only [inside, Holds, bottom, top]
  split
  · simp only [Bool.and_eq_true, decide_eq_true_eq, hle, hge]
  · simp only [Bool.and_eq_true, decide_eq_true_eq, ← not_le, hle, hge]

/-- The greatest count of `10 ^ k` that is not above the number. -/
def below (i : Interval) (k : Int) : Nat := i.value * i.scale k / i.unit k

/-- What is given of the two counts around the number, which lie `down` and `up` away from it,
by whether each is inside. -/
def pick (tie : Tie) (below down up : Nat) : Bool → Bool → Option Nat
  | false, false => none
  | true, false => some below
  | false, true => some (below + 1)
  | true, true =>
    if down < up then some below
    else if up < down then some (below + 1)
    else match tie with
      | .up => some (below + 1)
      | .even => some (if below % 2 = 0 then below else below + 1)

theorem pick_cases (tie : Tie) (below down up : Nat) (b a : Bool) :
    (pick tie below down up b a = none ∧ b = false) ∨
      (pick tie below down up b a = some below ∧ b) ∨
      (pick tie below down up b a = some (below + 1) ∧ a) := by
  cases b <;> cases a <;> cases tie <;> simp only [pick] <;> grind

theorem nearest?_cases (i : Interval) (tie : Tie) (k : Int) :
    (i.nearest? tie k = none ∧ i.inside k (i.below k) = false) ∨
      ∃ n, i.nearest? tie k = some n ∧ i.inside k n := by
  have hp : i.nearest? tie k =
      pick tie (i.below k) (i.value * i.scale k - i.below k * i.unit k)
        ((i.below k + 1) * i.unit k - i.value * i.scale k)
        (i.inside k (i.below k)) (i.inside k (i.below k + 1)) := rfl
  rw [hp]
  rcases pick_cases tie (i.below k) (i.value * i.scale k - i.below k * i.unit k)
      ((i.below k + 1) * i.unit k - i.value * i.scale k)
      (i.inside k (i.below k)) (i.inside k (i.below k + 1)) with h | ⟨h, hi⟩ | ⟨h, hi⟩
  · exact .inl h
  · exact .inr ⟨_, h, hi⟩
  · exact .inr ⟨_, h, hi⟩

theorem holds_of_nearest? {i : Interval} {tie : Tie} {k : Int} {n : Nat}
    (h : i.nearest? tie k = some n) : i.Holds (n * 10 ^ k) := by
  rw [← inside_iff]
  rcases i.nearest?_cases tie k with ⟨hn, -⟩ | ⟨m, hm, hi⟩
  · simp [hn] at h
  · cases hm.symm.trans h
    exact hi

/-- A power of ten that is no coarser than the unit of the interval has a multiple in it: the
greatest one that is not above the number. -/
theorem exists_nearest? {i : Interval} (tie : Tie) {k : Int} (hl : i.low < i.value)
    (hh : i.value < i.high) (hk : (10 : ℚ) ^ k ≤ 2 ^ i.exponent) :
    ∃ n, i.nearest? tie k = some n := by
  have hu : i.unit k ≤ i.scale k := by
    obtain ⟨c, hc, hs, hu⟩ := i.exists_common k
    rw [← Rat.natCast_le_natCast, hs, hu]
    exact mul_le_mul_of_nonneg_left hk hc.le
  have hb : i.inside k (i.below k) := by
    have hlow : i.low * i.scale k < i.below k * i.unit k := by
      have hdiv := Nat.lt_div_mul_add (a := i.value * i.scale k) (i.unit_pos k)
      have hstep : i.low * i.scale k + i.scale k ≤ i.value * i.scale k := by
        rw [← Nat.succ_mul]
        exact Nat.mul_le_mul_right _ hl
      simp only [below]
      omega
    have hhigh : i.below k * i.unit k < i.high * i.scale k :=
      (Nat.div_mul_le_self _ _).trans_lt
        (Nat.mul_lt_mul_of_pos_right hh ((i.unit_pos k).trans_le hu))
    simp [inside, hlow, hhigh, hlow.le, hhigh.le]
  rcases i.nearest?_cases tie k with ⟨-, hn⟩ | ⟨n, hn, -⟩
  · simp [hb] at hn
  · exact ⟨n, hn⟩

end Interval

/-! ### The search -/

@[simp]
theorem value_trim (fuel : Nat) (d : Decimal) : (trim fuel d).value = d.value := by
  induction fuel generalizing d with
  | zero => rfl
  | succ fuel ih =>
    simp only [trim]
    split
    · rename_i h
      rw [ih]
      have hd : (d.digits : ℚ) = (d.digits / 10 : Nat) * 10 := by
        exact_mod_cast (Nat.div_mul_cancel (Nat.dvd_of_mod_eq_zero h.2)).symm
      simp only [Decimal.value, hd, zpow_add_one₀ (by norm_num : (10 : ℚ) ≠ 0)]
      ring
    · rfl

/-- `30103 / 100000` stands for the logarithm of 2 to the base 10. Within the exponents of finite
numbers it is close enough. -/
theorem ten_zpow_le {j l : Int} (h : 100000 * j ≤ 30103 * l) (hlow : -1074 ≤ l)
    (hhigh : l ≤ 1023) : (10 : ℚ) ^ j ≤ 2 ^ (l + 9) := by
  have hpos : (0 : ℚ) < 2 ^ (l + 9) := by positivity
  rcases Int.le_total 0 j with hj | hj
  · -- `10 ^ 3` is a little less than `2 ^ 10`
    refine le_of_pow_le_pow_left₀ (n := 3) (by decide) hpos.le ?_
    calc ((10 : ℚ) ^ j) ^ 3 = (10 ^ (3 : ℤ)) ^ j := by
          rw [← zpow_natCast, ← zpow_mul, ← zpow_mul, mul_comm]; rfl
      _ ≤ (2 ^ (10 : ℤ)) ^ j := zpow_le_zpow_left₀ hj (by positivity) (by norm_num)
      _ = 2 ^ (10 * j) := (zpow_mul _ _ _).symm
      _ ≤ 2 ^ ((l + 9) * 3) := zpow_le_zpow_right₀ (by norm_num) (by omega)
      _ = (2 ^ (l + 9)) ^ 3 := by rw [zpow_mul]; rfl
  · -- `10 ^ 10` is a little more than `2 ^ 33`
    refine le_of_pow_le_pow_left₀ (n := 10) (by decide) hpos.le ?_
    calc ((10 : ℚ) ^ j) ^ 10 = (10 ^ (-10 : ℤ)) ^ (-j) := by
          rw [← zpow_natCast, ← zpow_mul, ← zpow_mul]; congr 1; push_cast; ring
      _ ≤ (2 ^ (-33 : ℤ)) ^ (-j) := zpow_le_zpow_left₀ (by omega) (by positivity) (by norm_num)
      _ = 2 ^ (33 * j) := by rw [← zpow_mul]; congr 1; ring
      _ ≤ 2 ^ ((l + 9) * 10) := zpow_le_zpow_right₀ (by norm_num) (by omega)
      _ = (2 ^ (l + 9)) ^ 10 := by rw [zpow_mul]; rfl

/-- The first power of ten, of those tried, with a multiple in the interval. -/
def search (tie : Tie) (s : Scaled) : Option Decimal :=
  (exponents s).findSome? fun k => ((interval s).nearest? tie k).map (Decimal.mk · k)

theorem holds_of_search {tie : Tie} {s : Scaled} {d : Decimal} (h : search tie s = some d) :
    (interval s).Holds d.value := by
  obtain ⟨k, -, hk⟩ := List.exists_of_findSome?_eq_some h
  obtain ⟨n, hn, rfl⟩ := Option.map_eq_some_iff.mp hk
  exact Interval.holds_of_nearest? hn

theorem exists_search (tie : Tie) {m : Nat} (h₀ : m ≠ 0) (h : m < Binary64.infinity) :
    ∃ d, search tie (scaledAt m) = some d := by
  have hs := mt Binary64.scaledAt_mantissa_eq_zero.mp h₀
  have hlog : (scaledAt m).mantissa.log2 < 53 :=
    (Nat.log2_lt hs).mpr (Binary64.scaledAt_mantissa_lt m)
  have hlow := Binary64.le_scaledAt_exponent m
  have hhigh := Binary64.scaledAt_exponent_le h
  generalize scaledAt m = s at *
  let l : Int := s.mantissa.log2 + s.exponent
  let j : Int := (l * 30103).fdiv 100000
  have hj : 100000 * j ≤ 30103 * l := by
    simp only [j, Int.fdiv_eq_ediv_of_nonneg _ (by decide : (0 : Int) ≤ 100000)]
    omega
  have hk : (10 : ℚ) ^ (j + 2 - 21) ≤ 2 ^ (interval s).exponent := by
    calc (10 : ℚ) ^ (j + 2 - 21) = 10 ^ j * 10 ^ (-19 : ℤ) := by
          rw [← zpow_add₀ (by norm_num)]; congr 1; ring
      _ ≤ 2 ^ (l + 9) * 2 ^ (-63 : ℤ) :=
          mul_le_mul (ten_zpow_le hj (by omega) (by omega)) (by norm_num) (by positivity)
            (by positivity)
      _ = 2 ^ (l + 9 - 63) := by rw [← zpow_add₀ (by norm_num)]; rfl
      _ ≤ 2 ^ (interval s).exponent :=
          zpow_le_zpow_right₀ (by norm_num) (by simp only [interval, l]; omega)
  have hl : (interval s).low < (interval s).value := by
    simp only [interval]
    split <;> omega
  have hh : (interval s).value < (interval s).high := by
    simp only [interval]
    omega
  obtain ⟨n, hn⟩ := Interval.exists_nearest? tie hl hh hk
  refine Option.isSome_iff_exists.mp (List.isSome_findSome?.trans ?_)
  rw [List.any_eq_true]
  exact ⟨j + 2 - 21, List.mem_map.mpr ⟨21, by decide, rfl⟩, by simp [hn]⟩

end Shortest

open Shortest Binary64 in
/-- `Decimal.shortest` of the numbers of one magnitude. -/
def Decimal.shortestAt (tie : Tie) (m : Nat) : Decimal :=
  if (scaledAt m).mantissa = 0 then ⟨0, 0⟩
  else match search tie (scaledAt m) with
    | some d => trim 20 d
    | none => ⟨0, 0⟩

theorem Decimal.shortest_eq (tie : Tie) (x : Float) :
    shortest tie x = shortestAt tie (Binary64.magnitude x) := rfl

open Shortest Binary64

theorem Decimal.shortestAt_zero (tie : Tie) : shortestAt tie 0 = ⟨0, 0⟩ := rfl

theorem Decimal.holds_shortestAt (tie : Tie) {m : Nat} (h₀ : m ≠ 0) (h : m < infinity) :
    (interval (scaledAt m)).Holds (shortestAt tie m).value := by
  obtain ⟨d, hd⟩ := exists_search tie h₀ h
  have hm := mt scaledAt_mantissa_eq_zero.mp h₀
  simp only [shortestAt, hm, if_false, hd, value_trim]
  exact holds_of_search hd

namespace Shortest

/-! ### The intervals in their order -/

theorem closed_iff (m : Nat) : (interval (scaledAt m)).closed ↔ m % 2 = 0 := by
  simp [interval, scaledAt_mantissa_mod]

theorem bottom_lt_top (s : Scaled) : (interval s).bottom < (interval s).top := by
  have h : (interval s).low < (interval s).high := by
    simp only [interval]
    split <;> omega
  exact mul_lt_mul_of_pos_right (Nat.cast_lt.mpr h) (by positivity)

theorem bottom_pos {m : Nat} (h : m ≠ 0) : 0 < (interval (scaledAt m)).bottom := by
  have hm := mt scaledAt_mantissa_eq_zero.mp h
  have hl : 0 < (interval (scaledAt m)).low := by
    simp only [interval]
    split <;> omega
  exact mul_pos (Nat.cast_pos.mpr hl) (by positivity)

theorem scaledAt_succ (m : Nat) :
    ((scaledAt (m + 1)).mantissa = (scaledAt m).mantissa + 1 ∧
        (scaledAt (m + 1)).exponent = (scaledAt m).exponent ∧
        ((scaledAt (m + 1)).mantissa ≠ Nat.pow 2 52 ∨ (scaledAt (m + 1)).exponent = -1074)) ∨
      ((scaledAt (m + 1)).mantissa = Nat.pow 2 52 ∧
        (scaledAt m).mantissa = 2 * Nat.pow 2 52 - 1 ∧
        (scaledAt (m + 1)).exponent = (scaledAt m).exponent + 1 ∧
        (scaledAt (m + 1)).exponent ≠ -1074) := by
  simp only [scaledAt, pow_fraction]
  split <;> split <;> simp only [or_true, and_true] <;> omega

theorem top_eq_bottom_succ (m : Nat) :
    (interval (scaledAt m)).top = (interval (scaledAt (m + 1))).bottom := by
  simp only [Interval.top, Interval.bottom, interval]
  rcases scaledAt_succ m with ⟨hm, he, hn⟩ | ⟨hm, hm', he, hn⟩
  · rw [if_neg (fun h => hn.elim (· h.1) h.2), hm, he]
    congr 2
  · rw [if_pos ⟨hm, hn⟩, hm, hm', he, pow_fraction,
      show (scaledAt m).exponent + 1 - 2 = (scaledAt m).exponent - 2 + 1 by ring,
      zpow_add_one₀ two_ne_zero]
    norm_num
    ring

theorem bottom_strictMono : StrictMono fun m => (interval (scaledAt m)).bottom :=
  strictMono_nat_of_lt_succ fun m => (bottom_lt_top _).trans_eq (top_eq_bottom_succ m)

end Shortest

/-- Of two finite numbers the smaller has the smaller shortest decimal. -/
theorem Decimal.value_shortestAt_lt (tie : Tie) {m n : Nat} (h : m < n) (hn : n < infinity) :
    (shortestAt tie m).value < (shortestAt tie n).value := by
  have hi := holds_shortestAt tie (by omega : n ≠ 0) hn
  by_cases hm : m = 0
  · subst hm
    simpa [shortestAt_zero, Decimal.value] using (bottom_pos (by omega)).trans_le hi.bottom_le
  have hj := holds_shortestAt tie hm (h.trans hn)
  have hle : (interval (scaledAt m)).top ≤ (interval (scaledAt n)).bottom := by
    rw [top_eq_bottom_succ]
    exact bottom_strictMono.monotone h
  refine (hj.le_top.trans (hle.trans hi.bottom_le)).lt_of_ne fun heq => ?_
  -- both lie in the one point that the intervals share
  have htop := le_antisymm hj.le_top (heq ▸ hle.trans hi.bottom_le)
  have hbot := le_antisymm (heq ▸ hj.le_top.trans hle) hi.bottom_le
  have hmod := (closed_iff m).mp (Interval.Holds.closed_of_top (htop ▸ hj))
  have hmod' := (closed_iff n).mp (Interval.Holds.closed_of_bottom (hbot ▸ hi))
  have hsucc : m + 1 = n := bottom_strictMono.injective (by
    simp only [← top_eq_bottom_succ, ← htop, ← hbot, heq])
  omega

theorem Decimal.magnitude_eq_of_value (tie : Tie) {m n : Nat} (hm : m < infinity)
    (hn : n < infinity) (h : (shortestAt tie m).value = (shortestAt tie n).value) : m = n := by
  rcases Nat.lt_trichotomy m n with hlt | heq | hlt
  · exact absurd h (value_shortestAt_lt tie hlt hn).ne
  · exact heq
  · exact absurd h (value_shortestAt_lt tie hlt hm).ne'

theorem Decimal.eq_zero_of_digits_shortestAt {tie : Tie} {m : Nat} (hm : m < infinity)
    (h : (shortestAt tie m).digits = 0) : m = 0 := by
  refine magnitude_eq_of_value tie hm (by decide) ?_
  simp [value, h, shortestAt_zero]

end DatasetAlgebra
