import DatasetAlgebra.Json.Numeral
import DatasetAlgebra.Json.Printer
import DatasetAlgebra.Proofs.Number.Shortest

/-!
Numbers in JSON text are numerals. An integer is read back digit by digit, and the text of a
finite float denotes exactly the shortest decimal of the float; so different numbers have
different texts.
-/
namespace DatasetAlgebra
namespace Layout

open Binary64

theorem write_finite (l : Layout) {x : Float} (hx : isFinite x) :
    l.write x =
      (if isNegative x then "-" else "") ++
        (if (Decimal.shortestAt l.tie (magnitude x)).digits = 0 ||
            l.positional ((Decimal.shortestAt l.tie (magnitude x)).exponent +
              (toString (Decimal.shortestAt l.tie (magnitude x)).digits).length - 1) then
          fixed l.point (Decimal.shortestAt l.tie (magnitude x))
        else scientific l.plus (Decimal.shortestAt l.tie (magnitude x))) := by
  have hnan : isNaN x = false := decide_eq_false (magnitude_lt hx).not_gt
  unfold write
  rw [hnan, hx, Decimal.shortest_eq]
  rfl

theorem write_congr (l : Layout) {x y : Float} (hx : isFinite x) (hy : isFinite y)
    (hs : isNegative x = isNegative y) (hm : magnitude x = magnitude y) :
    l.write x = l.write y := by
  rw [write_finite l hx, write_finite l hy, hs, hm]

end Layout

namespace Numeral

/-- The number that a numeral denotes, without its sign. -/
def size (n : Numeral) : ℚ :=
  ofDigits (n.whole ++ n.fraction) * 10 ^ (n.exponent.getD 0 - n.fraction.length)

/-! ### Digits -/

/-- The digits that characters stand for. -/
def places (cs : List Char) : List Nat := cs.map fun c => c.toNat - '0'.toNat

@[simp]
theorem places_append (u v : List Char) : places (u ++ v) = places u ++ places v := List.map_append

@[simp]
theorem length_places (u : List Char) : (places u).length = u.length := List.length_map _

theorem ofDigits_places (u : List Char) : ofDigits (places u) = Nat.ofDigitChars 10 u 0 := by
  simp only [ofDigits, places, List.foldl_map, Nat.ofDigitChars_eq_foldl]

/-- No digit comes next. -/
def Stops (r : List Char) : Prop := ∀ c ∈ r.head?, c.isDigit = false

theorem digits_append {u r : List Char} (hu : ∀ c ∈ u, c.isDigit) (hr : Stops r) :
    digits (u ++ r) = (places u, r) := by
  induction u with
  | nil =>
    cases r with
    | nil => rfl
    | cons c r => simp [digits, digit?, places, hr c (by simp)]
  | cons c u ih =>
    have hc := hu c List.mem_cons_self
    simp [digits, digit?, hc, ih fun d hd => hu d (List.mem_cons_of_mem c hd), places]

/-- Digits of which the first is not an idle zero. -/
structure Whole (u : List Char) : Prop where
  digits : ∀ c ∈ u, c.isDigit
  ne_nil : u ≠ []
  proper : u.head? = some '0' → u.length = 1

theorem eq_zero_of_place {c : Char} (hc : c.isDigit) (h : c.toNat - '0'.toNat = 0) : c = '0' := by
  refine Char.toNat_inj.mp (le_antisymm (Nat.sub_eq_zero_iff_le.mp h) ?_)
  exact (Char.isDigit_iff_toNat.mp hc).1

theorem head?_toDigits {n : Nat} (h : 0 < n) : (Nat.toDigits 10 n).head? ≠ some '0' := by
  induction n using Nat.strongRecOn with
  | ind n ih =>
    rw [Nat.toDigits_eq_if (by decide)]
    split
    · simp
      omega
    · rw [List.head?_append_of_ne_nil _ Nat.toDigits_ne_nil]
      exact ih (n / 10) (by omega) (by omega)

theorem isDigit_toDigits {n : Nat} : ∀ c ∈ Nat.toDigits 10 n, c.isDigit := fun _ hc =>
  Nat.isDigit_of_mem_toDigits (by decide) (by decide) hc

theorem whole_toDigits (n : Nat) : Whole (Nat.toDigits 10 n) where
  digits := isDigit_toDigits
  ne_nil := Nat.toDigits_ne_nil
  proper h := by
    rcases Nat.eq_zero_or_pos n with rfl | hn
    · simp
    · exact absurd h (head?_toDigits hn)

theorem toList_toString_int (n : Int) :
    (toString n).toList = (if 0 ≤ n then [] else ['-']) ++ Nat.toDigits 10 n.natAbs := by
  rw [Int.toString_eq_repr, Int.repr_eq_if]
  split
  · rw [Nat.toList_repr, List.nil_append]
    congr 1
    omega
  · rw [String.toList_append, Nat.toList_repr]
    congr 2
    omega

/-! ### Reading -/

theorem fraction?_eq {r : List Char} (h : r.head? ≠ some '.') :
    fraction? r = (exponent? r).map ([], ·) := by
  unfold fraction?
  split
  · simp at h
  · rfl

theorem fraction?_append {u r : List Char} (hu : ∀ c ∈ u, c.isDigit) (h₀ : u ≠ [])
    (hr : Stops r) : fraction? ('.' :: (u ++ r)) = (exponent? r).map (places u, ·) := by
  simp only [fraction?, digits_append hu hr]
  cases u with
  | nil => exact absurd rfl h₀
  | cons c u => rfl

theorem exponent?_toString (n : Int) :
    exponent? ('e' :: ((if 0 ≤ n then ['+'] else []) ++ (toString n).toList)) =
      some (some n) := by
  have hread : digits (Nat.toDigits 10 n.natAbs) = (places (Nat.toDigits 10 n.natAbs), []) := by
    simpa using digits_append (r := []) isDigit_toDigits (by simp [Stops])
  have hne : places (Nat.toDigits 10 n.natAbs) ≠ [] := by
    simp [places, Nat.toDigits_ne_nil]
  have hvalue : ofDigits (places (Nat.toDigits 10 n.natAbs)) = n.natAbs := by
    rw [ofDigits_places, Nat.ofDigitChars_ten_toDigits]
  obtain ⟨d, ds, hd⟩ := List.exists_cons_of_ne_nil hne
  rw [hd] at hread hvalue
  rw [toList_toString_int]
  split
  all_goals
    simp only [List.nil_append, List.singleton_append, exponent?]
    simp [hread, hvalue, -Nat.cast_natAbs]
    omega

/-- `read?` behind the sign. -/
def unsigned? (negative : Bool) (text : List Char) : Option Numeral :=
  match digits text with
  | ([], _) => none
  | (0 :: _ :: _, _) => none
  | (whole, rest) => (fraction? rest).map fun (fraction, exponent) =>
      ⟨negative, whole, fraction, exponent⟩

theorem read?_minus (text : List Char) : read? ('-' :: text) = unsigned? true text := rfl

theorem read?_eq {text : List Char} (h : text.head? ≠ some '-') :
    read? text = unsigned? false text := by
  unfold read?
  split
  rename_i hm
  split at hm
  · simp at h
  · cases hm
    rfl

theorem unsigned?_append {u r : List Char} {fraction : List Nat} {exponent : Option Int}
    (negative : Bool) (hu : Whole u) (hr : Stops r)
    (h : fraction? r = some (fraction, exponent)) :
    unsigned? negative (u ++ r) = some ⟨negative, places u, fraction, exponent⟩ := by
  simp only [unsigned?, digits_append hu.digits hr]
  split
  case h_1 hp => simp [places, hu.ne_nil] at hp
  case h_2 hp =>
    rw [Prod.mk.injEq, places, List.map_eq_cons_iff] at hp
    obtain ⟨⟨c, v, rfl, hc, hv⟩, -⟩ := hp
    have hv₀ : v = [] := by
      simpa using hu.proper (by rw [List.head?_cons, eq_zero_of_place (hu.digits c (by simp)) hc])
    simp [hv₀] at hv
  case h_3 hp =>
    rw [Prod.mk.injEq] at hp
    simp [← hp.1, ← hp.2, h]

theorem read?_append {u r : List Char} {fraction : List Nat} {exponent : Option Int}
    (negative : Bool) (hu : Whole u) (hr : Stops r)
    (h : fraction? r = some (fraction, exponent)) :
    read? ((if negative then ['-'] else []) ++ (u ++ r)) =
      some ⟨negative, places u, fraction, exponent⟩ := by
  cases negative with
  | true => exact (read?_minus _).trans (unsigned?_append true hu hr h)
  | false =>
    refine (read?_eq fun hhead => ?_).trans (unsigned?_append false hu hr h)
    obtain ⟨c, v, rfl⟩ := List.exists_cons_of_ne_nil hu.ne_nil
    cases hhead
    exact absurd (hu.digits '-' List.mem_cons_self) (by decide)

/-! ### What is written -/

theorem size_places (negative : Bool) (u v : List Char) (exponent : Option Int) :
    size ⟨negative, places u, places v, exponent⟩ =
      Nat.ofDigitChars 10 (u ++ v) 0 * 10 ^ (exponent.getD 0 - v.length) := by
  rw [size, ← places_append, ofDigits_places, length_places]

/-- The numeral of a float: it has a fraction or an exponent. -/
structure Denotes (n : Numeral) (negative : Bool) (q : ℚ) : Prop where
  negative : n.negative = negative
  size : n.size = q
  float : n.fraction ≠ [] ∨ n.exponent ≠ none

theorem whole_append_zeros {n k : Nat} (h : n = 0 → k = 0) :
    Whole (Nat.toDigits 10 n ++ List.replicate k '0') where
  digits c hc := by
    rcases List.mem_append.mp hc with hc | hc
    · exact isDigit_toDigits c hc
    · rw [List.eq_of_mem_replicate hc]
      decide
  ne_nil := by simp [Nat.toDigits_ne_nil]
  proper hhead := by
    rw [List.head?_append_of_ne_nil _ Nat.toDigits_ne_nil] at hhead
    have hn : n = 0 := Nat.eq_zero_of_not_pos fun hn => head?_toDigits hn hhead
    simp [hn, h hn]

/-- At least `k + 1` digits of which the first is a zero only if there are no more. -/
theorem whole_take {u : List Char} {k : Nat} (hu : ∀ c ∈ u, c.isDigit) (hk : k < u.length)
    (h : u.head? = some '0' → u.length = k + 1) : Whole (u.take (u.length - k)) where
  digits c hc := hu c (List.mem_of_mem_take hc)
  ne_nil := by
    rw [ne_eq, List.take_eq_nil_iff]
    rintro (h | rfl)
    · omega
    · simp at hk
  proper hhead := by
    rw [List.head?_take, if_neg (by omega)] at hhead
    simp [h hhead]

theorem read?_point (negative : Bool) {u v : List Char} {q : ℚ} (hu : Whole u)
    (hv : ∀ c ∈ v, c.isDigit) (hv₀ : v ≠ [])
    (hq : Nat.ofDigitChars 10 (u ++ v) 0 * 10 ^ (-(v.length : Int)) = q) :
    ∃ n, read? ((if negative then ['-'] else []) ++ (u ++ '.' :: v)) = some n ∧
      n.Denotes negative q := by
  refine ⟨⟨negative, places u, places v, none⟩, ?_, rfl, ?_, .inl (by simp [places, hv₀])⟩
  · refine read?_append negative hu (by simp [Stops]) ?_
    simpa [exponent?] using fraction?_append (r := []) hv hv₀ (by simp [Stops])
  · rw [size_places, ← hq]
    simp

/-- Digits behind as many zeros as there have to be for `k` digits behind the point. -/
def padded (n k : Nat) : List Char :=
  List.replicate (k + 1 - (Nat.toDigits 10 n).length) '0' ++ Nat.toDigits 10 n

theorem length_padded (n k : Nat) :
    (padded n k).length = max (k + 1) (Nat.toDigits 10 n).length := by
  simp only [padded, List.length_append, List.length_replicate]
  omega

theorem isDigit_padded {n k : Nat} : ∀ c ∈ padded n k, c.isDigit := by
  intro c hc
  rcases List.mem_append.mp hc with hc | hc
  · rw [List.eq_of_mem_replicate hc]
    decide
  · exact isDigit_toDigits c hc

theorem head?_padded {n k : Nat} (hn : 0 < n) (h : (padded n k).head? = some '0') :
    (padded n k).length = k + 1 := by
  rw [length_padded]
  rcases Nat.lt_or_ge k (Nat.toDigits 10 n).length with hk | hk
  · rw [padded, Nat.sub_eq_zero_of_le hk] at h
    exact absurd h (head?_toDigits hn)
  · omega

theorem read?_fixed (negative : Bool) {d : Decimal} (h : d.digits = 0 → d.exponent = 0) :
    ∃ n, read? ((if negative then ['-'] else []) ++ (Layout.fixed true d).toList) = some n ∧
      n.Denotes negative d.value := by
  rcases lt_or_ge d.exponent 0 with he | he
  · -- the last `k` digits stand behind the point
    obtain ⟨k, hk⟩ := Int.eq_ofNat_of_zero_le (Int.neg_nonneg.mpr he.le)
    have hd : 0 < d.digits := Nat.pos_of_ne_zero fun h₀ => by omega
    have hl : d.digits.repr.length = (Nat.toDigits 10 d.digits).length := by
      rw [← String.length_toList, Nat.toList_repr]
    have hlen := length_padded d.digits k
    have htext : (Layout.fixed true d).toList =
        (padded d.digits k).take ((padded d.digits k).length - k) ++
          '.' :: (padded d.digits k).drop ((padded d.digits k).length - k) := by
      simp [Layout.fixed, he.not_ge, padded, hk, hl]
    rw [htext]
    refine read?_point negative (whole_take isDigit_padded (by omega) (head?_padded hd))
      (fun c hc => isDigit_padded c (List.mem_of_mem_drop hc)) ?_ ?_
    · rw [ne_eq, List.drop_eq_nil_iff]
      omega
    · rw [List.take_append_drop, padded, Nat.ofDigitChars_append, Nat.ofDigitChars_replicate_zero,
        Nat.mul_zero, Nat.ofDigitChars_ten_toDigits, ← padded, Decimal.value, List.length_drop]
      congr 2
      omega
  · -- `k` zeros stand between the digits and the point
    obtain ⟨k, hk⟩ := Int.eq_ofNat_of_zero_le he
    have htext : (Layout.fixed true d).toList =
        (Nat.toDigits 10 d.digits ++ List.replicate k '0') ++ '.' :: ['0'] := by
      simp [Layout.fixed, hk]
    rw [htext]
    refine read?_point negative (whole_append_zeros ?_) (by simp) (by simp) ?_
    · intro h₀
      exact Int.ofNat_eq_zero.mp (hk.symm.trans (h h₀))
    · rw [Nat.ofDigitChars_append, Nat.ofDigitChars_append, Nat.ofDigitChars_ten_toDigits,
        Nat.ofDigitChars_replicate_zero, Decimal.value, hk]
      simp [Nat.ofDigitChars_cons]
      ring

/-- The exponent of the leading digit together with the digits behind the point makes up the
exponent of the decimal. -/
theorem read?_scientific (negative : Bool) (d : Decimal) :
    ∃ n, read? ((if negative then ['-'] else []) ++ (Layout.scientific true d).toList) = some n ∧
      n.Denotes negative d.value := by
  obtain ⟨c, v, hv⟩ := List.exists_cons_of_ne_nil (Nat.toDigits_ne_nil (n := d.digits) (b := 10))
  have hdigits : ∀ c' ∈ c :: v, c'.isDigit := hv ▸ isDigit_toDigits
  have hc : Whole [c] := ⟨by simpa using hdigits c (by simp), by simp, by simp⟩
  let e : Int := d.exponent + (v.length + 1) - 1
  let tail : List Char := 'e' :: ((if 0 ≤ e then ['+'] else []) ++ (toString e).toList)
  have hstops : Stops tail := by simp [Stops, tail]
  have htext : (Layout.scientific true d).toList =
      [c] ++ (if v = [] then tail else '.' :: (v ++ tail)) := by
    cases v with
    | nil => simp [Layout.scientific, hv, e, tail, apply_ite String.toList]
    | cons c' v => simp [Layout.scientific, hv, e, tail, apply_ite String.toList]
  have hfraction : fraction? (if v = [] then tail else '.' :: (v ++ tail)) =
      some (places v, some e) := by
    split
    · rename_i hv₀
      rw [fraction?_eq (by simp [tail]), exponent?_toString, hv₀]
      rfl
    · rename_i hv₀
      rw [fraction?_append (fun c' hc' => hdigits c' (List.mem_cons_of_mem c hc')) hv₀ hstops,
        exponent?_toString]
      rfl
  refine ⟨⟨negative, places [c], places v, some e⟩, ?_, rfl, ?_, .inr (by simp)⟩
  · rw [htext]
    refine read?_append negative hc ?_ hfraction
    split
    · exact hstops
    · simp [Stops]
  · have he : (some e).getD 0 - v.length = d.exponent := by
      simp only [Option.getD_some, e]
      omega
    rw [size_places, List.singleton_append, ← hv, Nat.ofDigitChars_ten_toDigits, Decimal.value, he]

/-- The text of a finite float is read as a numeral that denotes its shortest decimal. -/
theorem read?_write {x : Float} (hx : Binary64.isFinite x) :
    ∃ n, read? (Layout.json.write x).toList = some n ∧
      n.Denotes (Binary64.isNegative x)
        (Decimal.shortestAt .even (Binary64.magnitude x)).value := by
  have hm := Binary64.magnitude_lt hx
  generalize hd : Decimal.shortestAt .even (Binary64.magnitude x) = d
  have hzero : d.digits = 0 → d.exponent = 0 := by
    intro h
    subst hd
    rw [Decimal.eq_zero_of_digits_shortestAt hm h]
    rfl
  have htext : (Layout.json.write x).toList =
      (if Binary64.isNegative x then ['-'] else []) ++
        (if d.digits = 0 ||
            Layout.json.positional (d.exponent + (toString d.digits).length - 1) then
          Layout.fixed true d else Layout.scientific true d).toList := by
    rw [Layout.write_finite _ hx, String.toList_append, ← hd]
    congr 1
    split <;> rfl
  rw [htext]
  generalize (decide (d.digits = 0) ||
    Layout.json.positional (d.exponent + (toString d.digits).length - 1)) = positional
  cases positional with
  | true => exact read?_fixed _ hzero
  | false => exact read?_scientific _ d

theorem read?_toString (n : Int) :
    read? (toString n).toList =
      some ⟨decide (n < 0), places (Nat.toDigits 10 n.natAbs), [], none⟩ := by
  have h := read?_append (r := []) (decide (n < 0)) (whole_toDigits n.natAbs) (by simp [Stops])
    (fraction?_eq (r := []) (by simp))
  rw [toList_toString_int, ← h]
  by_cases hn : 0 ≤ n
  · simp [hn, Int.not_lt.mpr hn]
  · simp [hn, Int.not_le.mp hn]

/-! ### Characters -/

/-- The characters that numerals consist of. -/
def isPart (c : Char) : Bool :=
  c.isDigit || c = '.' || c = 'e' || c = 'E' || c = '+' || c = '-'

theorem isPart_of_isDigit {c : Char} (h : c.isDigit) : isPart c := by
  simp [isPart, h]

theorem all_isPart_of_digits {text : List Char} (h : (digits text).2.all isPart) :
    text.all isPart := by
  induction text with
  | nil => rfl
  | cons c rest ih =>
    cases hc : c.isDigit with
    | true =>
      simp only [digits, digit?, hc, if_true] at h
      simp only [List.all_cons, isPart_of_isDigit hc, ih h, Bool.and_self]
    | false => simpa [digits, digit?, hc] using h

theorem all_isPart_of_exponent? {r : List Char} {e : Option Int} (h : exponent? r = some e) :
    r.all isPart := by
  unfold exponent? at h
  split at h
  case h_1 => rfl
  case h_2 c r =>
    split at h
    · cases h
    · rename_i hc
      split at h
      rename_i negative rest hsign
      have hrest : rest.all isPart := by
        split at h
        · rename_i hd
          exact all_isPart_of_digits (by rw [hd]; rfl)
        · cases h
      have hr : r.all isPart := by
        split at hsign <;> cases hsign
        · simpa [isPart] using hrest
        · simpa [isPart] using hrest
        · exact hrest
      have hpart : isPart c := by
        simp only [isPart]
        grind
      simp [hpart, hr]

theorem all_isPart_of_fraction? {r : List Char} {f : List Nat × Option Int}
    (h : fraction? r = some f) : r.all isPart := by
  unfold fraction? at h
  split at h
  · rename_i r
    split at h
    · cases h
    · rename_i hd
      obtain ⟨e, he, -⟩ := Option.map_eq_some_iff.mp h
      have hr : r.all isPart := all_isPart_of_digits (by rw [hd]; exact all_isPart_of_exponent? he)
      simpa [isPart] using hr
  · obtain ⟨e, he, -⟩ := Option.map_eq_some_iff.mp h
    exact all_isPart_of_exponent? he

theorem all_isPart_of_unsigned? {negative : Bool} {text : List Char} {n : Numeral}
    (h : unsigned? negative text = some n) : text.all isPart := by
  unfold unsigned? at h
  split at h
  · cases h
  · cases h
  · rename_i hd
    obtain ⟨f, hf, -⟩ := Option.map_eq_some_iff.mp h
    exact all_isPart_of_digits (by rw [hd]; exact all_isPart_of_fraction? hf)

theorem all_isPart_of_read? {text : List Char} {n : Numeral} (h : read? text = some n) :
    text.all isPart := by
  by_cases hs : text.head? = some '-'
  · obtain ⟨rest, rfl⟩ := List.head?_eq_some_iff.mp hs
    rw [read?_minus] at h
    simpa [isPart] using all_isPart_of_unsigned? h
  · exact all_isPart_of_unsigned? ((read?_eq hs).symm.trans h)

theorem exists_head_of_read? {text : List Char} {n : Numeral} (h : read? text = some n) :
    ∃ c rest, text = c :: rest ∧ (c = '-' ∨ c.isDigit) := by
  by_cases hs : text.head? = some '-'
  · obtain ⟨rest, rfl⟩ := List.head?_eq_some_iff.mp hs
    exact ⟨'-', rest, rfl, .inl rfl⟩
  · rw [read?_eq hs, unsigned?] at h
    cases text with
    | nil => simp [digits] at h
    | cons c rest =>
      refine ⟨c, rest, rfl, .inr ?_⟩
      by_contra hc
      simp [digits, digit?, hc] at h

end Numeral

namespace Layout

open Binary64

theorem eq_of_write {x y : Float} (hx : isFinite x) (hy : isFinite y)
    (h : json.write x = json.write y) :
    isNegative x = isNegative y ∧ magnitude x = magnitude y := by
  obtain ⟨n, hn, hnx⟩ := Numeral.read?_write hx
  obtain ⟨n', hn', hny⟩ := Numeral.read?_write hy
  rw [h, hn', Option.some.injEq] at hn
  subst hn
  refine ⟨hnx.negative.symm.trans hny.negative, ?_⟩
  exact Decimal.magnitude_eq_of_value .even (magnitude_lt hx) (magnitude_lt hy)
    (hnx.size.symm.trans hny.size)

end Layout
end DatasetAlgebra
