import DatasetAlgebra.Number.Binary64

/-!
The fewest decimal digits that read back as a given double-precision number, found by exact
arithmetic: the coarsest power of ten with a multiple in the interval of reals that round to the
number, and of two such multiples the nearer one.
-/
namespace DatasetAlgebra

/-- The number `digits * 10 ^ exponent`. -/
structure Decimal where
  digits : Nat
  exponent : Int
  deriving DecidableEq, Repr

/-- Which of two equally near decimals is written. -/
inductive Tie where
  | up
  | even
  deriving DecidableEq, Repr

namespace Shortest

/-- A number and the ends of the interval of reals that round to it, as multiples of
`2 ^ exponent`. -/
structure Interval where
  low : Nat
  value : Nat
  high : Nat
  exponent : Int
  /-- Whether the ends themselves round to the number. -/
  closed : Bool
  deriving DecidableEq, Repr

/-- The ends lie half way to the neighbours; below a power of two the neighbour is twice as
near. -/
def interval (s : Binary64.Scaled) : Interval where
  low :=
    if s.mantissa = Nat.pow 2 52 ∧ s.exponent ≠ -1074 then 4 * s.mantissa - 1
    else 4 * s.mantissa - 2
  value := 4 * s.mantissa
  high := 4 * s.mantissa + 2
  exponent := s.exponent - 2
  closed := s.mantissa % 2 = 0

/-- The multiple of `10 ^ k` that lies in the interval nearest to the number, as a count of
`10 ^ k`. -/
def Interval.nearest? (i : Interval) (tie : Tie) (k : Int) : Option Nat :=
  let scale := Nat.pow 10 (-k).toNat * Nat.pow 2 i.exponent.toNat
  let unit := Nat.pow 10 k.toNat * Nat.pow 2 (-i.exponent).toNat
  let inside (count : Nat) : Bool :=
    if i.closed then i.low * scale ≤ count * unit && count * unit ≤ i.high * scale
    else i.low * scale < count * unit && count * unit < i.high * scale
  let below := i.value * scale / unit
  let above := below + 1
  let down := i.value * scale - below * unit
  let up := above * unit - i.value * scale
  match inside below, inside above with
  | false, false => none
  | true, false => some below
  | false, true => some above
  | true, true =>
    if down < up then some below
    else if up < down then some above
    else match tie with
      | .up => some above
      | .even => some (if below % 2 = 0 then below else above)

/-- Powers of ten from one above the number down to seventeen digits below, which always
suffice. -/
def exponents (s : Binary64.Scaled) : List Int :=
  let top := ((s.mantissa.log2 + s.exponent) * 30103).fdiv 100000 + 2
  (List.range 22).map fun n : Nat => top - n

/-- Removes trailing zeros of the digits, at most `fuel` of them. -/
def trim : (fuel : Nat) → Decimal → Decimal
  | 0, d => d
  | fuel + 1, d =>
    if d.digits ≠ 0 ∧ d.digits % 10 = 0 then trim fuel ⟨d.digits / 10, d.exponent + 1⟩ else d

end Shortest

open Shortest in
/-- The shortest decimal of the magnitude of a finite number. -/
def Decimal.shortest (tie : Tie) (x : Float) : Decimal :=
  let s := Binary64.scaled x
  if s.mantissa = 0 then ⟨0, 0⟩
  else
    let i := interval s
    match (exponents s).findSome? fun k => (i.nearest? tie k).map (Decimal.mk · k) with
    | some d => trim 20 d
    | none => ⟨0, 0⟩

end DatasetAlgebra
