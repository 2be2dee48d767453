import DatasetAlgebra.Json.Document

/-!
Numbers in JSON text. Digits are read into a 64-bit significand as long as they fit: whole digits
beyond it raise the power of ten, digits of the fraction beyond it are dropped. The significand
then becomes a float and is scaled by exact powers of ten.
-/
namespace DatasetAlgebra

/-- A numeral as written: `-whole.fractionEexponent`. -/
structure Numeral where
  negative : Bool
  whole : List Nat
  fraction : List Nat
  exponent : Option Int
  deriving DecidableEq, Repr

namespace Numeral

def digit? (c : Char) : Option Nat := if c.isDigit then some (c.toNat - '0'.toNat) else none

/-- Leading digits of a text, and what follows them. -/
def digits : List Char → List Nat × List Char
  | [] => ([], [])
  | c :: rest =>
    match digit? c with
    | none => ([], c :: rest)
    | some d => (d :: (digits rest).1, (digits rest).2)

def ofDigits (ds : List Nat) : Nat := ds.foldl (fun n d => 10 * n + d) 0

/-- The exponent of a numeral: a letter, a sign that may be missing, and at least one digit. -/
def exponent? : List Char → Option (Option Int)
  | [] => some none
  | e :: rest =>
    if e ≠ 'e' && e ≠ 'E' then none
    else
      let (negative, rest) := match rest with
        | '-' :: rest => (true, rest)
        | '+' :: rest => (false, rest)
        | rest => (false, rest)
      match digits rest with
      | (d :: ds, []) =>
        let n : Int := ofDigits (d :: ds)
        some (some (if negative then -n else n))
      | _ => none

/-- The fraction, which needs a digit when its point is there, and the exponent. -/
def fraction? : List Char → Option (List Nat × Option Int)
  | '.' :: rest =>
    match digits rest with
    | ([], _) => none
    | (ds, rest) => (exponent? rest).map (ds, ·)
  | rest => (exponent? rest).map ([], ·)

/-- Reads a whole text as a numeral. A leading zero stands alone. -/
def read? (text : List Char) : Option Numeral :=
  let (negative, text) := match text with
    | '-' :: rest => (true, rest)
    | rest => (false, rest)
  match digits text with
  | ([], _) => none
  | (0 :: _ :: _, _) => none
  | (whole, rest) => (fraction? rest).map fun (fraction, exponent) =>
      ⟨negative, whole, fraction, exponent⟩

/-- Appends digits to a significand while it stays below `2 ^ 64`; also what is left over. -/
def extend (significand : Nat) : List Nat → Nat × List Nat
  | [] => (significand, [])
  | d :: rest =>
    if 10 * significand + d < Nat.pow 2 64 then extend (10 * significand + d) rest
    else (significand, d :: rest)

def powerOfTen (k : Nat) : Float := Float.ofScientific 1 false k

/-- Divides by `10 ^ k`, at most `10 ^ 308` at a time. -/
def scaleDown (x : Float) (k : Nat) : Float :=
  if k ≤ 308 then x / powerOfTen k
  else if Binary64.isZero x then x
  else scaleDown (x / powerOfTen 308) (k - 308)
termination_by k

/-- `significand * 10 ^ k`, unless that is beyond the finite numbers. -/
def scale? (significand : Nat) (k : Int) : Option Float :=
  let x := significand.toUInt64.toFloat
  if k < 0 then some (scaleDown x (-k).toNat)
  else if k ≤ 308 then
    let y := x * powerOfTen k.toNat
    if Binary64.isFinite y then some y else none
  else if significand = 0 then some x
  else none

/-- The value of a numeral: an integer when it has neither fraction nor exponent and fits into 64
bits, otherwise a float. Negative zero is a float. -/
def value (n : Numeral) : Document :=
  let (significand, dropped) := extend 0 n.whole
  let sign (x : Float) : Float := if n.negative then -x else x
  if n.fraction.isEmpty && n.exponent.isNone && dropped.isEmpty then
    if !n.negative then .integer significand
    else if significand = 0 || Nat.pow 2 63 < significand then
      .float (sign significand.toUInt64.toFloat)
    else .integer (-(significand : Int))
  else
    let (significand, lost) := extend significand n.fraction
    let places : Int := (n.fraction.length : Int) - lost.length
    match scale? significand (dropped.length - places + n.exponent.getD 0) with
    | some x => .float (sign x)
    | none => .unreadable

end Numeral
end DatasetAlgebra
