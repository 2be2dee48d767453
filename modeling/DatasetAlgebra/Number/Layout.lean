import DatasetAlgebra.Number.Shortest

/-!
How a shortest decimal is laid out as text. Each written form of numbers in the library is one
`Layout`, a value; `Layout.write` is the only function that writes them.
-/
namespace DatasetAlgebra

structure Layout where
  /-- Exponents of the leading digit that are written without an exponent. -/
  positional : Int → Bool
  /-- Whether a positional whole number ends in `.0`. -/
  point : Bool
  /-- Whether a positive exponent carries a sign. -/
  plus : Bool
  tie : Tie

namespace Layout

/-- Digits with the decimal point after the leading `1 + exponent` of them, zeros filling the
gaps. -/
def fixed (point : Bool) (d : Decimal) : String :=
  let digits := toString d.digits
  if 0 ≤ d.exponent then
    digits ++ String.ofList (List.replicate d.exponent.toNat '0') ++ (if point then ".0" else "")
  else
    let places := (-d.exponent).toNat
    let padded := List.replicate (places + 1 - digits.length) '0' ++ digits.toList
    String.ofList (padded.take (padded.length - places)) ++ "."
      ++ String.ofList (padded.drop (padded.length - places))

/-- One leading digit, the others behind the point, and the exponent of the leading digit. -/
def scientific (plus : Bool) (d : Decimal) : String :=
  let digits := (toString d.digits).toList
  let exponent := d.exponent + digits.length - 1
  let sign := if plus && 0 ≤ exponent then "+" else ""
  String.ofList (digits.take 1) ++ (if digits.length = 1 then "" else ".")
    ++ String.ofList (digits.drop 1) ++ "e" ++ sign ++ toString exponent

/-- Text of a number. Zero counts as positional; a NaN has no sign. -/
def write (l : Layout) (x : Float) : String :=
  if Binary64.isNaN x then "NaN"
  else
    let sign := if Binary64.isNegative x then "-" else ""
    if Binary64.isFinite x then
      let d := Decimal.shortest l.tie x
      let leading := d.exponent + (toString d.digits).length - 1
      sign ++ (if d.digits = 0 || l.positional leading then fixed l.point d
        else scientific l.plus d)
    else sign ++ "inf"

/-- Values in rows and messages: never an exponent, whole numbers without a point. -/
def plain : Layout := ⟨fun _ => true, false, false, .up⟩

/-- Diagnostic output: exponents outside `10 ^ -4` to `10 ^ 16`, always a point or an exponent. -/
def debug : Layout := ⟨fun e => -4 ≤ e && e < 16, true, false, .up⟩

/-- Numbers inside JSON text: exponents outside `10 ^ -5` to `10 ^ 16`, with a sign. -/
def json : Layout := ⟨fun e => -5 ≤ e && e < 16, true, true, .even⟩

end Layout
end DatasetAlgebra
