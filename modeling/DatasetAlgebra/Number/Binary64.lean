/-!
Double-precision numbers read off their bit patterns. `rank` is the total order the library uses
on them: it forgets the sign of zero, and holds every NaN equal and above infinity.
-/
namespace DatasetAlgebra
namespace Binary64

/-- The bits below the sign. -/
def magnitude (x : Float) : Nat := x.toBits.toNat % Nat.pow 2 63

def isNegative (x : Float) : Bool := Nat.pow 2 63 ≤ x.toBits.toNat

def infinity : Nat := 0x7ff0000000000000

def isNaN (x : Float) : Bool := infinity < magnitude x

def isFinite (x : Float) : Bool := magnitude x < infinity

def isZero (x : Float) : Bool := magnitude x = 0

/-- Where a number stands among all numbers. Bit patterns of one sign ascend with the value, so
the signed magnitude orders them. -/
def rank (x : Float) : Int :=
  if isNaN x then 0x7ff8000000000000
  else if isNegative x then -(magnitude x : Int)
  else magnitude x

/-- Sixteen hexadecimal digits of the bit pattern. -/
def hexBits (x : Float) : String :=
  let digits := Nat.toDigits 16 x.toBits.toNat
  String.ofList (List.replicate (16 - digits.length) '0' ++ digits)

/-- A finite magnitude as `mantissa * 2 ^ exponent`. -/
structure Scaled where
  mantissa : Nat
  exponent : Int
  deriving DecidableEq, Repr

/-- Subnormal numbers keep the exponent of the smallest normal ones. -/
def scaled (x : Float) : Scaled :=
  let biased : Nat := magnitude x / Nat.pow 2 52
  let fraction : Nat := magnitude x % Nat.pow 2 52
  if biased = 0 then ⟨fraction, -1074⟩ else ⟨fraction + Nat.pow 2 52, (biased : Int) - 1075⟩

end Binary64
end DatasetAlgebra
