import DatasetAlgebra.Json.Document

/-!
Typed values that may be null. A null has a type of its own: a null integer and a null string
are different values.
-/
namespace DatasetAlgebra

inductive ValueType where
  | integer
  | float
  | string
  | boolean
  | object
  deriving DecidableEq, Repr, Inhabited

namespace ValueType

def isNumeric : ValueType → Bool
  | .integer | .float => true
  | _ => false

def name : ValueType → String
  | .integer => "integer"
  | .float => "float"
  | .string => "string"
  | .boolean => "boolean"
  | .object => "object"

/-- The place of a type among all types; also its mark in fingerprints. -/
def rank : ValueType → Nat
  | .integer => 0
  | .float => 1
  | .string => 2
  | .boolean => 3
  | .object => 4

theorem rank_injective {s t : ValueType} (h : s.rank = t.rank) : s = t := by
  cases s <;> cases t <;> simp_all [rank]

end ValueType

/-- A value that is there. -/
inductive Scalar where
  | integer (n : Int64)
  | float (x : Float)
  | string (s : String)
  | boolean (b : Bool)
  | object (j : Json)

def Scalar.type : Scalar → ValueType
  | .integer _ => .integer
  | .float _ => .float
  | .string _ => .string
  | .boolean _ => .boolean
  | .object _ => .object

inductive Value where
  | null (type : ValueType)
  | present (scalar : Scalar)
  deriving Inhabited

namespace Value

def type : Value → ValueType
  | .null t => t
  | .present s => s.type

@[simp] theorem type_null (t : ValueType) : (null t).type = t := rfl
@[simp] theorem type_present (s : Scalar) : (present s).type = s.type := rfl

def isNull : Value → Bool
  | .null _ => true
  | .present _ => false

@[simp] theorem isNull_null (t : ValueType) : (null t).isNull = true := rfl
@[simp] theorem isNull_present (s : Scalar) : (present s).isNull = false := rfl

def ofInt64 (n : Int64) : Value := .present (.integer n)
def ofFloat (x : Float) : Value := .present (.float x)
def ofString (s : String) : Value := .present (.string s)
def ofBool (b : Bool) : Value := .present (.boolean b)
def ofJson (j : Json) : Value := .present (.object j)

def integer? : Value → Option Int64
  | .present (.integer n) => some n
  | _ => none

def float? : Value → Option Float
  | .present (.float x) => some x
  | _ => none

def string? : Value → Option String
  | .present (.string s) => some s
  | _ => none

def boolean? : Value → Option Bool
  | .present (.boolean b) => some b
  | _ => none

end Value
end DatasetAlgebra
