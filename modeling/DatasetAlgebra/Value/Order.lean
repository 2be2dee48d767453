import DatasetAlgebra.Json.Printer
import DatasetAlgebra.Value.Basic

/-!
The order of values that sorting and joining use, their equality, and the content that a hash of
them covers. Types come first, then nulls before present values. The two zeros are one number,
and so are all NaNs; stored JSON values are ordered by their text.
-/
namespace DatasetAlgebra

namespace Scalar

def collate : Scalar → Scalar → Ordering
  | .integer a, .integer b => compare a.toInt b.toInt
  | .float a, .float b => compare (Binary64.rank a) (Binary64.rank b)
  | .string a, .string b => compare a b
  | .boolean a, .boolean b => compare a.toNat b.toNat
  | .object a, .object b => compare a.text b.text
  | a, b => compare a.type.rank b.type.rank

def same : Scalar → Scalar → Bool
  | .integer a, .integer b => a == b
  | .float a, .float b => Binary64.rank a == Binary64.rank b
  | .string a, .string b => a == b
  | .boolean a, .boolean b => a == b
  | .object a, .object b => a.same b
  | _, _ => false

end Scalar

/-- What a hash covers of a scalar beside its type. -/
inductive HashContent where
  | integer (n : Int64)
  | float (rank : Int)
  | text (s : String)
  | boolean (b : Bool)
  deriving DecidableEq

def Scalar.hashContent : Scalar → HashContent
  | .integer n => .integer n
  | .float x => .float (Binary64.rank x)
  | .string s => .text s
  | .boolean b => .boolean b
  | .object j => .text j.text

namespace Value

/-- The total order of values. -/
def collate (a b : Value) : Ordering :=
  (compare a.type.rank b.type.rank).then
    (match a, b with
      | .null _, .null _ => .eq
      | .null _, .present _ => .lt
      | .present _, .null _ => .gt
      | .present x, .present y => x.collate y)

def same : Value → Value → Bool
  | .null s, .null t => s == t
  | .present x, .present y => x.same y
  | _, _ => false

instance : BEq Value := ⟨same⟩

/-- Sorts values; those that are equal in the order stay as they stand. -/
def sort (values : List Value) : List Value := values.mergeSort fun a b => a.collate b != .gt

/-- What a hash covers of a value. -/
def hashContent (v : Value) : ValueType × Option HashContent :=
  match v with
  | .null t => (t, none)
  | .present s => (s.type, some s.hashContent)

end Value
end DatasetAlgebra
