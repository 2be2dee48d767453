import DatasetAlgebra.Value.Basic

/-! Reducers: what an aggregation makes of the measures of one group. -/
namespace DatasetAlgebra

inductive Reducer where
  | sum
  | min
  | max
  | count
  deriving DecidableEq, Repr, Inhabited

namespace Reducer

def name : Reducer → String
  | .sum => "sum"
  | .min => "min"
  | .max => "max"
  | .count => "count"

def debug : Reducer → String
  | .sum => "Sum"
  | .min => "Min"
  | .max => "Max"
  | .count => "Count"

/-- The type of the result over measures of type `t`. -/
def resultType (r : Reducer) (t : ValueType) : ValueType :=
  match r with
  | .count => .integer
  | .sum | .min | .max => t

end Reducer
end DatasetAlgebra
