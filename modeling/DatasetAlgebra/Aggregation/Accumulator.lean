import DatasetAlgebra.Aggregation.Reducer
import DatasetAlgebra.Value.Arithmetic

/-! Accumulators: the measures of one group, reduced as they come. Nulls do not count. -/
namespace DatasetAlgebra

structure Accumulator where
  reducer : Reducer
  /-- What the measures so far reduce to; null before the first one. -/
  value : Value
  count : Nat

namespace Accumulator

def empty (reducer : Reducer) (type : ValueType) : Accumulator := ⟨reducer, .null type, 0⟩

/-- One measure more in the value. The first one is taken as it is. -/
def step (reducer : Reducer) (value v : Value) : Except Error Value :=
  if value.isNull then .ok v
  else
    match reducer with
    | .sum => value.add v
    | .min => (v.compare value).map fun o => if o = some .lt then v else value
    | .max => (v.compare value).map fun o => if o = some .gt then v else value
    | .count => .ok value

def add (a : Accumulator) (v : Value) : Except Error Accumulator :=
  if v.isNull then .ok a
  else (step a.reducer a.value v).map fun value => ⟨a.reducer, value, a.count + 1⟩

def result (a : Accumulator) : Value :=
  match a.reducer with
  | .count => .ofInt64 (Int64.ofNat a.count)
  | .sum | .min | .max => a.value

end Accumulator
end DatasetAlgebra
