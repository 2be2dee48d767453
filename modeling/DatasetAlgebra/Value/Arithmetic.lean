import DatasetAlgebra.Error

/-!
Operations on values. Both operands must have the type the operation works on; then a null operand
makes the result null. Integer arithmetic is exact or fails, it never wraps around.
-/
namespace DatasetAlgebra

/-- The 64-bit integer with a given value. -/
def Int64.narrow? (n : Int) : Option Int64 :=
  if Int64.minValue.toInt ≤ n ∧ n ≤ Int64.maxValue.toInt then some (Int64.ofInt n) else none

inductive ArithmeticOp where
  | add
  | subtract
  | multiply
  | divide
  deriving DecidableEq, Repr

namespace ArithmeticOp

def name : ArithmeticOp → String
  | .add => "addition"
  | .subtract => "subtraction"
  | .multiply => "multiplication"
  | .divide => "division"

/-- The exact result; division truncates. -/
def onIntegers? : ArithmeticOp → Int → Int → Option Int
  | .add, a, b => some (a + b)
  | .subtract, a, b => some (a - b)
  | .multiply, a, b => some (a * b)
  | .divide, a, b => if b = 0 then none else some (a.tdiv b)

def onFloats : ArithmeticOp → Float → Float → Float
  | .add, a, b => a + b
  | .subtract, a, b => a - b
  | .multiply, a, b => a * b
  | .divide, a, b => a / b

end ArithmeticOp

namespace Value

def operands (operation : String) (a b : Value) : Error := .operands operation a.type b.type

def arithmetic (op : ArithmeticOp) (a b : Value) : Except Error Value :=
  if a.type = b.type && a.type.isNumeric then
    match a, b with
    | .present (.integer x), .present (.integer y) =>
      match (op.onIntegers? x.toInt y.toInt).bind Int64.narrow? with
      | some z => .ok (ofInt64 z)
      | none => .error (.arithmetic (.binary op.name x y))
    | .present (.float x), .present (.float y) => .ok (ofFloat (op.onFloats x y))
    | _, _ => .ok (null a.type)
  else .error (operands op.name a b)

def add (a b : Value) : Except Error Value := arithmetic .add a b

def subtract (a b : Value) : Except Error Value := arithmetic .subtract a b

def multiply (a b : Value) : Except Error Value := arithmetic .multiply a b

def divide (a b : Value) : Except Error Value := arithmetic .divide a b

def negate : Value → Except Error Value
  | .present (.integer x) =>
    match Int64.narrow? (-x.toInt) with
    | some y => .ok (ofInt64 y)
    | none => .error (.arithmetic (.negation x))
  | .present (.float x) => .ok (ofFloat (-x))
  | v => if v.type.isNumeric then .ok v else .error (operands "negation" v v)

def concat (a b : Value) : Except Error Value :=
  if a.type = .string && b.type = .string then
    match a.string?, b.string? with
    | some s, some t => .ok (ofString (s ++ t))
    | _, _ => .ok (null .string)
  else .error (operands "concatenation" a b)

/-- A truth function of two values. A null operand makes the result null, whatever the other. -/
def logical (operation : String) (f : Bool → Bool → Bool) (a b : Value) : Except Error Value :=
  if a.type = .boolean && b.type = .boolean then
    match a.boolean?, b.boolean? with
    | some x, some y => .ok (ofBool (f x y))
    | _, _ => .ok (null .boolean)
  else .error (operands operation a b)

def and (a b : Value) : Except Error Value := logical "and" (fun x y => x && y) a b

def or (a b : Value) : Except Error Value := logical "or" (fun x y => x || y) a b

def not (a : Value) : Except Error Value :=
  if a.type = .boolean then
    match a.boolean? with
    | some x => .ok (ofBool !x)
    | none => .ok (null .boolean)
  else .error (operands "not" a a)

/-- Comparison of values of one type; none when either is null. -/
def compare (a b : Value) : Except Error (Option Ordering) :=
  if a.type = b.type then
    .ok (if a.isNull || b.isNull then none else some (a.collate b))
  else .error (operands "compare" a b)

/-- Equality as a truth value, null when either side is. -/
def equals (a b : Value) : Except Error Value :=
  (compare a b).map fun
    | some o => ofBool (o == .eq)
    | none => null .boolean

end Value
end DatasetAlgebra
