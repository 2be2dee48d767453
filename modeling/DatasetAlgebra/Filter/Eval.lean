import DatasetAlgebra.Filter.Basic
import DatasetAlgebra.Value.Arithmetic

/-!
Evaluation of filters on rows, in three truth values; none is unknown. Terms are evaluated in
their order, and no further than to the first that decides.
-/
namespace DatasetAlgebra
namespace Filter

def truth (r : Row) (column : String) (test : Comparison) (constant : Value) :
    Except Error (Option Bool) :=
  match r.value? column with
  | none => .error (.unknown column)
  | some v => (v.compare constant).map fun o => o.map test.holds

mutual
def eval (r : Row) : Filter → Except Error (Option Bool)
  | .all => .ok (some true)
  | .compare column test constant => truth r column test constant
  | .isNull column =>
    match r.value? column with
    | none => .error (.unknown column)
    | some v => .ok (some v.isNull)
  | .and terms => evalAnd r (some true) terms
  | .or terms => evalOr r (some false) terms
  | .not term => (eval r term).map fun t => t.map fun b => !b

/-- A conjunction whose terms so far amount to `sofar`, which is not false. -/
def evalAnd (r : Row) (sofar : Option Bool) : List Filter → Except Error (Option Bool)
  | [] => .ok sofar
  | f :: rest =>
    match eval r f with
    | .error e => .error e
    | .ok (some false) => .ok (some false)
    | .ok (some true) => evalAnd r sofar rest
    | .ok none => evalAnd r none rest

/-- A disjunction whose terms so far amount to `sofar`, which is not true. -/
def evalOr (r : Row) (sofar : Option Bool) : List Filter → Except Error (Option Bool)
  | [] => .ok sofar
  | f :: rest =>
    match eval r f with
    | .error e => .error e
    | .ok (some true) => .ok (some true)
    | .ok (some false) => evalOr r sofar rest
    | .ok none => evalOr r none rest
end

/-- Whether a row is kept: its predicate is true, neither false nor unknown. -/
def keeps (f : Filter) (r : Row) : Except Error Bool := (f.eval r).map fun t => t = some true

end Filter
end DatasetAlgebra
