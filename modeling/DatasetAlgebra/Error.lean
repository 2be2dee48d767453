import DatasetAlgebra.Aggregation.Reducer
import DatasetAlgebra.Filter.Text
import DatasetAlgebra.Join.Kind
import DatasetAlgebra.Row.Basic
import DatasetAlgebra.SortOrder.Basic

/-!
Failures, by cause, and their messages. A failure may carry others that happened while it was
being handled: they are suppressed onto it, and it stays the primary one. `Error.flat` is the view
of such a failure as a list; suppressing is concatenation on it.
-/
namespace DatasetAlgebra

/-- Who was asked for rows. -/
inductive Producer where
  | source (schema : Schema)
  | join (kind : JoinKind) (identifiers : List String)
  | aggregation (groupBy : List String)

namespace Producer

def text : Producer → String
  | .source schema => "source " ++ schema.text
  | .join kind _ => kind.name ++ " join"
  | .aggregation _ => "aggregation"

/-- The columns a producer is able to order and filter by, as a remark behind the refusal. -/
def remark : Producer → String
  | .source _ => ""
  | .join _ identifiers =>
    ": only the common identifiers (" ++ ", ".intercalate identifiers ++ ") can be used"
  | .aggregation groupBy =>
    ": only the group-by columns (" ++ ", ".intercalate groupBy ++ ") can be used"

end Producer

/-- A request that cannot be honoured. -/
inductive Refusal where
  | stated (text : String)
  | order (producer : Producer) (order : SortOrder)
  | filter (producer : Producer) (filter : Filter)
  | buffer (order : SortOrder) (capacity : Nat)

def Refusal.text : Refusal → String
  | .stated text => text
  | .order p o => p.text ++ " cannot produce rows ordered by " ++ o.text ++ p.remark
  | .filter p f => p.text ++ " cannot filter by " ++ f.debug ++ p.remark
  | .buffer o capacity =>
    "cannot sort by " ++ o.text ++ ": source exceeds the " ++ toString capacity ++
      " row sort buffer"

/-- Arguments from which no operation can be built. -/
inductive Misuse where
  | stated (text : String)
  | nothingToJoin
  | joinedTwice (dataset : String)
  | notIdentifier (column : String)
  | nothingShared (datasets : List String)
  | groupedAndAggregated (column : String)
  | notNumeric (reducer : Reducer) (measure : Column)
  | ambiguousMeasure (schema : Schema)

def Misuse.text : Misuse → String
  | .stated text => text
  | .nothingToJoin => "a join needs at least one dataset"
  | .joinedTwice dataset => "dataset '" ++ dataset ++ "' joined twice"
  | .notIdentifier column => "'" ++ column ++ "' is not an identifier"
  | .nothingShared datasets =>
    "datasets " ++ ", ".intercalate datasets ++ " share no identifier to join on"
  | .groupedAndAggregated column =>
    "'" ++ column ++ "' cannot be both grouped by and aggregated"
  | .notNumeric reducer measure =>
    reducer.name ++ " needs a numeric measure, '" ++ measure.name ++ "' is " ++ measure.type.name
  | .ambiguousMeasure schema =>
    "sum without an explicit measure needs a dataset with exactly one measure, " ++ schema.text ++
      " has " ++ toString schema.measures.length ++ " (" ++
      ", ".intercalate (schema.measures.map Column.name) ++ ")"

/-- Integer results that do not exist or do not fit. -/
inductive Overflow where
  | stated (text : String)
  | binary (operation : String) (a b : Int64)
  | negation (a : Int64)

def Overflow.text : Overflow → String
  | .stated text => text
  | .binary operation a b =>
    "integer " ++ operation ++ " of " ++ toString a.toInt ++ " and " ++ toString b.toInt ++ " failed"
  | .negation a => "integer negation of " ++ toString a.toInt ++ " failed"

/-- Rows that do not fit their schema. -/
inductive Misfit where
  | stated (text : String)
  | arity (expected found : Nat)
  | type (column : Column) (found : ValueType)
  | foreign (row : Row) (target : Schema)
  | missingKey (row : Row) (position : Nat)

def Misfit.text : Misfit → String
  | .stated text => text
  | .arity expected found =>
    "expected " ++ toString expected ++ " values, got " ++ toString found
  | .type column found =>
    "component '" ++ column.name ++ "' is " ++ column.type.name ++ " but value is " ++ found.name
  | .foreign row target =>
    "row " ++ row.text ++ " is bound to " ++ row.schema.text ++ ", cannot rebind to " ++ target.text
  | .missingKey row position => "row " ++ row.text ++ " has no key column at " ++ toString position

/-- Rows that are not laid out as their source declared. -/
inductive Breach where
  | stated (text : String)
  | key (row : Row) (column : String) (position : Nat)
  | measure (row : Row) (column : String) (position : Nat)

def Breach.text : Breach → String
  | .stated text => text
  | .key row column position =>
    "row " ++ row.text ++ " does not hold key column '" ++ column ++ "' at position " ++
      toString position
  | .measure row column position =>
    "row " ++ row.text ++ " does not hold measure '" ++ column ++ "' at position " ++
      toString position

inductive Error where
  | unsupported (why : Refusal)
  | conflict (name : String) (leftRole : Role) (leftType : ValueType) (rightRole : Role)
      (rightType : ValueType)
  | duplicate (column : String)
  | unknown (column : String)
  /-- An identifier that has no counterpart in one of the joined datasets. -/
  | unmapped (column dataset : String)
  | argument (why : Misuse)
  | operands (operation : String) (left right : ValueType)
  | arithmetic (why : Overflow)
  | misfit (why : Misfit)
  | release (source message : String)
  | breach (why : Breach)
  | suppressed (primary : Error) (others : List Error)

namespace Error

def message : Error → String
  | .unsupported why => "unsupported operation: " ++ why.text
  | .conflict name leftRole leftType rightRole rightType =>
    "schema conflict on component '" ++ name ++ "': " ++ leftRole.name ++ "/" ++ leftType.name ++
      " vs " ++ rightRole.name ++ "/" ++ rightType.name
  | .duplicate column => "duplicate component '" ++ column ++ "' in data structure"
  | .unknown column => "unknown component '" ++ column ++ "'"
  | .unmapped column dataset => "unknown component '" ++ column ++ " in dataset " ++ dataset ++ "'"
  | .argument why => "illegal argument: " ++ why.text
  | .operands operation left right =>
    "type error: cannot apply " ++ operation ++ " to " ++ left.name ++ " and " ++ right.name
  | .arithmetic why => "arithmetic error: " ++ why.text
  | .misfit why => "data point does not match structure: " ++ why.text
  | .release source message => "failed to close source '" ++ source ++ "': " ++ message
  | .breach why => "Internal invariant failed: " ++ why.text
  | .suppressed primary others =>
    primary.message ++ " (" ++ toString others.length ++ " suppressed)"

/-- The failure that the others were suppressed onto. -/
def primary : Error → Error
  | .suppressed primary _ => primary
  | e => e

/-- The failures suppressed onto the primary one, in the order they came. -/
def others : Error → List Error
  | .suppressed _ others => others
  | _ => []

/-- The primary failure, then the others. -/
def flat (e : Error) : List Error := e.primary :: e.others

/-- Suppresses one failure as a whole. -/
def suppress (e other : Error) : Error := .suppressed e.primary (e.others ++ [other])

/-- Suppresses a failure and all that was suppressed onto it. -/
def absorb (e other : Error) : Error := other.flat.foldl suppress e

def isUnsupported (e : Error) : Bool :=
  match e.primary with
  | .unsupported _ => true
  | _ => false

@[simp] theorem primary_suppress (e other : Error) : (e.suppress other).primary = e.primary := rfl

@[simp] theorem others_suppress (e other : Error) :
    (e.suppress other).others = e.others ++ [other] := rfl

@[simp] theorem flat_suppress (e other : Error) : (e.suppress other).flat = e.flat ++ [other] := by
  simp [flat]

theorem flat_foldl_suppress (es : List Error) (e : Error) :
    (es.foldl suppress e).flat = e.flat ++ es := by
  induction es generalizing e with
  | nil => simp
  | cons x es ih => simp [ih]

@[simp] theorem flat_absorb (e other : Error) : (e.absorb other).flat = e.flat ++ other.flat :=
  flat_foldl_suppress other.flat e

/-- A failure stays the primary one, whatever is suppressed onto it. -/
@[simp] theorem primary_absorb (e other : Error) : (e.absorb other).primary = e.primary := by
  have hflat := flat_absorb e other
  exact (List.cons.inj hflat).1

end Error
end DatasetAlgebra
