import DatasetAlgebra.Aggregation.Grouping
import DatasetAlgebra.Dataset.Request
import DatasetAlgebra.SortOrder.Compatible

/-!
Aggregations: one row for each group of rows of a dataset, with a measure reduced over the group.
The dataset is asked for its rows in an order of the grouping columns, so that groups are runs.
-/
namespace DatasetAlgebra

structure Aggregation where
  child : Dataset
  groupBy : List Column
  measure : Column
  reducer : Reducer
  schema : Schema
  policy : Policy := .standard

namespace Aggregation

def groupNames (a : Aggregation) : List String := a.groupBy.map Column.name

def withPolicy (a : Aggregation) (p : Policy) : Aggregation := { a with policy := p }

def columnsOf (s : Schema) : List String → Except Error (List Column)
  | [] => .ok []
  | name :: rest =>
    match s.column? name with
    | none => .error (.unknown name)
    | some c => (columnsOf s rest).map (c :: ·)

/-- The columns of the result: what is grouped by identifies its rows. -/
def outputColumns (groupBy : List Column) (measure : Column) (reducer : Reducer) : List Column :=
  groupBy.map (fun c => { c with role := .identifier }) ++
    [⟨measure.name, .measure, reducer.resultType measure.type⟩]

/-- Reduces a measure for each combination of values of the grouping columns. -/
def of (child : Dataset) (groupNames : List String) (measureName : String) (reducer : Reducer) :
    Except Error Aggregation := do
  let groupBy ← columnsOf child.schema groupNames
  match child.schema.column? measureName with
  | none => .error (.unknown measureName)
  | some measure =>
    if groupBy.any fun c => c.name = measure.name then
      .error (.argument (.groupedAndAggregated measure.name))
    else if reducer != .count && !measure.type.isNumeric then
      .error (.argument (.notNumeric reducer measure))
    else
      let schema ← Schema.ofColumns (outputColumns groupBy measure reducer)
      .ok { child, groupBy, measure, reducer, schema }

/-- Sums the only measure. -/
def sum (child : Dataset) (groupNames : List String) : Except Error Aggregation :=
  match child.schema.measures with
  | [only] => of child groupNames only.name .sum
  | _ => .error (.argument (.ambiguousMeasure child.schema))

def sumOf (child : Dataset) (groupNames : List String) (measureName : String) :
    Except Error Aggregation :=
  of child groupNames measureName .sum

def producer (a : Aggregation) : Producer := .aggregation a.groupNames

def requiredOrder (a : Aggregation) (order : SortOrder) : Except Error SortOrder :=
  match SortOrder.compatible? a.groupBy order with
  | some required => .ok required
  | none => .error (.unsupported (.order a.producer order))

/-- The hint for the child: the columns asked for that it has, and the measure. -/
def childColumns (a : Aggregation) (columns : List String) : List String :=
  let known := columns.filter a.child.schema.contains
  if known.isEmpty || known.contains a.measure.name then known else known ++ [a.measure.name]

/-- The grouping of a stream whose rows have the schema `source`. -/
def grouping (a : Aggregation) (required : SortOrder) (source : Schema) :
    Except Error Grouping := do
  let measure ← KeyReader.locate source a.measure.name
  let keys ← KeyReader.byName source required
  .ok ⟨keys, required, measure, a.measure.type, a.reducer, a.schema⟩

/-- Opens the child and groups its rows. -/
def group (a : Aggregation) (order required : SortOrder) (f : Filter) (s : RowStream) :
    Recorded RowStream :=
  let held := ReleaseStack.empty.register "aggregation input" s
  (held.guarding (.silent (a.grouping required s.schema))).andThen fun g =>
    let grouped := RowStream.ofRows a.schema fun _ => g.rows (s.rows ())
    .ok (((grouped.wanted order f).applied required f).onClose held.release)

/-- Rows of the aggregation. It can be ordered and filtered by the grouping columns only; the
filter is left to the child. -/
def read (a : Aggregation) (order : SortOrder) (f : Filter) (columns : List String) :
    Recorded RowStream :=
  match a.requiredOrder order with
  | .error e => .fail e
  | .ok required =>
    if f.refersOnlyTo a.groupNames then
      match required.onto a.child.schema with
      | .error e => .fail e
      | .ok childOrder =>
        (a.child.request childOrder f (a.childColumns columns) a.policy).andThen
          (a.group order required f)
    else .fail (.unsupported (.filter a.producer f))

def toDataset (a : Aggregation) : Dataset where
  schema := a.schema
  read := a.read
  unsupportedOrder order :=
    if (SortOrder.compatible? a.groupBy order).isSome then .any else order
  unsupportedFilter f := if f.refersOnlyTo a.groupNames then .all else f

def debug (a : Aggregation) : String :=
  Filter.braced "AggregationOperation"
    ["group_by: " ++ Text.bracketed (a.groupNames.map Text.quoted),
      "measure: " ++ Text.quoted a.measure.name, "reducer: " ++ a.reducer.debug]

end Aggregation
end DatasetAlgebra
