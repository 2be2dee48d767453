import DatasetAlgebra.Dataset.Request
import DatasetAlgebra.Join.ColumnMap
import DatasetAlgebra.Join.MergeJoin
import DatasetAlgebra.SortOrder.Compatible

/-!
Joins of named datasets on identifiers. Every dataset is asked for its rows in one order of the
identifiers, and the sequences are merged pairwise from left to right. All streams are held by the
stream of the join and released with it; if opening one fails, those opened before are released.
-/
namespace DatasetAlgebra

structure Join where
  kind : JoinKind
  first : String × Dataset
  rest : List (String × Dataset)
  /-- The columns joined on, as the merged schema has them. -/
  identifiers : List Column
  schema : Schema
  columnMap : ColumnMap
  policy : Policy := .standard

namespace Join

def datasets (j : Join) : List (String × Dataset) := j.first :: j.rest

def datasetNames (j : Join) : List String := j.datasets.map (·.1)

def identifierNames (j : Join) : List String := j.identifiers.map Column.name

def withPolicy (j : Join) (p : Policy) : Join := { j with policy := p }

/-- Merges schemas from left to right. -/
def mergeSchemas (s : Schema) : List Schema → Except Error Schema
  | [] => .ok s
  | t :: rest => (s.merge t).bind (mergeSchemas · rest)

/-- The identifiers of given names. -/
def identifiersOf (s : Schema) : List String → Except Error (List Column)
  | [] => .ok []
  | name :: rest =>
    match s.column? name with
    | none => .error (.unknown name)
    | some c =>
      if c.isIdentifier then (identifiersOf s rest).map (c :: ·)
      else .error (.argument (.notIdentifier name))

/-- Joins datasets of different names on the named identifiers, which all of them must have. -/
def on (kind : JoinKind) (datasets : List (String × Dataset)) (names : List String) :
    Except Error Join :=
  match datasets with
  | [] => .error (.argument .nothingToJoin)
  | first :: rest =>
    match Schema.firstRepeat [] (datasets.map (·.1)) with
    | some name => .error (.argument (.joinedTwice name))
    | none => do
      let schema ← mergeSchemas first.2.schema (rest.map (·.2.schema))
      let identifiers ← identifiersOf schema names
      if identifiers.isEmpty && !rest.isEmpty then
        .error (.argument (.nothingShared (datasets.map (·.1))))
      else
        let columnMap ← ColumnMap.build identifiers (datasets.map fun d => (d.1, d.2.schema))
        .ok { kind, first, rest, identifiers, schema, columnMap }

/-- The names of the identifiers that all datasets have as identifiers. -/
def commonNames : List (String × Dataset) → List String
  | [] => []
  | first :: rest =>
    let common (c : Column) :=
      rest.all fun d => ((d.2.schema.column? c.name).map Column.isIdentifier).getD false
    (first.2.schema.identifiers.filter common).map Column.name

/-- Joins datasets on all identifiers that they have in common. -/
def onCommon (kind : JoinKind) (datasets : List (String × Dataset)) : Except Error Join :=
  on kind datasets (commonNames datasets)

def producer (j : Join) : Producer := .join j.kind j.identifierNames

/-- The order in which every dataset is asked for its rows. -/
def requiredOrder (j : Join) (order : SortOrder) : Except Error SortOrder :=
  match SortOrder.compatible? j.identifiers order with
  | some required => .ok required
  | none => .error (.unsupported (.order j.producer order))

/-- What all datasets of a join are asked for. -/
structure Request where
  order : SortOrder
  filter : Filter
  columns : List String

def openSource (j : Join) (q : Request) (d : Dataset) : Recorded RowStream :=
  match q.order.onto d.schema with
  | .error e => .fail e
  | .ok order => d.request order q.filter (q.columns.filter d.schema.contains) j.policy

/-- Keys as a dataset declares them. -/
def sourceKeys (j : Join) (q : Request) (name : String) (s : Schema) : Except Error KeyReader :=
  KeyReader.resolving s q.order fun identifier =>
    (j.columnMap.resolve identifier name).map Column.name

/-- The rows joined so far, their schema, how their keys are read, and all that is held open for
them. A missing key column counts only once something is joined. -/
structure Joined where
  schema : Schema
  keys : Except Error KeyReader
  rows : Delayed Rows
  held : ReleaseStack

def mergeWith (j : Join) (q : Request) (sofar : Joined) (name : String) (s : Schema)
    (right : Delayed Rows) : Except Error (Delayed Rows) := do
  let leftKeys ← sofar.keys
  let rightKeys ← j.sourceKeys q name s
  let merger ← RowMerger.pair sofar.schema s j.schema
  .ok fun _ => MergeJoin.rows ⟨j.kind, q.order, merger⟩ leftKeys rightKeys sofar.rows right

/-- Merges the rows so far with the rows of the remaining datasets, one dataset after the other. -/
def mergeAll (j : Join) (q : Request) (sofar : Joined) :
    List (String × Dataset) → Recorded Joined
  | [] => .ok sofar
  | (name, d) :: rest =>
    (sofar.held.guarding (j.openSource q d)).andThen fun s =>
      let held := sofar.held.register name s
      (held.guarding (.silent (j.mergeWith q sofar name d.schema s.rows))).andThen fun rows =>
        j.mergeAll q ⟨j.schema, KeyReader.byName j.schema q.order, rows, held⟩ rest

/-- The rows of the first dataset alone, in the schema of the join. -/
def carry (j : Join) (sofar : Joined) : Except Error Joined :=
  (RowMerger.single sofar.schema j.schema).map fun m =>
    { sofar with
      schema := j.schema
      rows := fun _ => (sofar.rows ()).map fun r => m.merge (some r) none }

/-- Opens all datasets and merges their rows. -/
def openAll (j : Join) (q : Request) : Recorded Joined :=
  (j.openSource q j.first.2).andThen fun s =>
    let name := j.first.1
    let schema := j.first.2.schema
    let first : Joined :=
      ⟨schema, j.sourceKeys q name schema, s.rows, ReleaseStack.empty.register name s⟩
    if j.rest.isEmpty then first.held.guarding (.silent (j.carry first))
    else j.mergeAll q first j.rest

/-- Rows of the join. It can be ordered and filtered by its identifiers only; the filter is left
to the datasets. -/
def read (j : Join) (order : SortOrder) (f : Filter) (columns : List String) :
    Recorded RowStream :=
  match j.requiredOrder order with
  | .error e => .fail e
  | .ok required =>
    if f.refersOnlyTo j.identifierNames then
      (j.openAll ⟨required, f, columns⟩).andThen fun joined =>
        .ok ((((RowStream.ofRows j.schema joined.rows).wanted order f).applied required f).onClose
          joined.held.release)
    else .fail (.unsupported (.filter j.producer f))

def toDataset (j : Join) : Dataset where
  schema := j.schema
  read := j.read
  unsupportedOrder order :=
    if (SortOrder.compatible? j.identifiers order).isSome then .any else order
  unsupportedFilter f := if f.refersOnlyTo j.identifierNames then .all else f
  size := if j.rest.isEmpty then j.first.2.size else none

def debug (j : Join) : String :=
  Filter.braced "JoinOperation"
    ["kind: " ++ j.kind.debug, "datasets: " ++ Text.bracketed (j.datasetNames.map Text.quoted),
      "identifiers: " ++ Text.bracketed (j.identifierNames.map Text.quoted),
      "structure: " ++ Text.quoted j.schema.text]

end Join
end DatasetAlgebra
