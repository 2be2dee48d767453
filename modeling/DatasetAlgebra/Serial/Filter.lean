import DatasetAlgebra.Serial.Value

/-!
Filters as JSON documents: the kind of the filter in one record with its fields. The kind is a
choice, and all other parts are read as parts of a filter.
-/
namespace DatasetAlgebra

namespace Comparison

def values : List Comparison := [.eq, .ne, .lt, .le, .gt, .ge]

def name : Comparison → String
  | .eq => "eq"
  | .ne => "ne"
  | .lt => "lt"
  | .le => "le"
  | .gt => "gt"
  | .ge => "ge"

def toDocument (c : Comparison) : Document := .string c.name

def ofDocument? (place : Place) (d : Document) : Option Comparison :=
  (d.constant? place).bind fun s => values.find? fun c => c.name = s

end Comparison

namespace Filter

/-- The kinds of filters, each with its fields. -/
inductive Kind where
  | all
  | compare
  | isNull
  | and
  | or
  | not
  deriving DecidableEq, Repr

namespace Kind

def values : List Kind := [.all, .compare, .isNull, .and, .or, .not]

def name : Kind → String
  | .all => "all"
  | .compare => "compare"
  | .isNull => "is_null"
  | .and => "and"
  | .or => "or"
  | .not => "not"

def fields : Kind → List String
  | .all => []
  | .compare => ["column", "op", "value"]
  | .isNull => ["column"]
  | .and | .or => ["terms"]
  | .not => ["term"]

def ofDocument? (place : Place) (d : Document) : Option Kind := d.choice? place values name

end Kind

mutual
def toDocument : Filter → Document
  | .all => .object [("kind", .string "all")]
  | .compare column test constant =>
    .object [("kind", .string "compare"), ("column", .string column), ("op", test.toDocument),
      ("value", constant.toDocument)]
  | .isNull column => .object [("kind", .string "is_null"), ("column", .string column)]
  | .and terms => .object [("kind", .string "and"), ("terms", .array (toDocuments terms))]
  | .or terms => .object [("kind", .string "or"), ("terms", .array (toDocuments terms))]
  | .not term => .object [("kind", .string "not"), ("term", term.toDocument)]

def toDocuments : List Filter → List Document
  | [] => []
  | f :: rest => f.toDocument :: toDocuments rest
end

/-- The kind of a filter that is an object, whose fields must not repeat. -/
def kindOf? (place : Place) (fields : List (String × Document)) : Option Kind :=
  match (fields.lookup "kind").bind (Kind.ofDocument? place) with
  | none => none
  | some kind =>
    if ("kind" :: kind.fields).all fun n => fields.countP (fun field => field.1 = n) ≤ 1 then
      some kind
    else none

def compare? (column test constant : Option Document) : Option Filter := do
  let column ← column.bind Document.string?
  let test ← test.bind (Comparison.ofDocument? .inFilter)
  let constant ← constant.bind (Value.ofDocument? .inFilter)
  some (.compare column test constant)

def isNull? (column : Option Document) : Option Filter :=
  (column.bind Document.string?).map .isNull

mutual
/-- Reads a filter all of whose parts are readable. -/
def read? (place : Place) : Document → Option Filter
  | .object fields =>
    match kindOf? place fields with
    | some .all => some .all
    | some .compare =>
      compare? (fields.lookup "column") (fields.lookup "op") (fields.lookup "value")
    | some .isNull => isNull? (fields.lookup "column")
    | some .and => (readTerms? fields).map .and
    | some .or => (readTerms? fields).map .or
    | some .not => (readTerm? fields).map .not
    | none => none
  | .array [kind] =>
    match Kind.ofDocument? place kind with
    | some .all => some .all
    | _ => none
  | .array [kind, field] =>
    match Kind.ofDocument? place kind with
    | some .isNull => isNull? (some field)
    | some .and => (readArray? field).map .and
    | some .or => (readArray? field).map .or
    | some .not => (read? .inFilter field).map .not
    | _ => none
  | .array [kind, column, test, constant] =>
    match Kind.ofDocument? place kind with
    | some .compare => compare? (some column) (some test) (some constant)
    | _ => none
  | _ => none

def readAll? : List Document → Option (List Filter)
  | [] => some []
  | d :: rest =>
    match read? .inFilter d, readAll? rest with
    | some f, some fs => some (f :: fs)
    | _, _ => none

def readArray? : Document → Option (List Filter)
  | .array items => readAll? items
  | _ => none

/-- The field `terms`. -/
def readTerms? : List (String × Document) → Option (List Filter)
  | [] => none
  | (key, d) :: rest => if key = "terms" then readArray? d else readTerms? rest

/-- The field `term`. -/
def readTerm? : List (String × Document) → Option Filter
  | [] => none
  | (key, d) :: rest => if key = "term" then read? .inFilter d else readTerm? rest
end

def ofDocument? (d : Document) : Option Filter := if d.isReadable then read? .alone d else none

end Filter
end DatasetAlgebra
