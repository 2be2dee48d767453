import DatasetAlgebra.Value.Basic

/-!
Columns and schemas. A column has a name, a role and a type; a schema is a list of columns with
distinct names, so that a name stands for at most one position.
-/
namespace DatasetAlgebra

/-- Identifiers tell the rows of a dataset apart, measures hold what was observed, attributes
describe it. -/
inductive Role where
  | identifier
  | measure
  | attribute
  deriving DecidableEq, Repr, Inhabited

namespace Role

def name : Role → String
  | .identifier => "identifier"
  | .measure => "measure"
  | .attribute => "attribute"

/-- The mark of a role in fingerprints. -/
def rank : Role → Nat
  | .identifier => 0
  | .measure => 1
  | .attribute => 2

end Role

structure Column where
  name : String
  role : Role
  type : ValueType
  deriving DecidableEq, Repr, Inhabited

namespace Column

def isIdentifier (c : Column) : Bool := c.role = .identifier

def isMeasure (c : Column) : Bool := c.role = .measure

def isAttribute (c : Column) : Bool := c.role = .attribute

/-- Same role and type, whatever the names. -/
def agrees (a b : Column) : Bool := a.role = b.role && a.type = b.type

/-- The null that stands where this column has no value. -/
def null (c : Column) : Value := .null c.type

def text (c : Column) : String := c.name ++ ": " ++ c.role.name ++ " " ++ c.type.name

end Column

structure Schema where
  columns : List Column
  distinct : (columns.map Column.name).Nodup
  deriving DecidableEq

namespace Schema

def empty : Schema := ⟨[], List.nodup_nil⟩

instance : Inhabited Schema := ⟨empty⟩

def names (s : Schema) : List String := s.columns.map Column.name

def width (s : Schema) : Nat := s.columns.length

def column? (s : Schema) (name : String) : Option Column :=
  s.columns.find? fun c => c.name = name

def position? (s : Schema) (name : String) : Option Nat :=
  s.columns.findIdx? fun c => c.name = name

def contains (s : Schema) (name : String) : Bool := s.columns.any fun c => c.name = name

def withRole (s : Schema) (r : Role) : List Column := s.columns.filter fun c => c.role = r

def identifiers (s : Schema) : List Column := s.withRole .identifier

def measures (s : Schema) : List Column := s.withRole .measure

def attributes (s : Schema) : List Column := s.withRole .attribute

def text (s : Schema) : String := "[" ++ ", ".intercalate (s.columns.map Column.text) ++ "]"

end Schema
end DatasetAlgebra
