import DatasetAlgebra.Serial.Record
import DatasetAlgebra.Value.Arithmetic

/-! Values and their types as JSON documents: the type beside the content, which may be null. -/
namespace DatasetAlgebra

namespace ValueType

def values : List ValueType := [.integer, .float, .string, .boolean, .object]

def ofName? (name : String) : Option ValueType := values.find? fun t => t.name = name

def toDocument (t : ValueType) : Document := .string t.name

def ofDocument? (place : Place) (d : Document) : Option ValueType :=
  (d.constant? place).bind ofName?

end ValueType

/-- The content of a scalar. A float that is not finite has none. -/
def Scalar.toDocument : Scalar → Document
  | .integer n => .integer n.toInt
  | .float x => if Binary64.isFinite x then .float x else .null
  | .string s => .string s
  | .boolean b => .boolean b
  | .object j => j.document

/-- The float nearest to an integer of at most 64 bits. -/
def Document.floatOfInt (n : Int) : Float :=
  if n < 0 then -n.natAbs.toUInt64.toFloat else n.natAbs.toUInt64.toFloat

/-- Content of a given type. An integer also is a float. -/
def Scalar.ofDocument? (t : ValueType) (d : Document) : Option Scalar :=
  match t, d with
  | .integer, .integer n => (Int64.narrow? n).map .integer
  | .float, .integer n => some (.float (Document.floatOfInt n))
  | .float, .float x => some (.float x)
  | .string, .string s => some (.string s)
  | .boolean, .boolean b => some (.boolean b)
  | .object, d => d.toJson?.map .object
  | _, _ => none

namespace Value

def toDocument : Value → Document
  | .null t => .object [("type", t.toDocument), ("value", .null)]
  | .present s => .object [("type", s.type.toDocument), ("value", s.toDocument)]

def ofContent? (t : ValueType) : Document → Option Value
  | .null => some (.null t)
  | d => (Scalar.ofDocument? t d).map .present

/-- An object may leave out the content, which then is null; an array holds both parts, and its
type is no constant but a choice. -/
def ofDocument? (place : Place) (d : Document) : Option Value :=
  match d, d.record? ["type", "value"] with
  | .array _, some [some t, some content] =>
    (t.choice? place ValueType.values ValueType.name).bind (ofContent? · content)
  | .object _, some [some t, some content] =>
    (ValueType.ofDocument? place t).bind (ofContent? · content)
  | .object _, some [some t, none] => (ValueType.ofDocument? place t).map .null
  | _, _ => none

end Value
end DatasetAlgebra
