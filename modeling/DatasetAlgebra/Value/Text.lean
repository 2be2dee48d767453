import DatasetAlgebra.Json.Printer
import DatasetAlgebra.Value.Basic

/-! Written forms of values: the plain one of rows and messages, and the diagnostic one. -/
namespace DatasetAlgebra

namespace Scalar

def text : Scalar → String
  | .integer n => toString n.toInt
  | .float x => Layout.plain.write x
  | .string s => s
  | .boolean b => if b then "true" else "false"
  | .object j => j.text

def debug : Scalar → String
  | .integer n => toString n.toInt
  | .float x => Layout.debug.write x
  | .string s => Text.quoted s
  | .boolean b => if b then "true" else "false"
  | .object j => j.debug

end Scalar

/-- The name of a type in diagnostic output. -/
def ValueType.debug : ValueType → String
  | .integer => "Integer"
  | .float => "Float"
  | .string => "String"
  | .boolean => "Boolean"
  | .object => "Object"

namespace Value

/-- Nulls of every type look alike. -/
def text : Value → String
  | .null _ => "null"
  | .present s => s.text

def debug : Value → String
  | .null t => t.debug ++ "(None)"
  | .present s => s.type.debug ++ "(Some(" ++ s.debug ++ "))"

end Value
end DatasetAlgebra
