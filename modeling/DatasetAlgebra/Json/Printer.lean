import DatasetAlgebra.Json.Document
import DatasetAlgebra.Number.Layout
import DatasetAlgebra.Text.Quoted

/-! Compact JSON text of documents, and the diagnostic form of stored values. -/
namespace DatasetAlgebra
namespace Document

/-- A character inside a JSON string. Only quotes, backslashes and controls are escaped. -/
def escape (c : Char) : String :=
  if c = '"' then "\\\""
  else if c = '\\' then "\\\\"
  else if c = '\n' then "\\n"
  else if c = '\r' then "\\r"
  else if c = '\t' then "\\t"
  else if c.toNat = 8 then "\\b"
  else if c.toNat = 12 then "\\f"
  else if c.toNat < 16 then "\\u000" ++ Text.hex c.toNat
  else if c.toNat < 32 then "\\u00" ++ Text.hex c.toNat
  else c.toString

def quote (s : String) : String := "\"" ++ String.join (s.toList.map escape) ++ "\""

/-- Text of a number. JSON has no text for NaN and the infinities. -/
def numeral (x : Float) : String := if Binary64.isFinite x then Layout.json.write x else "null"

mutual
/-- Compact text: no spaces, fields in their order. -/
def text : Document → String
  | .null | .unreadable => "null"
  | .boolean b => if b then "true" else "false"
  | .integer n => toString n
  | .float x => numeral x
  | .string s => quote s
  | .array items => "[" ++ ",".intercalate (texts items) ++ "]"
  | .object fields => "\x7b" ++ ",".intercalate (fieldTexts fields) ++ "\x7d"

def texts : List Document → List String
  | [] => []
  | d :: rest => d.text :: texts rest

def fieldTexts : List (String × Document) → List String
  | [] => []
  | (key, d) :: rest => (quote key ++ ":" ++ d.text) :: fieldTexts rest
end

mutual
/-- Diagnostic form, which names the kind of every part. -/
def debug : Document → String
  | .null | .unreadable => "Null"
  | .boolean b => "Bool(" ++ (if b then "true" else "false") ++ ")"
  | .integer n => "Number(" ++ toString n ++ ")"
  | .float x => "Number(" ++ numeral x ++ ")"
  | .string s => "String(" ++ Text.quoted s ++ ")"
  | .array items => "Array " ++ Text.bracketed (debugs items)
  | .object fields => "Object \x7b" ++ ", ".intercalate (fieldDebugs fields) ++ "\x7d"

def debugs : List Document → List String
  | [] => []
  | d :: rest => d.debug :: debugs rest

def fieldDebugs : List (String × Document) → List String
  | [] => []
  | (key, d) :: rest => (Text.quoted key ++ ": " ++ d.debug) :: fieldDebugs rest
end

end Document

namespace Json

def text (j : Json) : String := j.document.text

def debug (j : Json) : String := j.document.debug

end Json
end DatasetAlgebra
