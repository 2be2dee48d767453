import DatasetAlgebra.Json.Token

/-!
Documents from tokens, by a machine that keeps the containers it is inside. Containers nested
deeper than `Document.maxDepth` are well formed but not readable.
-/
namespace DatasetAlgebra
namespace Document

def maxDepth : Nat := 127

/-- A container that is still open, its parts last first. `field` waits for the value of `key`;
an object with an unreadable key is not `sound`. -/
inductive Frame where
  | array (items : List Document)
  | object (fields : List (String × Document)) (sound : Bool)
  | field (fields : List (String × Document)) (sound : Bool) (key : String)

/-- What the next token must be. -/
inductive State where
  /-- A value. -/
  | value (stack : List Frame)
  /-- A value, or the end of the array just opened. -/
  | item (stack : List Frame)
  /-- A comma, or the end of the innermost container. -/
  | next (stack : List Frame)
  /-- A key. -/
  | key (stack : List Frame)
  /-- A key, or the end of the object just opened. -/
  | firstKey (stack : List Frame)
  /-- The colon behind a key. -/
  | colon (stack : List Frame)
  /-- Nothing: the document is complete. -/
  | complete (d : Document)

/-- A finished value goes into the innermost open container. -/
def place (d : Document) : List Frame → Option State
  | [] => some (.complete d)
  | .array items :: stack => some (.next (.array (d :: items) :: stack))
  | .field fields sound key :: stack =>
    some (.next (.object ((key, d) :: fields) sound :: stack))
  | .object _ _ :: _ => none

/-- Closes a container whose parents are `stack`. -/
def close (d : Document) (stack : List Frame) : Option State :=
  place (if stack.length < maxDepth then d else .unreadable) stack

def closeArray : List Frame → Option State
  | .array items :: stack => close (.array items.reverse) stack
  | _ => none

def closeObject : List Frame → Option State
  | .object fields sound :: stack =>
    close (if sound then .object fields.reverse else .unreadable) stack
  | _ => none

def beginValue (stack : List Frame) : Token → Option State
  | .openArray => some (.item (.array [] :: stack))
  | .openObject => some (.firstKey (.object [] true :: stack))
  | .scalar d => place d stack
  | .string (some s) => place (.string s) stack
  | .string none => place .unreadable stack
  | _ => none

def beginField : List Frame → Token → Option State
  | .object fields sound :: stack, .string (some key) =>
    some (.colon (.field fields sound key :: stack))
  | .object fields _ :: stack, .string none => some (.colon (.field fields false "" :: stack))
  | _, _ => none

def step : State → Token → Option State
  | .value stack, token => beginValue stack token
  | .item stack, .closeArray => closeArray stack
  | .item stack, token => beginValue stack token
  | .next stack, .closeArray => closeArray stack
  | .next stack, .closeObject => closeObject stack
  | .next (.array items :: stack), .comma => some (.value (.array items :: stack))
  | .next (.object fields sound :: stack), .comma => some (.key (.object fields sound :: stack))
  | .key stack, token => beginField stack token
  | .firstKey stack, .closeObject => closeObject stack
  | .firstKey stack, token => beginField stack token
  | .colon stack, .colon => some (.value stack)
  | _, _ => none

def ofTokens? (tokens : List Token) : Option Document :=
  match tokens.foldlM step (.value []) with
  | some (.complete d) => some d
  | _ => none

/-- Reads a text that holds one document and nothing else. -/
def parse? (text : String) : Option Document := (Token.scan text).bind ofTokens?

end Document

/-- Reads the value that a text denotes. -/
def Json.parse? (text : String) : Option Json := (Document.parse? text).bind Document.toJson?

end DatasetAlgebra
