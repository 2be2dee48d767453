import DatasetAlgebra.Number.Binary64

/-!
JSON documents. A `Document` is a text as written: fields keep their order and may repeat, and a
part that is well formed without denoting a value is kept as `unreadable`. A `Json` is a stored
value: every key once, in ascending order, and every number representable.
-/
namespace DatasetAlgebra

inductive Document where
  | null
  | boolean (b : Bool)
  | integer (n : Int)
  | float (x : Float)
  | string (s : String)
  | array (items : List Document)
  | object (fields : List (String × Document))
  | unreadable
  deriving Inhabited

namespace Document

mutual
/-- Whether every part denotes a value. -/
def isReadable : Document → Bool
  | .unreadable => false
  | .array items => allReadable items
  | .object fields => fieldsReadable fields
  | _ => true

def allReadable : List Document → Bool
  | [] => true
  | d :: rest => d.isReadable && allReadable rest

def fieldsReadable : List (String × Document) → Bool
  | [] => true
  | (_, d) :: rest => d.isReadable && fieldsReadable rest
end

/-- Integers fit into 64 bits, signed or unsigned. -/
def integerFits (n : Int) : Bool := -(Nat.pow 2 63 : Int) ≤ n && n < (Nat.pow 2 64 : Int)

/-- Whether a key comes before all keys of fields in ascending order. -/
def precedes (key : String) : List (String × Document) → Bool
  | [] => true
  | (next, _) :: _ => key < next

mutual
/-- The normal form of stored values: readable, finite, within range, keys strictly ascending. -/
def isCanonical : Document → Bool
  | .unreadable => false
  | .integer n => integerFits n
  | .float x => Binary64.isFinite x
  | .array items => allCanonical items
  | .object fields => fieldsCanonical fields
  | _ => true

def allCanonical : List Document → Bool
  | [] => true
  | d :: rest => d.isCanonical && allCanonical rest

def fieldsCanonical : List (String × Document) → Bool
  | [] => true
  | (key, d) :: rest => precedes key rest && d.isCanonical && fieldsCanonical rest
end

/-- Adds a field at its place in ascending order, unless the key is there already. -/
def insertField (key : String) (d : Document) :
    List (String × Document) → List (String × Document)
  | [] => [(key, d)]
  | (next, e) :: rest =>
    if key = next then (next, e) :: rest
    else if key < next then (key, d) :: (next, e) :: rest
    else (next, e) :: insertField key d rest

mutual
/-- Sorts the fields of every object; of fields with one key the last stays. -/
def sorted : Document → Document
  | .array items => .array (sortedAll items)
  | .object fields => .object (sortedFields fields)
  | d => d

def sortedAll : List Document → List Document
  | [] => []
  | d :: rest => d.sorted :: sortedAll rest

def sortedFields : List (String × Document) → List (String × Document)
  | [] => []
  | (key, d) :: rest => insertField key d.sorted (sortedFields rest)
end

mutual
/-- Equality of documents, numbers compared by value: the two zeros are one number, an integer
and a float never are. -/
def same : Document → Document → Bool
  | .null, .null => true
  | .boolean a, .boolean b => a == b
  | .integer a, .integer b => a == b
  | .float a, .float b => Binary64.rank a == Binary64.rank b
  | .string a, .string b => a == b
  | .array as, .array bs => sameAll as bs
  | .object as, .object bs => sameFields as bs
  | _, _ => false

def sameAll : List Document → List Document → Bool
  | [], [] => true
  | a :: as, b :: bs => a.same b && sameAll as bs
  | _, _ => false

def sameFields : List (String × Document) → List (String × Document) → Bool
  | [], [] => true
  | (k, a) :: as, (l, b) :: bs => k == l && a.same b && sameFields as bs
  | _, _ => false
end

end Document

/-- A stored JSON value. -/
structure Json where
  document : Document
  canonical : document.isCanonical = true

namespace Json

instance : Inhabited Json := ⟨⟨.null, rfl⟩⟩

/-- Equality of stored values. -/
def same (a b : Json) : Bool := a.document.same b.document

end Json

/-- The value that a document denotes, if it denotes one. All parts have to be readable, also the
fields that give way to later ones of their key. -/
def Document.toJson? (d : Document) : Option Json :=
  if h : d.isReadable ∧ d.sorted.isCanonical then some ⟨d.sorted, h.2⟩ else none

end DatasetAlgebra
