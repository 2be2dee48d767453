import DatasetAlgebra.Digest.Blake3
import DatasetAlgebra.Schema.Basic

/-!
Fingerprints of schemas. A fingerprint is the digest of the columns in the order of their names,
so schemas that declare the same columns in different orders share it, and count as equal.
-/
namespace DatasetAlgebra

/-- The bytes of one column. The length in front of the name keeps the parts apart. -/
def Column.fingerprintBytes (c : Column) : List UInt8 :=
  let name := c.name.toUTF8.data.toList
  littleEndian 8 name.length ++ name ++ [UInt8.ofNat c.role.rank, UInt8.ofNat c.type.rank]

namespace Schema

def byName (s : Schema) : List Column := s.columns.mergeSort fun a b => a.name ≤ b.name

def fingerprintBytes (s : Schema) : List UInt8 :=
  littleEndian 8 s.width ++ s.byName.flatMap Column.fingerprintBytes

def fingerprint (s : Schema) : Digest := Digest.blake3 s.fingerprintBytes

/-- Equality of schemas, which ignores the order of their columns. -/
def same (s t : Schema) : Bool := s.fingerprint = t.fingerprint

/-- Equal schemas with each name at the same position. -/
def sameLayout (s t : Schema) : Bool :=
  (s.names.zip t.names).all (fun (a, b) => a = b) && s.same t

end Schema
end DatasetAlgebra
