/-!
Policies: what an operation may do itself when a source does not honour a request, and how much
it may hold in memory for it.
-/
namespace DatasetAlgebra

structure Policy where
  /-- Sort the rows of a source in memory when it refuses the order. -/
  sorts : Bool
  /-- The most rows one such sort holds. -/
  capacity : Nat
  /-- Filter the rows of a source that refuses the filter. -/
  filters : Bool
  deriving DecidableEq, Repr

namespace Policy

def standard : Policy := ⟨false, 1000000, true⟩

instance : Inhabited Policy := ⟨standard⟩

def readBool? (text : String) : Option Bool :=
  if text = "true" then some true else if text = "false" then some false else none

/-- Decimal digits, after a plus sign that may be missing, of a number below `2 ^ 64`. -/
def readCount? (text : String) : Option Nat :=
  let digits := match text.toList with
    | '+' :: rest => rest
    | rest => rest
  if digits.isEmpty || digits.any (fun c => !c.isDigit) then none
  else
    let n := digits.foldl (fun n c => 10 * n + (c.toNat - '0'.toNat)) 0
    if n < Nat.pow 2 64 then some n else none

/-- The policy that environment variables describe. A variable that is missing or unreadable
leaves the standard. -/
def ofEnvironment (setting? : String → Option String) : Policy where
  sorts := ((setting? "VTLSET_SORT_FALLBACK").bind readBool?).getD standard.sorts
  capacity := ((setting? "VTLSET_SORT_BUFFER_ROWS").bind readCount?).getD standard.capacity
  filters := ((setting? "VTLSET_FILTER_FALLBACK").bind readBool?).getD standard.filters

end Policy
end DatasetAlgebra
