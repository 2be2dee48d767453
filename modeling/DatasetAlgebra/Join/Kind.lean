/-! Join kinds, which differ in the rows they keep without a match on the other side. -/
namespace DatasetAlgebra

inductive JoinKind where
  | inner
  | outer
  | left
  deriving DecidableEq, Repr, Inhabited

namespace JoinKind

def name : JoinKind → String
  | .inner => "inner"
  | .outer => "outer"
  | .left => "left"

def debug : JoinKind → String
  | .inner => "Inner"
  | .outer => "Outer"
  | .left => "Left"

def keepsLeft : JoinKind → Bool
  | .inner => false
  | .outer | .left => true

def keepsRight : JoinKind → Bool
  | .inner | .left => false
  | .outer => true

end JoinKind
end DatasetAlgebra
