import DatasetAlgebra.Value.Order

/-!
Filters: predicates on rows, as data that can be handed to the producer of the rows.
-/
namespace DatasetAlgebra

inductive Comparison where
  | eq
  | ne
  | lt
  | le
  | gt
  | ge
  deriving DecidableEq, Repr, Inhabited

namespace Comparison

def holds : Comparison → Ordering → Bool
  | .eq, o => o == .eq
  | .ne, o => o != .eq
  | .lt, o => o == .lt
  | .le, o => o != .gt
  | .gt, o => o == .gt
  | .ge, o => o != .lt

end Comparison

inductive Filter where
  /-- Keeps every row. -/
  | all
  | compare (column : String) (test : Comparison) (constant : Value)
  | isNull (column : String)
  | and (terms : List Filter)
  | or (terms : List Filter)
  | not (term : Filter)
  deriving Inhabited

namespace Filter

def isAll : Filter → Bool
  | .all => true
  | _ => false

mutual
/-- Equality of filters as written, constants compared as values. -/
def same : Filter → Filter → Bool
  | .all, .all => true
  | .compare a s x, .compare b t y => a == b && s == t && x == y
  | .isNull a, .isNull b => a == b
  | .and fs, .and gs => sameTerms fs gs
  | .or fs, .or gs => sameTerms fs gs
  | .not f, .not g => f.same g
  | _, _ => false

def sameTerms : List Filter → List Filter → Bool
  | [], [] => true
  | f :: fs, g :: gs => f.same g && sameTerms fs gs
  | _, _ => false
end

instance : BEq Filter := ⟨same⟩

/-- The filter that keeps what both keep. `all` adds nothing, and a conjunction on the left is
extended. -/
def both : Filter → Filter → Filter
  | .all, g => g
  | f, .all => f
  | .and terms, g => .and (terms ++ [g])
  | f, g => .and [f, g]

/-- The filter that keeps what either keeps. -/
def either (f g : Filter) : Filter := .or [f, g]

mutual
/-- The columns a filter reads, in the order of its text, with repetitions. -/
def mentions : Filter → List String
  | .all => []
  | .compare column _ _ => [column]
  | .isNull column => [column]
  | .and terms => mentionsAll terms
  | .or terms => mentionsAll terms
  | .not term => term.mentions

def mentionsAll : List Filter → List String
  | [] => []
  | f :: rest => f.mentions ++ mentionsAll rest
end

/-- The columns a filter reads, each once, in ascending order. -/
def columns (f : Filter) : List String :=
  (f.mentions.mergeSort fun a b => a ≤ b).eraseDups

/-- Whether a filter reads no other columns. -/
def refersOnlyTo (f : Filter) (names : List String) : Bool :=
  f.columns.all fun c => names.contains c

end Filter
end DatasetAlgebra
