import DatasetAlgebra.Filter.Basic
import DatasetAlgebra.Value.Text

/-! The diagnostic form of filters, which messages quote. -/
namespace DatasetAlgebra

def Comparison.debug : Comparison → String
  | .eq => "Eq"
  | .ne => "Ne"
  | .lt => "Lt"
  | .le => "Le"
  | .gt => "Gt"
  | .ge => "Ge"

namespace Filter

/-- A kind with its fields between braces. -/
def braced (kind : String) (fields : List String) : String :=
  kind ++ " \x7b " ++ ", ".intercalate fields ++ " \x7d"

mutual
def debug : Filter → String
  | .all => "All"
  | .compare column test constant =>
    braced "Compare"
      ["column: " ++ Text.quoted column, "op: " ++ test.debug, "value: " ++ constant.debug]
  | .isNull column => braced "IsNull" ["column: " ++ Text.quoted column]
  | .and terms => braced "And" ["terms: " ++ Text.bracketed (debugs terms)]
  | .or terms => braced "Or" ["terms: " ++ Text.bracketed (debugs terms)]
  | .not term => braced "Not" ["term: " ++ term.debug]

def debugs : List Filter → List String
  | [] => []
  | f :: rest => f.debug :: debugs rest
end

end Filter
end DatasetAlgebra
