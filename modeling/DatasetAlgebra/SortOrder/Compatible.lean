import DatasetAlgebra.SortOrder.Basic

/-! Orders that an operation keyed on some columns can produce. -/
namespace DatasetAlgebra
namespace SortOrder

/-- The keys of a request, bound to the candidates. Every key must name a candidate, each once. -/
def bindKeys? (candidates : List Column) (bound : List SortKey) :
    List SortKey → Option (List SortKey)
  | [] => some bound
  | k :: rest =>
    match candidates.find? fun c => c.name = k.column.name with
    | none => none
    | some c =>
      if bound.any fun b => b.column.name = c.name then none
      else bindKeys? candidates (bound ++ [⟨c, k.direction⟩]) rest

/-- Appends, ascending, the candidates that no key names yet. -/
def complete (keys : List SortKey) : List Column → List SortKey
  | [] => keys
  | c :: rest =>
    if keys.any fun k => k.column.name = c.name then complete keys rest
    else complete (keys ++ [⟨c, .ascending⟩]) rest

/-- The request extended to all candidates, the ones it does not mention ascending at the end. -/
def compatible? (candidates : List Column) (requested : SortOrder) : Option SortOrder :=
  (bindKeys? candidates [] requested.keys).map fun keys => ⟨complete keys candidates⟩

end SortOrder
end DatasetAlgebra
