import DatasetAlgebra.Error

/-!
Column maps: where each identifier of a join is found in each joined dataset. Every dataset has to
have every identifier under its own name, with its role and type.
-/
namespace DatasetAlgebra

structure ColumnMap where
  /-- Columns by the name of the identifier and of the dataset, each pair once. -/
  entries : List ((String × String) × Column)
  deriving Repr

namespace ColumnMap

def empty : ColumnMap := ⟨[]⟩

instance : Inhabited ColumnMap := ⟨empty⟩

def size (m : ColumnMap) : Nat := m.entries.length

def isEmpty (m : ColumnMap) : Bool := m.entries.isEmpty

/-- Puts a column under a pair of names, in place of the one that was there. -/
def insert (m : ColumnMap) (identifier dataset : String) (c : Column) : ColumnMap :=
  ⟨((identifier, dataset), c) :: m.entries.filter fun e => e.1 ≠ (identifier, dataset)⟩

def get? (m : ColumnMap) (identifier dataset : String) : Option Column :=
  (m.entries.find? fun e => e.1 = (identifier, dataset)).map (·.2)

def resolve (m : ColumnMap) (identifier dataset : String) : Except Error Column :=
  match m.get? identifier dataset with
  | some c => .ok c
  | none => .error (.unmapped identifier dataset)

@[simp] theorem get?_insert_self (m : ColumnMap) (identifier dataset : String) (c : Column) :
    (m.insert identifier dataset c).get? identifier dataset = some c := by
  simp [insert, get?]

theorem get?_insert_of_ne {m : ColumnMap} {i d j e : String} {c : Column}
    (h : (i, d) ≠ (j, e)) : (m.insert i d c).get? j e = m.get? j e := by
  simp only [get?, insert, List.find?_cons, h, decide_false, List.find?_filter]
  congr 2
  funext x
  by_cases hx : x.1 = (j, e)
  · simp [hx, Ne.symm h]
  · simp [hx]

/-- Looks the identifiers up in one dataset. -/
def addSource (m : ColumnMap) (dataset : String) (s : Schema) :
    List Column → Except Error ColumnMap
  | [] => .ok m
  | c :: rest =>
    match s.column? c.name with
    | none => .error (.unmapped c.name dataset)
    | some d =>
      if d.agrees c then (m.insert c.name dataset d).addSource dataset s rest
      else .error (.conflict c.name c.role c.type d.role d.type)

def addSources (identifiers : List Column) (m : ColumnMap) :
    List (String × Schema) → Except Error ColumnMap
  | [] => .ok m
  | (dataset, s) :: rest => (m.addSource dataset s identifiers).bind (addSources identifiers · rest)

/-- The map of identifiers into named schemas. -/
def build (identifiers : List Column) (sources : List (String × Schema)) :
    Except Error ColumnMap :=
  addSources identifiers empty sources

end ColumnMap
end DatasetAlgebra
