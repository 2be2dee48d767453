import DatasetAlgebra.Error
import DatasetAlgebra.Schema.Fingerprint

/-! Building schemas: from columns, by projection, and by merging two of them. -/
namespace DatasetAlgebra
namespace Schema

/-- The first name that occurred before, in a list read after the names `seen`. -/
def firstRepeat (seen : List String) : List String → Option String
  | [] => none
  | n :: rest => if n ∈ seen then some n else firstRepeat (n :: seen) rest

theorem nodup_of_firstRepeat {seen names : List String} (h : firstRepeat seen names = none) :
    names.Nodup ∧ ∀ n ∈ names, n ∉ seen := by
  induction names generalizing seen with
  | nil => simp
  | cons n rest ih =>
    by_cases hn : n ∈ seen
    · simp [firstRepeat, hn] at h
    · simp only [firstRepeat, hn, if_false] at h
      have ⟨hd, hs⟩ := ih h
      refine ⟨List.nodup_cons.2 ⟨fun hm => hs n hm (by simp), hd⟩, ?_⟩
      intro m hm
      rcases List.mem_cons.1 hm with rfl | hm
      · exact hn
      · exact fun hc => hs m hm (by simp [hc])

/-- The schema of given columns, whose names must differ. -/
def ofColumns (columns : List Column) : Except Error Schema :=
  match h : firstRepeat [] (columns.map Column.name) with
  | some name => .error (.duplicate name)
  | none => .ok ⟨columns, (nodup_of_firstRepeat h).1⟩

/-- Keeps the named columns, in the order of the schema. -/
def project (s : Schema) (names : List String) : Except Error Schema :=
  match names.find? fun n => !s.contains n with
  | some name => .error (.unknown name)
  | none => ofColumns (s.columns.filter fun c => names.contains c.name)

/-- The first column of `t` that `s` has with another role or type, beside that of `s`. -/
def conflict? (s t : Schema) : Option (Column × Column) :=
  t.columns.findSome? fun c =>
    (s.column? c.name).bind fun d => if d.agrees c then none else some (d, c)

/-- Columns with the identifiers moved to the front. -/
def identifiersFirst (columns : List Column) : List Column :=
  columns.filter Column.isIdentifier ++ columns.filter fun c => !c.isIdentifier

/-- The columns of both schemas. A column they share must agree in role and type and is taken
once; identifiers lead, so that keys read naturally in rows. -/
def merge (s t : Schema) : Except Error Schema :=
  match s.conflict? t with
  | some (left, right) => .error (.conflict right.name left.role left.type right.role right.type)
  | none =>
    ofColumns (identifiersFirst (s.columns ++ t.columns.filter fun c => !s.contains c.name))

end Schema
end DatasetAlgebra
