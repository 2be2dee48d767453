import DatasetAlgebra.Proofs.Row.Hashing
import DatasetAlgebra.Proofs.Value.Equality

/-!
Binding rows to equal schemas. Whether the values stay as they stand or are moved, the row bound to
an equal schema is the row laid out by name; it has the same value under every name, and a row is
determined by its schema and these values. So nothing is lost on the way, and the way back and
every detour lead to the same row.
-/
namespace DatasetAlgebra

namespace Row

variable {p q : Row} {s t : Schema} {values : List Value}

theorem values_of_bind (h : bind s values = .ok p) : p.values = values := by
  unfold bind at h
  split at h
  · split at h
    · cases h
    · cases h
      rfl
  · cases h

theorem byName_congr (h : ∀ name, p.value? name = q.value? name) (t : Schema) :
    p.byName t = q.byName t := by
  rw [byName_eq, byName_eq]
  exact byColumn_congr fun c _ => by rw [h]

theorem value?_byName (h : ∀ c, c ∈ p.schema.columns ↔ c ∈ t.columns) (name : String) :
    (p.byName t).value? name = p.value? name := by
  let value (c : Column) : Value := (p.value? c.name).getD c.null
  calc
    (p.byName t).value? name = (t.column? name).map value := value?_byColumn t value name
    _ = (p.schema.column? name).map value := by rw [Schema.column?_congr h]
    _ = (p.byName p.schema).value? name := (value?_byColumn p.schema value name).symm
    _ = p.value? name := by rw [byName_self]

/-- Whether the values are kept or moved, a row bound to an equal schema is the row by name. -/
theorem rebind_eq_byName (hcollides : ¬p.schema.Collides t) (hsame : p.schema.same t) :
    p.rebind t = .ok (p.byName t) := by
  rw [rebind]
  by_cases hlayout : p.schema.sameLayout t ∧ p.schema.width = t.width
  · obtain rfl : p.schema = t :=
      Schema.ext_columns ((Schema.sameLayout_iff_of_not_collides hcollides).mp hlayout.1)
    rw [dif_pos hlayout, byName_self]
  · have hcolumns := (Schema.same_iff_of_not_collides hcollides).mp hsame
    have hnone : (t.columns.find? fun c => !p.schema.contains c.name) = none := by
      apply List.find?_eq_none.mpr
      intro c hc
      simp [Schema.contains_iff.mpr (List.mem_map_of_mem ((hcolumns c).mpr hc))]
    rw [dif_neg hlayout, if_pos hsame, hnone]

theorem rebind_eq_error (h : ¬p.schema.same t) :
    p.rebind t = .error (.misfit (.foreign p t)) := by
  rw [rebind, dif_neg fun hl => h (Schema.same_of_sameLayout hl.1), if_neg h]

/-- One row laid out as two schemas of the same columns: the same values under all names, so equal
rows that are hashed alike. -/
structure Relaid (p q : Row) (t : Schema) : Prop where
  schema : q.schema = t
  arity : q.values.length = t.width
  conforms : q.conforms
  value : ∀ name, q.value? name = p.value? name
  same : q.same p
  hashContent : q.hashContent = p.hashContent

theorem relaid_byName (h : ∀ c, c ∈ p.schema.columns ↔ c ∈ t.columns) (hp : p.conforms) :
    p.Relaid (p.byName t) t := by
  have hsame : t.same p.schema := Schema.same_of_columns fun c => (h c).symm
  have hvalue := value?_byName h
  refine ⟨rfl, (p.byName t).arity, ?conforms, hvalue, ?same, ?hashContent⟩
  case conforms =>
    refine conforms_iff.mpr fun c hc v hv => ?_
    rw [hvalue] at hv
    exact conforms_iff.mp hp c ((h c).mpr hc) v hv
  case same =>
    refine same_iff.mpr ⟨hsame, fun name v hv => ⟨v, ?_, BEq.rfl⟩⟩
    rw [← hvalue, hv]
  case hashContent =>
    exact hashContent_eq_iff_values.mpr ⟨of_decide_eq_true hsame, fun name => by rw [hvalue]⟩

theorem byName_byName (h : ∀ c, c ∈ p.schema.columns ↔ c ∈ t.columns) (u : Schema) :
    (p.byName t).byName u = p.byName u :=
  byName_congr (value?_byName h) u

/-- A row is bound to another schema exactly if the two are equal. It keeps its values by name;
binding it back, or over a third equal schema, makes no difference. -/
theorem rebind_laws (hp : bind s values = .ok p) (hst : ¬s.Collides t) :
    ((∃ q, p.rebind t = .ok q) ↔ s.same t) ∧
    (¬s.same t → p.rebind t = .error (.misfit (.foreign p t))) ∧
    ∀ q, p.rebind t = .ok q →
      p.Relaid q t ∧ (s.sameLayout t → q.values = values) ∧
      (∃ back, q.rebind s = .ok back ∧ back.values = values) ∧
      ∀ u, s.same u → ¬s.Collides u → ((p.rebind u).bind fun m => m.rebind t) = .ok q := by
  obtain ⟨rfl, hconforms⟩ := bind_ok hp
  obtain rfl := values_of_bind hp
  have hok : (∃ q, p.rebind t = .ok q) ↔ p.schema.same t := by
    refine ⟨?_, fun hsame => ⟨_, rebind_eq_byName hst hsame⟩⟩
    rintro ⟨q, hq⟩
    by_contra hsame
    rw [rebind_eq_error hsame] at hq
    cases hq
  refine ⟨hok, rebind_eq_error, fun q hq => ?_⟩
  have hsame := hok.mp ⟨q, hq⟩
  have hcolumns := (Schema.same_iff_of_not_collides hst).mp hsame
  obtain rfl : p.byName t = q := Except.ok.inj ((rebind_eq_byName hst hsame).symm.trans hq)
  refine ⟨relaid_byName hcolumns hconforms, ?layout, ⟨p, ?back, rfl⟩, ?detour⟩
  case layout =>
    intro hlayout
    obtain rfl : p.schema = t :=
      Schema.ext_columns ((Schema.sameLayout_iff_of_not_collides hst).mp hlayout)
    rw [byName_self]
  case back =>
    have hback : ¬(p.byName t).schema.Collides p.schema := fun h => hst h.symm
    rw [rebind_eq_byName hback (Schema.same_of_columns fun c => (hcolumns c).symm),
      byName_byName hcolumns, byName_self]
  case detour =>
    -- that the third schema and the target do not collide follows: they have the same columns
    intro u hu hsu
    have hcolumns' := (Schema.same_iff_of_not_collides hsu).mp hu
    have hut (c : Column) : c ∈ u.columns ↔ c ∈ t.columns := (hcolumns' c).symm.trans (hcolumns c)
    rw [rebind_eq_byName hsu hu]
    show (p.byName u).rebind t = _
    rw [rebind_eq_byName (Schema.not_collides_of_columns hut) (Schema.same_of_columns hut),
      byName_byName hcolumns']

namespace Sale

open Schema.Sales

def backwards : Row := ⟨soldBackwards, [.ofInt64 7, .ofString "mon"], rfl⟩

def forwards : Row := ⟨sold, [.ofString "mon", .ofInt64 7], rfl⟩

theorem not_collides : ¬soldBackwards.Collides sold :=
  Schema.not_collides_of_columns fun c => (mem_sold_iff c).symm

/-- The values are moved to where the other schema has their names, and back. -/
theorem moved_and_back :
    bind soldBackwards [.ofInt64 7, .ofString "mon"] = .ok backwards ∧
      ¬soldBackwards.Collides sold ∧ backwards.rebind sold = .ok forwards ∧
      backwards.Relaid forwards sold ∧
      ∃ back, forwards.rebind soldBackwards = .ok back ∧
        back.values = [.ofInt64 7, .ofString "mon"] := by
  have hbind : bind soldBackwards [.ofInt64 7, .ofString "mon"] = .ok backwards := rfl
  have hsame : soldBackwards.same sold := Schema.same_of_columns fun c => (mem_sold_iff c).symm
  have hforwards : backwards.rebind sold = .ok forwards := rebind_eq_byName not_collides hsame
  obtain ⟨-, -, h⟩ := rebind_laws hbind not_collides
  obtain ⟨hrelaid, -, hback, -⟩ := h forwards hforwards
  exact ⟨hbind, not_collides, hforwards, hrelaid, hback⟩

end Sale
end Row
end DatasetAlgebra
