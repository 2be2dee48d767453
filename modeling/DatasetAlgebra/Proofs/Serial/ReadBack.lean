import DatasetAlgebra.Filter.Eval
import DatasetAlgebra.Proofs.Value.Arithmetic
import DatasetAlgebra.Proofs.Value.Equality
import DatasetAlgebra.Serial.Filter

/-!
Values and filters read back from their documents. The type of a value stands beside its content,
and content that is null means the null of that type. Floats that are not finite have no other
content, and the stored JSON value null has that one: these two come back as nulls, all else comes
back as it was.
-/
namespace DatasetAlgebra

namespace Document

theorem insertField_of_precedes {key : String} {d : Document} {fields : List (String × Document)}
    (h : precedes key fields) : insertField key d fields = (key, d) :: fields := by
  cases fields with
  | nil => rfl
  | cons next rest =>
    have hlt : key < next.1 := by simpa [precedes] using h
    have hne : key ≠ next.1 := fun heq => String.lt_irrefl _ (heq ▸ hlt)
    rw [insertField, if_neg hne, if_pos hlt]

mutual
theorem readable_of_canonical : (d : Document) → d.isCanonical → d.isReadable
  | .null, _ | .boolean _, _ | .integer _, _ | .float _, _ | .string _, _ => rfl
  | .array items, h => allReadable_of_canonical items h
  | .object fields, h => fieldsReadable_of_canonical fields h
  | .unreadable, h => by simp [isCanonical] at h

theorem allReadable_of_canonical : (ds : List Document) → allCanonical ds → allReadable ds
  | [], _ => rfl
  | d :: ds, h => by
    simp only [allCanonical, Bool.and_eq_true] at h
    simp only [allReadable, readable_of_canonical d h.1, allReadable_of_canonical ds h.2,
      Bool.and_self]

theorem fieldsReadable_of_canonical : (fs : List (String × Document)) → fieldsCanonical fs →
    fieldsReadable fs
  | [], _ => rfl
  | (_, d) :: fs, h => by
    simp only [fieldsCanonical, Bool.and_eq_true] at h
    simp only [fieldsReadable, readable_of_canonical d h.1.2, fieldsReadable_of_canonical fs h.2,
      Bool.and_self]
end

mutual
theorem sorted_of_canonical : (d : Document) → d.isCanonical → d.sorted = d
  | .null, _ | .boolean _, _ | .integer _, _ | .float _, _ | .string _, _ => rfl
  | .array items, h => congrArg array (sortedAll_of_canonical items h)
  | .object fields, h => congrArg object (sortedFields_of_canonical fields h)
  | .unreadable, _ => rfl

theorem sortedAll_of_canonical : (ds : List Document) → allCanonical ds → sortedAll ds = ds
  | [], _ => rfl
  | d :: ds, h => by
    simp only [allCanonical, Bool.and_eq_true] at h
    rw [sortedAll, sorted_of_canonical d h.1, sortedAll_of_canonical ds h.2]

theorem sortedFields_of_canonical : (fs : List (String × Document)) → fieldsCanonical fs →
    sortedFields fs = fs
  | [], _ => rfl
  | (key, d) :: fs, h => by
    simp only [fieldsCanonical, Bool.and_eq_true] at h
    rw [sortedFields, sorted_of_canonical d h.1.2, sortedFields_of_canonical fs h.2,
      insertField_of_precedes h.1.1]
end

theorem toJson?_document (j : Json) : j.document.toJson? = some j := by
  have hsorted := j.document.sorted_of_canonical j.canonical
  have hcanonical : j.document.sorted.isCanonical := by
    rw [hsorted]
    exact j.canonical
  rw [toJson?, dif_pos ⟨j.document.readable_of_canonical j.canonical, hcanonical⟩]
  simp only [hsorted]

end Document

/-- Whether a scalar has content that stands for nothing else. -/
def Scalar.isStorable : Scalar → Bool
  | .float x => Binary64.isFinite x
  | .object ⟨.null, _⟩ => false
  | _ => true

namespace Scalar

theorem ofDocument?_toDocument {s : Scalar} (h : s.isStorable) :
    Scalar.ofDocument? s.type s.toDocument = some s := by
  cases s with
  | integer n => simp [toDocument, type, Scalar.ofDocument?, narrow?_of_fits (fits64_toInt n)]
  | float x =>
    have hfinite : Binary64.isFinite x := h
    simp [toDocument, type, Scalar.ofDocument?, hfinite]
  | string s => rfl
  | boolean b => rfl
  | object j => simp [toDocument, type, Scalar.ofDocument?, Document.toJson?_document]

theorem toDocument_eq_null_iff {s : Scalar} : s.toDocument = .null ↔ s.isStorable = false := by
  cases s with
  | float x => cases h : Binary64.isFinite x <;> simp [toDocument, isStorable, h]
  | object j =>
    obtain ⟨d, hd⟩ := j
    cases d <;> simp [toDocument, isStorable]
  | _ => simp [toDocument, isStorable]

theorem isReadable_toDocument (s : Scalar) : s.toDocument.isReadable := by
  cases s with
  | float x => cases h : Binary64.isFinite x <;> simp [toDocument, h, Document.isReadable]
  | object j => exact j.document.readable_of_canonical j.canonical
  | _ => rfl

end Scalar

namespace Value

def isStorable : Value → Bool
  | .null _ => true
  | .present s => s.isStorable

/-- The value as it comes back: the null of its type if it cannot be stored. -/
def stored (v : Value) : Value := if v.isStorable then v else .null v.type

theorem ofContent?_toDocument (s : Scalar) :
    ofContent? s.type s.toDocument = some (present s).stored := by
  cases h : s.isStorable with
  | false => rw [Scalar.toDocument_eq_null_iff.mpr h, stored, isStorable, h]; rfl
  | true =>
    have hcontent : s.toDocument ≠ .null := fun hnull => by
      simp [Scalar.toDocument_eq_null_iff.mp hnull] at h
    rw [stored, isStorable, if_pos h]
    unfold ofContent?
    split
    · contradiction
    · rw [Scalar.ofDocument?_toDocument h, Option.map_some]

theorem ofDocument?_type (place : Place) (t : ValueType) :
    ValueType.ofDocument? place t.toDocument = some t := by
  cases t <;> rfl

/-- A value is read back from its document, wherever it stands, up to what cannot be stored. -/
theorem ofDocument?_toDocument (place : Place) (v : Value) :
    Value.ofDocument? place v.toDocument = some v.stored := by
  cases v with
  | null t =>
    change (ValueType.ofDocument? place t.toDocument).bind (ofContent? · .null) = _
    rw [ofDocument?_type]
    rfl
  | present s =>
    change (ValueType.ofDocument? place s.type.toDocument).bind (ofContent? · s.toDocument) = _
    rw [ofDocument?_type, Option.bind_some, ofContent?_toDocument]

theorem stored_eq_iff {v : Value} : v.stored = v ↔ v.isStorable := by
  cases v with
  | null t => simp [stored, isStorable]
  | present s => cases h : s.isStorable <;> simp [stored, isStorable, h]

theorem stored_same_iff {v : Value} : v.stored == v ↔ v.isStorable := by
  cases v with
  | null t => simp [stored, isStorable]
  | present s =>
    cases h : s.isStorable
    · simp [stored, isStorable, h, BEq.beq, same]
    · simp [stored, isStorable, h]

theorem isReadable_toDocument (v : Value) : v.toDocument.isReadable := by
  cases v with
  | null t => rfl
  | present s =>
    simp [toDocument, Document.isReadable, Document.fieldsReadable, s.isReadable_toDocument,
      ValueType.toDocument]

end Value

namespace Filter

mutual
/-- Whether all constants can be stored. -/
def isStorable : Filter → Bool
  | .compare _ _ constant => constant.isStorable
  | .and terms | .or terms => allStorable terms
  | .not term => term.isStorable
  | .all | .isNull _ => true

def allStorable : List Filter → Bool
  | [] => true
  | f :: rest => f.isStorable && allStorable rest
end

mutual
/-- The filter as it comes back. -/
def stored : Filter → Filter
  | .compare column test constant => .compare column test constant.stored
  | .and terms => .and (storedAll terms)
  | .or terms => .or (storedAll terms)
  | .not term => .not term.stored
  | f => f

def storedAll : List Filter → List Filter
  | [] => []
  | f :: rest => f.stored :: storedAll rest
end

mutual
theorem isReadable_toDocument : (f : Filter) → f.toDocument.isReadable
  | .all | .isNull _ => rfl
  | .compare _ test constant => by
    simp [toDocument, Comparison.toDocument, Document.isReadable, Document.fieldsReadable,
      constant.isReadable_toDocument]
  | .and terms | .or terms => by
    simp [toDocument, Document.isReadable, Document.fieldsReadable, allReadable_toDocuments terms]
  | .not term => by
    simp [toDocument, Document.isReadable, Document.fieldsReadable, isReadable_toDocument term]

theorem allReadable_toDocuments : (fs : List Filter) → Document.allReadable (toDocuments fs)
  | [] => rfl
  | f :: fs => by
    simp [toDocuments, Document.allReadable, isReadable_toDocument f, allReadable_toDocuments fs]
end

theorem comparison_ofDocument? (place : Place) (test : Comparison) :
    Comparison.ofDocument? place test.toDocument = some test := by
  cases test <;> rfl

theorem readTerms?_fields (kind items : Document) :
    readTerms? [("kind", kind), ("terms", items)] = readArray? items := by
  simp [readTerms?]

theorem readTerm?_fields (kind term : Document) :
    readTerm? [("kind", kind), ("term", term)] = read? .inFilter term := by
  simp [readTerm?]

mutual
/-- A filter is read back from its document up to the constants that cannot be stored. -/
theorem read?_toDocument (place : Place) : (f : Filter) → read? place f.toDocument = some f.stored
  | .all => rfl
  | .isNull column => rfl
  | .compare column test constant => by
    have hkind : kindOf? place [("kind", .string "compare"), ("column", .string column),
        ("op", test.toDocument), ("value", constant.toDocument)] = some .compare := rfl
    rw [toDocument, read?, hkind]
    change compare? (some (.string column)) (some test.toDocument) (some constant.toDocument) = _
    simp [compare?, Document.string?, comparison_ofDocument?, Value.ofDocument?_toDocument, stored]
  | .and terms => by
    have hkind : kindOf? place [("kind", .string "and"), ("terms", .array (toDocuments terms))] =
        some .and := rfl
    rw [toDocument, read?, hkind]
    simp [readTerms?_fields, readArray?, readAll?_toDocuments terms, stored]
  | .or terms => by
    have hkind : kindOf? place [("kind", .string "or"), ("terms", .array (toDocuments terms))] =
        some .or := rfl
    rw [toDocument, read?, hkind]
    simp [readTerms?_fields, readArray?, readAll?_toDocuments terms, stored]
  | .not term => by
    have hkind : kindOf? place [("kind", .string "not"), ("term", term.toDocument)] =
        some .not := rfl
    rw [toDocument, read?, hkind]
    simp [readTerm?_fields, read?_toDocument .inFilter term, stored]

theorem readAll?_toDocuments : (fs : List Filter) → readAll? (toDocuments fs) = some (storedAll fs)
  | [] => rfl
  | f :: fs => by
    rw [toDocuments, readAll?, read?_toDocument .inFilter f, readAll?_toDocuments fs, storedAll]
end

theorem ofDocument?_toDocument (f : Filter) : Filter.ofDocument? f.toDocument = some f.stored := by
  rw [Filter.ofDocument?, if_pos f.isReadable_toDocument, read?_toDocument]

mutual
theorem stored_eq_iff : (f : Filter) → (f.stored = f ↔ f.isStorable)
  | .all | .isNull _ => by simp [stored, isStorable]
  | .compare _ _ constant => by simpa [stored, isStorable] using constant.stored_eq_iff
  | .and terms | .or terms => by simpa [stored, isStorable] using storedAll_eq_iff terms
  | .not term => by simpa [stored, isStorable] using stored_eq_iff term

theorem storedAll_eq_iff : (fs : List Filter) → (storedAll fs = fs ↔ allStorable fs)
  | [] => by simp [storedAll, allStorable]
  | f :: fs => by simp [storedAll, allStorable, stored_eq_iff f, storedAll_eq_iff fs]
end

mutual
theorem stored_same_iff : (f : Filter) → (f.stored.same f ↔ f.isStorable)
  | .all | .isNull _ => by simp [stored, same, isStorable]
  | .compare _ _ constant => by simp [stored, same, isStorable, constant.stored_same_iff]
  | .and terms | .or terms => by simpa [stored, same, isStorable] using storedAll_same_iff terms
  | .not term => by simpa [stored, same, isStorable] using stored_same_iff term

theorem storedAll_same_iff : (fs : List Filter) → (sameTerms (storedAll fs) fs ↔ allStorable fs)
  | [] => by simp [storedAll, sameTerms, allStorable]
  | f :: fs => by
    simp [storedAll, sameTerms, allStorable, stored_same_iff f, storedAll_same_iff fs]
end

end Filter

/-- Filters and values can always be read back, and come back as they were exactly if no constant is
a float that is not finite or the stored JSON value null. -/
theorem read_back (f : Filter) (v : Value) (place : Place) :
    (Filter.ofDocument? f.toDocument = some f.stored ∧ (f.stored = f ↔ f.isStorable) ∧
      (f.stored == f ↔ f.isStorable) ∧ (f.isStorable → ∀ r, f.stored.eval r = f.eval r)) ∧
    Value.ofDocument? place v.toDocument = some v.stored ∧ (v.stored = v ↔ v.isStorable) ∧
      (v.stored == v ↔ v.isStorable) := by
  refine ⟨⟨f.ofDocument?_toDocument, f.stored_eq_iff, f.stored_same_iff, fun h r => ?_⟩,
    v.ofDocument?_toDocument place, v.stored_eq_iff, v.stored_same_iff⟩
  rw [f.stored_eq_iff.mpr h]

namespace Unstorable

def declared : Schema :=
  ⟨[⟨"v", .measure, .float⟩, ⟨"o", .attribute, .object⟩], by decide⟩

/-- The JSON value null as it is stored, which is not the null of its type. -/
def jsonNull : Value := .ofJson default

def row : Row := ⟨declared, [.ofFloat 1.5, jsonNull], rfl⟩

/-- What every finite number is below. -/
def bounded : Filter := .compare "v" .lt (.ofFloat (.ofBits 0x7ff0000000000000))

def isJsonNull : Filter := .compare "o" .eq jsonNull

/-- A filter with a finite bound keeps its meaning. -/
theorem read_back_finite :
    let f := Filter.compare "v" .lt (.ofFloat 2.5)
    f.isStorable ∧ Filter.ofDocument? f.toDocument = some f ∧
      f.stored.eval row = .ok (some true) := by
  intro f
  have hf : f.isStorable := by decide
  obtain ⟨⟨hread, hstored, -, heval⟩, -⟩ := read_back f jsonNull .alone
  refine ⟨hf, by rw [hread, hstored.mpr hf], ?_⟩
  rw [heval hf]
  with_unfolding_all rfl

/-- An infinite bound and the stored JSON value null come back as nulls, and what was kept is not
kept any more. -/
theorem read_back_as_null :
    Filter.ofDocument? bounded.toDocument = some (.compare "v" .lt (.null .float)) ∧
      Filter.ofDocument? isJsonNull.toDocument = some (.compare "o" .eq (.null .object)) ∧
      Value.ofDocument? .alone jsonNull.toDocument = some (.null .object) ∧
      ¬ Filter.compare "v" .lt (.null .float) == bounded ∧
      ¬ Filter.compare "o" .eq (.null .object) == isJsonNull ∧
      ¬ Value.null .object == jsonNull ∧
      bounded.keeps row = .ok true ∧
      Filter.keeps (.compare "v" .lt (.null .float)) row = .ok false ∧
      isJsonNull.keeps row = .ok true ∧
      Filter.keeps (.compare "o" .eq (.null .object)) row = .ok false := by
  refine ⟨bounded.ofDocument?_toDocument, isJsonNull.ofDocument?_toDocument,
    jsonNull.ofDocument?_toDocument .alone, by decide, by decide, by decide, ?_, ?_, ?_, ?_⟩ <;>
    with_unfolding_all rfl

end Unstorable

end DatasetAlgebra
