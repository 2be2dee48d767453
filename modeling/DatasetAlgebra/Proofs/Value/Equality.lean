import DatasetAlgebra.Filter.Basic

/-!
Equality of stored documents, values and filters is reflexive, also where numbers are compared by
their rank: a NaN equals itself.
-/
namespace DatasetAlgebra

namespace Document

mutual
theorem same_self : (d : Document) → d.isCanonical → d.same d
  | .null, _ | .boolean _, _ | .integer _, _ | .float _, _ | .string _, _ => by simp [same]
  | .array items, h => sameAll_self items h
  | .object fields, h => sameFields_self fields h
  -- what cannot be read is not even equal to itself, but it is not canonical
  | .unreadable, h => by simp [isCanonical] at h

theorem sameAll_self : (ds : List Document) → allCanonical ds → sameAll ds ds
  | [], _ => rfl
  | d :: ds, h => by
    simp only [allCanonical, Bool.and_eq_true] at h
    simp [sameAll, same_self d h.1, sameAll_self ds h.2]

theorem sameFields_self : (fs : List (String × Document)) → fieldsCanonical fs → sameFields fs fs
  | [], _ => rfl
  | (k, d) :: fs, h => by
    simp only [fieldsCanonical, Bool.and_eq_true] at h
    simp [sameFields, same_self d h.1.2, sameFields_self fs h.2]
end

end Document

theorem Scalar.same_self (x : Scalar) : x.same x := by
  cases x with
  | object j => exact j.document.same_self j.canonical
  | integer _ | float _ | string _ | boolean _ => simp [same]

instance : ReflBEq Value where
  rfl {v} := by
    cases v with
    | null t => simp [BEq.beq, Value.same]
    | present x => exact x.same_self

namespace Filter

mutual
theorem same_self : (f : Filter) → f.same f
  | .all => rfl
  | .compare _ _ _ | .isNull _ => by simp [same]
  | .and terms | .or terms => sameTerms_self terms
  | .not term => same_self term

theorem sameTerms_self : (fs : List Filter) → sameTerms fs fs
  | [] => rfl
  | f :: fs => by simp [sameTerms, same_self f, sameTerms_self fs]
end

instance : ReflBEq Filter := ⟨fun {f} => same_self f⟩

end Filter
end DatasetAlgebra
