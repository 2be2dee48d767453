import DatasetAlgebra.Proofs.Schema.Merging

/-!
Merging schemas as an algebra. Two schemas merge exactly if no name stands for columns of different
role or type in them. The merged columns are those of the first schema and the new ones of the
second, the identifiers of both in front. Moving identifiers to the front commutes with appending
and filtering, so merging is associative to the position; it is commutative and idempotent up to
the order of columns.
-/
namespace DatasetAlgebra

/-- Columns of one name that differ in role or type. -/
def Column.Conflicts (c d : Column) : Prop := c.name = d.name ∧ (c.role ≠ d.role ∨ c.type ≠ d.type)

theorem Column.conflicts_iff {c d : Column} : c.Conflicts d ↔ c.name = d.name ∧ ¬c.agrees d := by
  simp [Conflicts, agrees, Decidable.imp_iff_not_or]

theorem Column.not_conflicts_iff {c d : Column} (hname : c.name = d.name) :
    ¬c.Conflicts d ↔ c = d := by
  cases c
  cases d
  simp_all [Conflicts]

namespace Schema

variable {s t u v : Schema} {c d : Column}

theorem agree_iff : s.Agree t ↔ ∀ c ∈ s.columns, ∀ d ∈ t.columns, ¬c.Conflicts d := by
  refine forall₂_congr fun c _ => forall₂_congr fun d _ => ⟨fun h hcd => ?_, fun h hname => ?_⟩
  · exact (Column.not_conflicts_iff hcd.1).mpr (h hcd.1) hcd
  · exact (Column.not_conflicts_iff hname).mp h

/-- The first column of `t` that is in conflict with one of `s`, beside that one. -/
structure FirstConflict (s t : Schema) (c d : Column) : Prop where
  mem : c ∈ s.columns
  conflicts : c.Conflicts d
  first : ∃ before behind, t.columns = before ++ d :: behind ∧
    ∀ y ∈ before, ∀ x ∈ s.columns, ¬x.Conflicts y

theorem conflict_at_iff {e : Column} :
    ((s.column? e.name).bind fun x => if x.agrees e then none else some (x, e)) = some (c, d) ↔
      e = d ∧ c ∈ s.columns ∧ c.Conflicts d := by
  rw [Option.bind_eq_some_iff]
  simp only [column?_eq_some_iff, Column.conflicts_iff]
  constructor
  · rintro ⟨x, ⟨hx, hname⟩, h⟩
    by_cases hagrees : x.agrees e
    · simp [hagrees] at h
    · rw [if_neg hagrees] at h
      cases h
      exact ⟨rfl, hx, hname, hagrees⟩
  · rintro ⟨rfl, hc, hname, hagrees⟩
    exact ⟨c, ⟨hc, hname⟩, if_neg hagrees⟩

theorem no_conflict_at_iff {e : Column} :
    ((s.column? e.name).bind fun x => if x.agrees e then none else some (x, e)) = none ↔
      ∀ c ∈ s.columns, ¬c.Conflicts e := by
  rw [Option.eq_none_iff_forall_ne_some, Prod.forall]
  constructor
  · exact fun h c hc hce => h c e (conflict_at_iff.mpr ⟨rfl, hc, hce⟩)
  · intro h c d hcd
    obtain ⟨rfl, hc, hce⟩ := conflict_at_iff.mp hcd
    exact h c hc hce

theorem conflict?_eq_some_iff : s.conflict? t = some (c, d) ↔ s.FirstConflict t c d := by
  rw [conflict?, List.findSome?_eq_some_iff]
  simp only [conflict_at_iff, no_conflict_at_iff]
  constructor
  · rintro ⟨before, e, behind, ht, ⟨rfl, hc, hce⟩, hbefore⟩
    exact ⟨hc, hce, before, behind, ht, hbefore⟩
  · rintro ⟨hc, hcd, before, behind, ht, hbefore⟩
    exact ⟨before, d, behind, ht, ⟨rfl, hc, hcd⟩, hbefore⟩

/-- Merging fails with the first conflict, and with nothing else. -/
theorem merge_eq_error_iff {e : Error} :
    s.merge t = .error e ↔ ∃ c d, s.FirstConflict t c d ∧
      e = .conflict d.name c.role c.type d.role d.type := by
  simp only [← conflict?_eq_some_iff]
  cases h : s.conflict? t with
  | none =>
    obtain ⟨u, hu⟩ := merge_ok (conflict?_eq_none_iff.mp h)
    simp [hu]
  | some pair =>
    obtain ⟨c, d⟩ := pair
    simp [merge, h, eq_comm]

/-- The columns of `t` whose names `s` lacks. -/
def news (s t : Schema) : List Column := t.columns.filter fun d => !s.contains d.name

theorem merge_eq_ok_iff :
    s.merge t = .ok u ↔ s.Agree t ∧ u.columns = identifiersFirst (s.columns ++ s.news t) := by
  have hcolumns {u : Schema} (h : s.merge t = .ok u) :
      u.columns = identifiersFirst (s.columns ++ s.news t) := by
    unfold merge at h
    split at h
    · cases h
    · exact ofColumns_eq_ok h
  constructor
  · exact fun h => ⟨agree_of_merge h, hcolumns h⟩
  · rintro ⟨hagree, hu⟩
    obtain ⟨v, hv⟩ := merge_ok hagree
    rw [hv, ext_columns ((hcolumns hv).trans hu.symm)]

theorem merge_ok_iff : (∃ u, s.merge t = .ok u) ↔ s.Agree t :=
  ⟨fun ⟨_, h⟩ => agree_of_merge h, merge_ok⟩

/-- The columns of a merged schema: the identifiers of both, then the rest of both. -/
theorem columns_merge (h : s.merge t = .ok u) :
    u.columns = s.columns.filter Column.isIdentifier ++ (s.news t).filter Column.isIdentifier ++
      (s.columns.filter (!·.isIdentifier) ++ (s.news t).filter (!·.isIdentifier)) := by
  rw [(merge_eq_ok_iff.mp h).2, identifiersFirst, List.filter_append, List.filter_append]

@[simp] theorem filter_identifiersFirst (p : Column → Bool) (xs : List Column) :
    (identifiersFirst xs).filter p = identifiersFirst (xs.filter p) := by
  simp [identifiersFirst, List.filter_filter, Bool.and_comm]

@[simp] theorem identifiersFirst_append_left (xs ys : List Column) :
    identifiersFirst (identifiersFirst xs ++ ys) = identifiersFirst (xs ++ ys) := by
  simp [identifiersFirst, List.filter_filter]

@[simp] theorem identifiersFirst_append_right (xs ys : List Column) :
    identifiersFirst (xs ++ identifiersFirst ys) = identifiersFirst (xs ++ ys) := by
  simp [identifiersFirst, List.filter_filter]

theorem identifiersFirst_idem (xs : List Column) :
    identifiersFirst (identifiersFirst xs) = identifiersFirst xs := by
  simpa using identifiersFirst_append_left xs []

theorem agree_merge_left (h : s.merge t = .ok u) : u.Agree v ↔ s.Agree v ∧ t.Agree v := by
  simp only [Agree, mem_columns_merge h, or_imp, forall_and]

theorem agree_comm : s.Agree t ↔ t.Agree s := ⟨Agree.symm, Agree.symm⟩

theorem agree_merge_right (h : s.merge t = .ok u) : v.Agree u ↔ v.Agree s ∧ v.Agree t := by
  rw [agree_comm, agree_merge_left h, agree_comm, agree_comm (s := t)]

theorem contains_merge (h : s.merge t = .ok u) (name : String) :
    u.contains name = (s.contains name || t.contains name) := by
  rw [Bool.eq_iff_iff, Bool.or_eq_true, contains_iff, contains_iff, contains_iff]
  simp only [names, List.mem_map, mem_columns_merge h, or_and_right, exists_or]

/-- The columns of `u` whose names both `s` and `t` lack. -/
def newest (s t u : Schema) : List Column :=
  u.columns.filter fun d => !s.contains d.name && !t.contains d.name

theorem merge_left_eq_ok_iff : ((s.merge t).bind fun m => m.merge u) = .ok v ↔
    (s.Agree t ∧ s.Agree u ∧ t.Agree u) ∧
      v.columns = identifiersFirst (s.columns ++ (s.news t ++ newest s t u)) := by
  rw [bind_eq_ok]
  have hstep {m : Schema} (hm : s.merge t = .ok m) : m.merge u = .ok v ↔ (s.Agree u ∧ t.Agree u) ∧
      v.columns = identifiersFirst (s.columns ++ (s.news t ++ newest s t u)) := by
    have hnews : m.news u = newest s t u := by simp [news, newest, contains_merge hm]
    rw [merge_eq_ok_iff, agree_merge_left hm, hnews, (merge_eq_ok_iff.mp hm).2,
      identifiersFirst_append_left, List.append_assoc]
  constructor
  · rintro ⟨m, hm, hv⟩
    obtain ⟨hagree, hcolumns⟩ := (hstep hm).mp hv
    exact ⟨⟨agree_of_merge hm, hagree⟩, hcolumns⟩
  · rintro ⟨⟨hst, hagree⟩, hcolumns⟩
    obtain ⟨m, hm⟩ := merge_ok hst
    exact ⟨m, hm, (hstep hm).mpr ⟨hagree, hcolumns⟩⟩

theorem merge_right_eq_ok_iff : ((t.merge u).bind fun m => s.merge m) = .ok v ↔
    (s.Agree t ∧ s.Agree u ∧ t.Agree u) ∧
      v.columns = identifiersFirst (s.columns ++ (s.news t ++ newest s t u)) := by
  rw [bind_eq_ok]
  have hstep {m : Schema} (hm : t.merge u = .ok m) : s.merge m = .ok v ↔ (s.Agree t ∧ s.Agree u) ∧
      v.columns = identifiersFirst (s.columns ++ (s.news t ++ newest s t u)) := by
    have hnews : s.news m = identifiersFirst (s.news t ++ newest s t u) := by
      rw [news, (merge_eq_ok_iff.mp hm).2, filter_identifiersFirst, List.filter_append, news,
        List.filter_filter, ← news, newest]
    rw [merge_eq_ok_iff, agree_merge_right hm, hnews, identifiersFirst_append_right]
  constructor
  · rintro ⟨m, hm, hv⟩
    obtain ⟨⟨hst, hsu⟩, hcolumns⟩ := (hstep hm).mp hv
    exact ⟨⟨hst, hsu, agree_of_merge hm⟩, hcolumns⟩
  · rintro ⟨⟨hst, hsu, htu⟩, hcolumns⟩
    obtain ⟨m, hm⟩ := merge_ok htu
    exact ⟨m, hm, (hstep hm).mpr ⟨⟨hst, hsu⟩, hcolumns⟩⟩

theorem merge_assoc (s t u v : Schema) :
    ((s.merge t).bind fun m => m.merge u) = .ok v ↔
      ((t.merge u).bind fun m => s.merge m) = .ok v :=
  merge_left_eq_ok_iff.trans merge_right_eq_ok_iff.symm

theorem merge_absorb (h : s.merge t = .ok u) : u.merge t = .ok u := by
  have hnone : u.news t = [] := by
    apply List.filter_eq_nil_iff.mpr
    intro c hc
    simp [contains_merge h, contains_iff.mpr (List.mem_map_of_mem hc)]
  refine merge_eq_ok_iff.mpr ⟨(agree_merge_left h).mpr ⟨agree_of_merge h, agree_self t⟩, ?_⟩
  rw [hnone, List.append_nil, (merge_eq_ok_iff.mp h).2, identifiersFirst_idem]

theorem merge_comm_ok : (∃ u, s.merge t = .ok u) ↔ ∃ v, t.merge s = .ok v := by
  simp only [merge_ok_iff, agree_comm (s := s)]

theorem same_merge_comm (hu : s.merge t = .ok u) (hv : t.merge s = .ok v) : u.same v :=
  same_of_columns fun c => by rw [mem_columns_merge hu, mem_columns_merge hv, or_comm]

theorem merge_self (s : Schema) : ∃ u, s.merge s = .ok u ∧ u.same s := by
  obtain ⟨u, hu⟩ := merge_ok s.agree_self
  exact ⟨u, hu, same_of_columns fun c => by rw [mem_columns_merge hu, or_self]⟩

/-- Merging fails exactly with the first column of the second schema whose name stands for another
role or type. It is associative, and commutative and idempotent but for the order of columns. -/
theorem merge_laws (a b c : Schema) :
    ((∃ e, a.merge b = .error e) ↔ ∃ x ∈ a.columns, ∃ y ∈ b.columns, x.Conflicts y) ∧
    (∀ e, a.merge b = .error e ↔ ∃ x y, a.FirstConflict b x y ∧
      e = .conflict y.name x.role x.type y.role y.type) ∧
    (∀ name, a.merge b ≠ .error (.duplicate name)) ∧
    (∀ u, a.merge b = .ok u → u.columns =
      a.columns.filter Column.isIdentifier ++ (a.news b).filter Column.isIdentifier ++
        (a.columns.filter (!·.isIdentifier) ++ (a.news b).filter (!·.isIdentifier))) ∧
    (((∃ v, ((a.merge b).bind fun u => u.merge c) = .ok v) ↔
        ∃ w, ((b.merge c).bind fun u => a.merge u) = .ok w) ∧
      ∀ v w, ((a.merge b).bind fun u => u.merge c) = .ok v →
        ((b.merge c).bind fun u => a.merge u) = .ok w → v = w ∧ v.sameLayout w) ∧
    (((∃ u, a.merge b = .ok u) ↔ ∃ v, b.merge a = .ok v) ∧
      ∀ u v, a.merge b = .ok u → b.merge a = .ok v → u.same v) ∧
    (∃ u, a.merge a = .ok u ∧ u.same a) ∧
    ∀ u, a.merge b = .ok u → ∃ v, u.merge b = .ok v ∧ v.sameLayout u := by
  refine ⟨?fails, fun e => merge_eq_error_iff, ?unrepeated, fun u => columns_merge, ⟨?_, ?positions⟩,
    ⟨merge_comm_ok, fun u v => same_merge_comm⟩, merge_self a, ?absorbed⟩
  case fails =>
    have hagree : (∃ e, a.merge b = .error e) ↔ ¬a.Agree b := by
      rw [← merge_ok_iff]
      cases a.merge b <;> simp
    simp only [hagree, agree_iff, not_forall, not_not, exists_prop]
  case unrepeated =>
    intro name h
    obtain ⟨x, y, -, he⟩ := merge_eq_error_iff.mp h
    cases he
  · exact exists_congr fun v => merge_assoc a b c v
  case positions =>
    intro v w hv hw
    cases ((merge_assoc a b c v).mp hv).symm.trans hw
    exact ⟨rfl, v.sameLayout_self⟩
  case absorbed => exact fun u hu => ⟨u, merge_absorb hu, u.sameLayout_self⟩

end Schema
end DatasetAlgebra
