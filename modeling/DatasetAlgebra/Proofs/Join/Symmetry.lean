import DatasetAlgebra.Proofs.Join.Acceptance
import DatasetAlgebra.Proofs.Join.Agreement
import DatasetAlgebra.Proofs.Join.Filtered
import Mathlib.Data.Multiset.Bind

/-!
Joins whose tables change places. In an inner or an outer join no table stands out: if the tables
share nothing but what they are joined on, the joined rows are the same in any order of the tables,
up to the order of their columns and of the rows.
-/
namespace DatasetAlgebra

section

variable {α κ : Type} {cmp : κ → κ → Ordering} [Std.TransCmp cmp] {key : α → κ}
  {R : α → α → Prop}

/-- The items that are not of a class. -/
abbrev besides (cmp : κ → κ → Ordering) (key : α → κ) (k : κ) (l : List α) : List α :=
  l.filter fun a => !(cmp (key a) k == .eq)

theorem classOf_besides (j k : κ) (l : List α) :
    classOf cmp key j (besides cmp key k l) = if cmp j k = .eq then [] else classOf cmp key j l := by
  rw [classOf_filter]
  by_cases hjk : cmp j k = .eq
  · rw [if_pos hjk, List.filter_eq_nil_iff]
    intro a ha
    simp [Std.TransCmp.eq_trans ((mem_classOf _ _).mp ha).2 hjk]
  · rw [if_neg hjk, List.filter_eq_self]
    intro a ha
    have haj : cmp j (key a) = .eq := Std.OrientedCmp.eq_symm ((mem_classOf _ _).mp ha).2
    simpa using fun hak => hjk (Std.TransCmp.eq_trans haj hak)

/-- Items are related one to one if those of each class are. -/
theorem rel_of_classOf {l m : List α}
    (h : ∀ a, Multiset.Rel R (classOf cmp key (key a) l) (classOf cmp key (key a) m)) :
    Multiset.Rel R (l : Multiset α) m := by
  -- by the number of items: the class of the first is related, and so is all that is besides it
  induction hn : l.length using Nat.strong_induction_on generalizing l m with
  | _ n ih =>
    have hsplit (a : α) (l : List α) :
        (l : Multiset α) = classOf cmp key (key a) l + besides cmp key (key a) l := by
      rw [Multiset.coe_add, Multiset.coe_eq_coe]
      exact (List.filter_append_perm _ l).symm
    have hself (a : α) (l : List α) : a ∈ classOf cmp key (key a) (a :: l) :=
      (mem_classOf _ _).mpr ⟨List.mem_cons_self, Std.ReflCmp.compare_self⟩
    cases l with
    | nil =>
      cases m with
      | nil => exact .zero
      | cons b m =>
        have hnone : classOf cmp key (key b) (b :: m) = [] :=
          Multiset.coe_eq_zero _ |>.mp (Multiset.rel_zero_left.mp (h b))
        exact absurd (hnone ▸ hself b m) List.not_mem_nil
    | cons a l =>
      have hfewer : (besides cmp key (key a) (a :: l)).length < n := by
        rw [← hn, List.length_filter_lt_length_iff_exists]
        exact ⟨a, List.mem_cons_self, by simp [Std.ReflCmp.compare_self]⟩
      rw [hsplit a (a :: l), hsplit a m]
      apply (h a).add
      apply ih _ hfewer _ rfl
      intro b
      rw [classOf_besides, classOf_besides]
      by_cases hba : cmp (key b) (key a) = .eq
      · rw [if_pos hba, if_pos hba]
        exact .zero
      · rw [if_neg hba, if_neg hba]
        exact h b

end

theorem rel_choices {α : Type} {ls ms : List (List α)} (h : ls.Perm ms) :
    Multiset.Rel List.Perm (choices ls : Multiset (List α)) (choices ms) := by
  have hcons (l : List α) (ls : List (List α)) : (choices (l :: ls) : Multiset (List α)) =
      Multiset.bind l fun a => (choices ls : Multiset (List α)).map (a :: ·) := by
    simp [choices]
  induction h with
  | nil => exact Multiset.rel_refl_of_refl_on fun as _ => .refl as
  | cons l _ ih =>
    rw [hcons, hcons]
    apply Multiset.rel_bind (r := Eq) _ (Multiset.rel_eq.mpr rfl)
    rintro a _ rfl
    exact Multiset.rel_map.mpr (ih.mono fun as _ bs _ h => h.cons a)
  | swap l m ls =>
    simp only [hcons, Multiset.map_bind, Multiset.map_map, Function.comp_def]
    rw [Multiset.bind_bind]
    apply Multiset.rel_bind (r := Eq) _ (Multiset.rel_eq.mpr rfl)
    rintro a _ rfl
    apply Multiset.rel_bind (r := Eq) _ (Multiset.rel_eq.mpr rfl)
    rintro b _ rfl
    exact Multiset.rel_map.mpr (Multiset.rel_refl_of_refl_on fun as _ => .swap _ _ as)
  | trans _ _ ih₁ ih₂ => exact ih₁.trans _ ih₂

theorem forall₂_of_mem_choices {α : Type} {ls : List (List α)} {as : List α}
    (h : as ∈ choices ls) : List.Forall₂ (· ∈ ·) as ls := by
  induction ls generalizing as with
  | nil =>
    rw [choices, List.mem_singleton] at h
    exact h ▸ .nil
  | cons l ls ih =>
    obtain ⟨a, ha, h⟩ := List.mem_flatMap.mp h
    obtain ⟨as, has, rfl⟩ := List.mem_map.mp h
    exact .cons ha (ih has)

namespace JoinKind

variable {α : Type} {kind : JoinKind} {groups groups' : List (List α)}

theorem emits_perm (hkind : kind ≠ .left) (h : groups.Perm groups') :
    kind.emits groups = kind.emits groups' := by
  cases kind with
  | inner => exact h.all_eq
  | outer => exact h.any_eq
  | left => exact absurd rfl hkind

theorem rel_contributors (hkind : kind ≠ .left) (h : groups.Perm groups') :
    Multiset.Rel List.Perm (kind.contributors groups : Multiset (List α))
      (kind.contributors groups') := by
  unfold contributors
  rw [emits_perm hkind h]
  split
  · exact rel_choices (h.filter _)
  · exact .zero

theorem pairwise_of_mem_contributors {R : α → α → Prop} {as : List α}
    (h : groups.Pairwise fun g g' => ∀ a ∈ g, ∀ b ∈ g', R a b) (has : as ∈ kind.contributors groups) :
    as.Pairwise R := by
  unfold contributors at has
  split at has
  · have hchosen := forall₂_of_mem_choices has
    have hpairs := h.sublist (List.filter_sublist (p := fun g => !g.isEmpty))
    clear has h
    generalize groups.filter (fun g => !g.isEmpty) = chosen at hchosen hpairs
    induction hchosen with
    | nil => exact .nil
    | cons ha hrest ih =>
      obtain ⟨hhead, htail⟩ := List.pairwise_cons.mp hpairs
      refine List.pairwise_cons.mpr ⟨fun b hb => ?_, ih htail⟩
      obtain ⟨g, hg, hbg⟩ := exists_left_of_forall₂ hrest.flip hb
      exact hhead g hg _ ha b hbg
  · cases has

end JoinKind

/-- Rows with equal values, in the order of values, under every name. -/
def Row.Alike (a b : Row) : Prop := ∀ n, Filter.Alike (a.value? n) (b.value? n)

/-- Rows that agree wherever both have a value. -/
def Row.Consistent (a b : Row) : Prop := ∀ n, Row.Agree n a b

theorem Row.Consistent.symm {a b : Row} (h : a.Consistent b) : b.Consistent a :=
  fun n v hv w hw => Std.OrientedCmp.eq_symm (h n w hw v hv)

theorem Row.consistent_self (a : Row) : a.Consistent a :=
  fun _ => agree_of_alike (.of_eq rfl)

theorem lastValue?_alike {as bs : List Row} (h : as.Perm bs)
    (hagree : ∀ a ∈ as, ∀ b ∈ as, a.Consistent b) (n : String) :
    Filter.Alike (lastValue? as n) (lastValue? bs n) := by
  have hsome {rows : List Row} {v : Value} (hv : lastValue? rows n = some v) :
      ∃ r ∈ rows, r.value? n = some v := by
    obtain ⟨r, hr, hrv⟩ := List.exists_of_findSome?_eq_some hv
    exact ⟨r, List.mem_reverse.mp hr, hrv⟩
  have hnone {rows : List Row} (hv : lastValue? rows n = none) : ∀ r ∈ rows, r.value? n = none := by
    simpa [lastValue?, List.findSome?_eq_none_iff] using hv
  cases ha : lastValue? as n with
  | none =>
    cases hb : lastValue? bs n with
    | none => exact .none
    | some w =>
      obtain ⟨r, hr, hrw⟩ := hsome hb
      rw [hnone ha r (h.mem_iff.mpr hr)] at hrw
      cases hrw
  | some v =>
    obtain ⟨a, haas, hav⟩ := hsome ha
    cases hb : lastValue? bs n with
    | none =>
      rw [hnone hb a (h.mem_iff.mp haas)] at hav
      cases hav
    | some w =>
      obtain ⟨b, hbbs, hbw⟩ := hsome hb
      exact .some (hagree a haas b (h.mem_iff.mpr hbbs) n v hav w hbw)

theorem combined_alike {out out' : Schema} {as bs : List Row}
    (hout : ∀ c, c ∈ out.columns ↔ c ∈ out'.columns) (h : as.Perm bs)
    (hagree : ∀ a ∈ as, ∀ b ∈ as, a.Consistent b) :
    (combined out as).Alike (combined out' bs) := by
  intro n
  rw [combined, combined, Row.value?_byColumn, Row.value?_byColumn, Schema.column?_congr hout]
  cases hc : out'.column? n with
  | none => exact .none
  | some c =>
    have hlast := lastValue?_alike h hagree c.name
    rw [Option.map_some, Option.map_some]
    generalize lastValue? as c.name = v at hlast
    generalize lastValue? bs c.name = w at hlast
    cases hlast with
    | none => exact .of_eq rfl
    | some h => exact .some h

namespace Join

variable {kind : JoinKind} {out out' : Schema} {groups groups' : List (List Row)}

/-- The joined rows of one key, from groups of rows that are consistent with those of the other
groups, are the same in any order of the groups. -/
theorem rel_rowsAt (hkind : kind ≠ .left) (hout : ∀ c, c ∈ out.columns ↔ c ∈ out'.columns)
    (h : groups.Perm groups')
    (hgroups : groups.Pairwise fun g g' => ∀ a ∈ g, ∀ b ∈ g', a.Consistent b) :
    Multiset.Rel Row.Alike (rowsAt kind out groups) (rowsAt kind out' groups') := by
  unfold rowsAt
  rw [← Multiset.map_coe, ← Multiset.map_coe, Multiset.rel_map]
  refine (JoinKind.rel_contributors hkind h).mono fun as has bs _ hperm => ?_
  have hpairs := JoinKind.pairwise_of_mem_contributors hgroups (Multiset.mem_coe.mp has)
  have : Std.Symm Row.Consistent := ⟨fun _ _ h => h.symm⟩
  have hagree := List.Pairwise.forall_of_forall (fun a _ => a.consistent_self) hpairs
  exact combined_alike hout hperm fun a ha b hb => hagree ha hb

/-- Tables of which no two share a column that is not an identifier of all. -/
def SharesCommon (tables : List (String × Table)) : Prop :=
  tables.Pairwise fun t u =>
    ∀ n ∈ t.2.schema.names, n ∈ u.2.schema.names → n ∈ commonNames (named tables)

theorem consistent_of_key {o : SortOrder} {key : List Value} {a b : Row} (ha : o.Covers a)
    (hb : o.Covers b) (hakey : SortOrder.compareAlong o.keys (o.keyOf a) key = .eq)
    (hbkey : SortOrder.compareAlong o.keys (o.keyOf b) key = .eq)
    (hshare : ∀ n ∈ a.schema.names, n ∈ b.schema.names → n ∈ o.columns) : a.Consistent b := by
  intro n v hv w hw
  have hna : n ∈ a.schema.names := Row.value?_isSome_iff.mp (by rw [hv]; rfl)
  have hnb : n ∈ b.schema.names := Row.value?_isSome_iff.mp (by rw [hw]; rfl)
  have hkeys := Std.TransCmp.eq_trans hakey (Std.OrientedCmp.eq_symm hbkey)
  exact Row.agree_of_alike (Filter.alike_of_key ha hb hkeys n (hshare n hna hnb)) v hv w hw

section

variable {j j' : Join} {q q' : Request} {tables tables' : List (String × Table)}

/-- Complete joins of the same tables have the same rows. -/
theorem Joined.Complete.rel {joined joined' : Joined}
    (h : joined.Complete j q (tables.map Prod.snd))
    (h' : joined'.Complete j' q' (tables'.map Prod.snd)) (hp : tables.Perm tables')
    (hkind : j.kind ≠ .left) (hkinds : j'.kind = j.kind)
    (hout : ∀ c, c ∈ j.schema.columns ↔ c ∈ j'.schema.columns)
    (hkeys : ∀ n, n ∈ q.order.columns ↔ n ∈ q'.order.columns)
    (hcovers : ∀ t ∈ tables, ∀ n ∈ q.order.columns, n ∈ t.2.schema.names)
    (hshare : tables.Pairwise fun t u =>
      ∀ n ∈ t.2.schema.names, n ∈ u.2.schema.names → n ∈ q.order.columns) :
    Multiset.Rel Row.Alike ((joined.rows ()).collect.rows : Multiset Row)
      (joined'.rows ()).collect.rows := by
  have hclasses (x : Row) :
      Multiset.Rel Row.Alike (q.order.rowsOf (q.order.keyOf x) (joined.rows ()).collect.rows)
        (q.order.rowsOf (q.order.keyOf x) (joined'.rows ()).collect.rows) := by
    let group (t : String × Table) : List Row := q.order.rowsOf (q.order.keyOf x) t.2.rows
    have hrows : q.order.rowsOf (q.order.keyOf x) (joined.rows ()).collect.rows =
        rowsAt j.kind j.schema (tables.map group) := by
      rw [h.rows, List.map_map]
      rfl
    have hrows' : q.order.rowsOf (q.order.keyOf x) (joined'.rows ()).collect.rows =
        rowsAt j.kind j'.schema (tables'.map group) := by
      rw [SortOrder.rowsOf_keyOf_congr hkeys, h'.rows, List.map_map, hkinds]
      refine congrArg (rowsAt j.kind j'.schema) (List.map_congr_left fun t _ => ?_)
      exact (SortOrder.rowsOf_keyOf_congr hkeys x t.2.rows).symm
    rw [hrows, hrows']
    apply rel_rowsAt hkind hout (hp.map group)
    rw [List.pairwise_map]
    refine hshare.imp_of_mem fun {t u} ht hu hshared a ha b hb => ?_
    obtain ⟨hat, hakey⟩ := (mem_classOf _ _).mp ha
    obtain ⟨hbu, hbkey⟩ := (mem_classOf _ _).mp hb
    apply consistent_of_key (t.2.covers_rows (hcovers t ht) a hat)
      (u.2.covers_rows (hcovers u hu) b hbu) hakey hbkey
    rw [t.2.bound a hat, u.2.bound b hbu]
    exact hshared
  exact rel_of_classOf hclasses

theorem read_complete {kind : JoinKind} {names : List String} {policy : Policy}
    {order required : SortOrder} (columns : List String)
    (hj : on kind (named tables) names = .ok j) (hs : ∀ t ∈ tables, t.2.Sortable policy)
    (hc : ∀ t ∈ tables, t.2.ClosesWell)
    (hr : SortOrder.compatible? j.identifiers order = some required) :
    ∃ (s : RowStream) (joined : Joined),
      ((j.withPolicy policy).read order .all columns).outcome = .ok s ∧
      joined.Complete (j.withPolicy policy) ⟨required, .all, columns⟩ (tables.map Prod.snd) ∧
      s.Answers ((joined.rows ()).collect.rows.map .ok) := by
  obtain ⟨hwired, -, hdatasets, -⟩ := wired_of_on hj
  obtain ⟨joined, hopen, hcomplete⟩ := (hwired.withPolicy policy).openAll_complete
    (q := ⟨required, .all, columns⟩) (SortOrder.columns_mem_of_compatible hr) rfl hdatasets hs hc
  have hread : ((j.withPolicy policy).read order .all columns).outcome =
      .ok ((j.withPolicy policy).stream order required .all joined) :=
    read_eq_ok.mpr ⟨required, hr, Filter.all_refersOnlyTo _, joined, hopen, rfl⟩
  exact ⟨_, joined, hread, hcomplete, hcomplete.answers order .all⟩

end

/-- A join on what datasets have in common can be built in one order of them just if in any other,
with the same schema and, of tables that share nothing else, the same rows. -/
theorem onCommon_perm {kind : JoinKind} (hkind : kind ≠ .left)
    {tables tables' : List (String × Table)} (hp : tables.Perm tables')
    (hshare : SharesCommon tables) :
    ((∃ j, onCommon kind (named tables) = .ok j) ↔ ∃ j, onCommon kind (named tables') = .ok j) ∧
    ∀ j j', onCommon kind (named tables) = .ok j → onCommon kind (named tables') = .ok j' →
      j.schema.same j'.schema ∧
      ∀ policy, (∀ t ∈ tables, t.2.Sortable policy) → (∀ t ∈ tables, t.2.ClosesWell) →
      ∀ order order' columns columns',
        (SortOrder.compatible? j.identifiers order).isSome →
        (SortOrder.compatible? j'.identifiers order').isSome →
        ∃ (s s' : RowStream) (rows rows' : List Row),
          ((j.withPolicy policy).read order .all columns).outcome = .ok s ∧
          ((j'.withPolicy policy).read order' .all columns').outcome = .ok s' ∧
          s.Answers (rows.map .ok) ∧ s'.Answers (rows'.map .ok) ∧
          Multiset.Rel Row.Alike (rows : Multiset Row) rows' := by
  have hnamed : (named tables).Perm (named tables') := hp.map _
  refine ⟨?_, fun j j' hj hj' => ?_⟩
  · rw [exists_onCommon_iff, exists_onCommon_iff]
    exact ⟨joinable_perm hnamed, joinable_perm hnamed.symm⟩
  have hout := columns_of_perm hnamed hj hj'
  refine ⟨Schema.same_of_columns hout, fun policy hs hc order order' columns columns' ho ho' => ?_⟩
  obtain ⟨required, hr⟩ := Option.isSome_iff_exists.mp ho
  obtain ⟨required', hr'⟩ := Option.isSome_iff_exists.mp ho'
  obtain ⟨s, joined, hread, hcomplete, hanswers⟩ := read_complete columns hj hs hc hr
  obtain ⟨s', joined', hread', hcomplete', hanswers'⟩ := read_complete columns' hj'
    (fun t ht => hs t (hp.mem_iff.mpr ht)) (fun t ht => hc t (hp.mem_iff.mpr ht)) hr'
  obtain ⟨hwired, hkindj, hdatasets, hids⟩ := wired_of_on hj
  obtain ⟨-, hkindj', -, hids'⟩ := wired_of_on hj'
  have hcolumns (n : String) : n ∈ required.columns ↔ n ∈ commonNames (named tables) :=
    hids ▸ SortOrder.mem_columns_iff_of_compatible hr n
  have hcolumns' (n : String) : n ∈ required'.columns ↔ n ∈ commonNames (named tables') :=
    hids' ▸ SortOrder.mem_columns_iff_of_compatible hr' n
  refine ⟨s, s', _, _, hread, hread', hanswers, hanswers', ?_⟩
  apply hcomplete.rel hcomplete' hp
  · exact hkindj ▸ hkind
  · exact hkindj'.trans hkindj.symm
  · exact hout
  · intro n
    rw [hcolumns, hcolumns', mem_commonNames_perm hnamed]
  · intro t ht
    have hmem := mem_datasets_of_mem hdatasets ht
    exact hwired.mem_names (q := ⟨required, .all, columns⟩)
      (SortOrder.columns_mem_of_compatible hr) hmem
  · exact hshare.imp fun h n ht hu => (hcolumns n).mpr (h n ht hu)

/-- An outer join of two tables, one of which has to be sorted, and of the same tables in the other
order, read in different orders. -/
theorem onCommon_perm_counts :
    let priced : Schema :=
      ⟨[⟨"price", .measure, .integer⟩, ⟨"id", .identifier, .integer⟩], by decide⟩
    let a := ("a", Table.counts [(2, 20), (1, 10), (1, 11)])
    let b := ("b", Table.ofInts priced [5, 1] rfl)
    ∃ (j j' : Join) (s s' : RowStream) (rows rows' : List Row),
      onCommon .outer (named [a, b]) = .ok j ∧ onCommon .outer (named [b, a]) = .ok j' ∧
      j.schema.same j'.schema ∧
      ((j.withPolicy ⟨true, 3, true⟩).read .any .all []).outcome = .ok s ∧
      ((j'.withPolicy ⟨true, 3, true⟩).read
        ⟨[⟨⟨"id", .identifier, .integer⟩, .descending⟩]⟩ .all []).outcome = .ok s' ∧
      s.Answers (rows.map .ok) ∧ s'.Answers (rows'.map .ok) ∧
      Multiset.Rel Row.Alike (rows : Multiset Row) rows' := by
  intro priced a b
  have hshare : SharesCommon [a, b] := by
    simp only [SharesCommon, List.pairwise_pair]
    decide
  obtain ⟨haccepted, hjoined⟩ :=
    @onCommon_perm .outer (by decide) [a, b] [b, a] (.swap b a []) hshare
  obtain ⟨j, hj⟩ : ∃ j, onCommon .outer (named [a, b]) = .ok j := ⟨_, rfl⟩
  obtain ⟨j', hj'⟩ := haccepted.mp ⟨j, hj⟩
  obtain ⟨hsame, hreads⟩ := hjoined j j' hj hj'
  have hs : ∀ t ∈ [a, b], t.2.Sortable ⟨true, 3, true⟩ := by
    intro t ht
    rcases List.mem_pair.mp ht with rfl | rfl
    · exact Table.sortable_counts rfl (by decide)
    · exact .inl rfl
  have hc : ∀ t ∈ [a, b], t.2.ClosesWell := by
    intro t ht
    rcases List.mem_pair.mp ht with rfl | rfl <;> intro r hr <;> cases hr
  obtain ⟨s, s', rows, rows', hread, hread', hanswers⟩ := hreads _ hs hc .any
    ⟨[⟨⟨"id", .identifier, .integer⟩, .descending⟩]⟩ [] [] rfl (by cases hj'; rfl)
  exact ⟨j, j', s, s', rows, rows', hj, hj', hsame, hread, hread', hanswers⟩

end Join

end DatasetAlgebra
