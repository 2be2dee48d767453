import DatasetAlgebra.Proofs.Schema.Columns
import DatasetAlgebra.Proofs.SortOrder.Classes
import DatasetAlgebra.Proofs.SortOrder.Keys

/-!
Sorting: rows that cover the order come out ascending, none is lost, and those with one key stay
in their order. So do rows of one schema, as the columns that it lacks tell none of them apart.
-/
namespace DatasetAlgebra
namespace SortOrder

/-- Rows ascend by their keys. -/
abbrev Sorted (o : SortOrder) (rows : List Row) : Prop :=
  Ascending (compareAlong o.keys) o.keyOf rows

/-- The rows with a given key. -/
abbrev rowsOf (o : SortOrder) (key : List Value) (rows : List Row) : List Row :=
  classOf (compareAlong o.keys) o.keyOf key rows

theorem insert_perm (o : SortOrder) (sorted : List Row) (r : Row) :
    (o.insert sorted r).Perm (r :: sorted) := by
  induction sorted with
  | nil => exact .refl _
  | cons last rest ih =>
    by_cases h : o.compare r last = .lt
    · simpa [insert, h] using (ih.cons last).trans (.swap r last rest)
    · simp [insert, h]

theorem sortFew_perm (o : SortOrder) (rows : List Row) : (o.sortFew rows).Perm rows := by
  have hfold : ∀ acc, (rows.foldl o.insert acc).Perm (rows.reverse ++ acc) := by
    induction rows with
    | nil => exact fun _ => .refl _
    | cons r rows ih =>
      intro acc
      refine (ih _).trans ?_
      rw [List.reverse_cons, List.append_assoc, List.singleton_append]
      exact (o.insert_perm acc r).append_left _
  exact (List.reverse_perm _).trans ((hfold []).trans (by simp [List.reverse_perm]))

theorem sort_perm (o : SortOrder) (rows : List Row) : (o.sort rows).Perm rows := by
  unfold sort
  split
  · exact o.sortFew_perm rows
  · exact List.mergeSort_perm _ _

variable {o : SortOrder}

/-- The latest row of a sorted stack is on top. -/
abbrev SortedDown (o : SortOrder) (rows : List Row) : Prop :=
  rows.Pairwise fun a b => (compareAlong o.keys (o.keyOf b) (o.keyOf a)).isLE

theorem sortedDown_insert {sorted : List Row} {r : Row} (hr : o.Covers r)
    (hc : ∀ s ∈ sorted, o.Covers s) (h : o.SortedDown sorted) :
    o.SortedDown (o.insert sorted r) := by
  induction sorted with
  | nil => simp [insert, SortedDown]
  | cons last rest ih =>
    have hcmp := compare_eq hr (hc last (by simp))
    have hrest := ih (fun s hs => hc s (by simp [hs])) (List.Pairwise.of_cons h)
    by_cases hlt : o.compare r last = .lt
    · have hle : (compareAlong o.keys (o.keyOf r) (o.keyOf last)).isLE := by
        rw [← hcmp, hlt]; rfl
      rw [insert, if_pos (by simp [hlt])]
      refine List.Pairwise.cons (fun s hs => ?_) hrest
      rcases List.mem_cons.mp ((o.insert_perm rest r).mem_iff.mp hs) with rfl | hs
      · exact hle
      · exact List.rel_of_pairwise_cons h hs
    · have hle : (compareAlong o.keys (o.keyOf last) (o.keyOf r)).isLE := by
        apply Std.OrientedCmp.isLE_of_isGE
        rw [← hcmp]
        cases hc : o.compare r last with
        | lt => exact absurd hc hlt
        | eq | gt => rfl
      rw [insert, if_neg (by simp [hlt])]
      refine List.Pairwise.cons (fun s hs => ?_) h
      rcases List.mem_cons.mp hs with rfl | hs
      · exact hle
      · exact Std.TransCmp.isLE_trans (List.rel_of_pairwise_cons h hs) hle

theorem rowsOf_insert {sorted : List Row} {r : Row} (hr : o.Covers r)
    (hc : ∀ s ∈ sorted, o.Covers s) (key : List Value) :
    o.rowsOf key (o.insert sorted r) = o.rowsOf key (r :: sorted) := by
  unfold rowsOf
  induction sorted with
  | nil => rfl
  | cons last rest ih =>
    have hcmp := compare_eq hr (hc last (by simp))
    have hrest := ih fun s hs => hc s (by simp [hs])
    by_cases hlt : o.compare r last = .lt
    · rw [insert, if_pos (by simp [hlt])]
      by_cases hkl : compareAlong o.keys (o.keyOf last) key = .eq
      · have hkr : compareAlong o.keys (o.keyOf r) key ≠ .eq := by
          rw [← Std.TransCmp.congr_right hkl, ← hcmp, hlt]
          simp
        rw [classOf_cons_of_eq hkl, classOf_cons_of_ne hkr, classOf_cons_of_eq hkl, hrest,
          classOf_cons_of_ne hkr]
      · rw [classOf_cons_of_ne hkl, hrest]
        by_cases hkr : compareAlong o.keys (o.keyOf r) key = .eq
        · rw [classOf_cons_of_eq hkr, classOf_cons_of_eq hkr, classOf_cons_of_ne hkl]
        · rw [classOf_cons_of_ne hkr, classOf_cons_of_ne hkr, classOf_cons_of_ne hkl]
    · rw [insert, if_neg (by simp [hlt])]

/-- What inserting one row after the other makes of a sorted stack. -/
theorem foldl_insert {rows sorted : List Row} (hr : ∀ r ∈ rows, o.Covers r)
    (hs : ∀ s ∈ sorted, o.Covers s) (h : o.SortedDown sorted) :
    o.SortedDown (rows.foldl o.insert sorted) ∧
      ∀ key, o.rowsOf key (rows.foldl o.insert sorted) = o.rowsOf key (rows.reverse ++ sorted) := by
  induction rows generalizing sorted with
  | nil => exact ⟨h, fun _ => rfl⟩
  | cons r rows ih =>
    have hrow := hr r (by simp)
    have hcov : ∀ s ∈ o.insert sorted r, o.Covers s := by
      intro s hs'
      rcases List.mem_cons.mp ((o.insert_perm sorted r).mem_iff.mp hs') with rfl | hs'
      · exact hrow
      · exact hs s hs'
    obtain ⟨hdown, hclass⟩ := ih (fun s hs => hr s (by simp [hs])) hcov
      (sortedDown_insert hrow hs h)
    refine ⟨hdown, fun key => ?_⟩
    have hins := rowsOf_insert hrow hs key
    have hkey := hclass key
    unfold rowsOf at hins hkey ⊢
    rw [List.foldl_cons, hkey, classOf_append, hins, List.reverse_cons, List.append_assoc,
      List.singleton_append, classOf_append]

theorem sorted_sortFew {rows : List Row} (h : ∀ r ∈ rows, o.Covers r) :
    o.Sorted (o.sortFew rows) ∧ ∀ key, o.rowsOf key (o.sortFew rows) = o.rowsOf key rows := by
  obtain ⟨hdown, hclass⟩ := foldl_insert h (List.forall_mem_nil _) List.Pairwise.nil
  refine ⟨List.pairwise_reverse.mpr hdown, fun key => ?_⟩
  have hkey := hclass key
  unfold rowsOf at hkey ⊢
  rw [sortFew, classOf_reverse, hkey, List.append_nil, classOf_reverse, List.reverse_reverse]

theorem sorted_sortMany {rows : List Row} (h : ∀ r ∈ rows, o.Covers r) :
    o.Sorted (o.sortMany rows) ∧ ∀ key, o.rowsOf key (o.sortMany rows) = o.rowsOf key rows := by
  let le (a b : Row) : Bool := (compareAlong o.keys (o.keyOf a) (o.keyOf b)).isLE
  have htrans : ∀ a b c, le a b → le b c → le a c := fun _ _ _ => Std.TransCmp.isLE_trans
  have htotal : ∀ a b, le a b || le b a := by
    intro a b
    cases hab : le a b with
    | true => rfl
    | false =>
      have hba : compareAlong o.keys (o.keyOf b) (o.keyOf a) = .lt :=
        Std.OrientedCmp.lt_of_not_isLE (by simpa [le] using hab)
      simp [le, hba]
  have hsort : o.sortMany rows = rows.mergeSort le := by
    have hmap := List.map_mergeSort (r := fun a b => o.compare a b != .gt) (s := le) (f := id)
      (l := rows) fun a ha b hb => by
        rw [compare_eq (h a ha) (h b hb)]
        cases hc : compareAlong o.keys (o.keyOf a) (o.keyOf b) <;> simp [le, hc]
    simpa [sortMany] using hmap
  rw [hsort]
  refine ⟨List.pairwise_mergeSort htrans htotal rows, fun key => ?_⟩
  -- the class is sorted already, so it survives as a sublist; nothing joins it
  have hclass : (o.rowsOf key rows).Pairwise fun a b => le a b := by
    refine List.pairwise_of_forall_mem_list fun a ha b hb => ?_
    have ha' := ((mem_classOf _ _).mp ha).2
    have hb' := ((mem_classOf _ _).mp hb).2
    simp [le, Std.TransCmp.eq_trans ha' (Std.OrientedCmp.eq_symm hb')]
  have hsub := List.sublist_mergeSort htrans htotal hclass List.filter_sublist
  have hsub' := hsub.filter fun a => compareAlong o.keys (o.keyOf a) key == .eq
  have hperm := (List.mergeSort_perm rows le).filter
    fun a => compareAlong o.keys (o.keyOf a) key == .eq
  simp only [rowsOf, classOf, List.filter_filter, Bool.and_self] at hsub'
  exact (hsub'.eq_of_length hperm.length_eq.symm).symm

theorem sorted_sort {rows : List Row} (h : ∀ r ∈ rows, o.Covers r) :
    o.Sorted (o.sort rows) ∧ ∀ key, o.rowsOf key (o.sort rows) = o.rowsOf key rows := by
  unfold sort
  split
  · exact sorted_sortFew h
  · exact sorted_sortMany h

theorem sort_eq_self {rows : List Row} (h : ∀ r ∈ rows, o.Covers r) (hs : o.Sorted rows) :
    o.sort rows = rows :=
  (sorted_sort h).1.eq_of_classOf_eq hs (sorted_sort h).2

@[simp] theorem sort_any (rows : List Row) : any.sort rows = rows :=
  sort_eq_self (fun _ _ _ hn => by simp [columns, any] at hn)
    (List.pairwise_of_forall fun _ _ => rfl)

theorem sort_filter {rows : List Row} (h : ∀ r ∈ rows, o.Covers r) (p : Row → Bool) :
    o.sort (rows.filter p) = (o.sort rows).filter p := by
  have hcover : ∀ r ∈ rows.filter p, o.Covers r := fun r hr => h r (List.mem_of_mem_filter hr)
  obtain ⟨hsome, hsomeClass⟩ := sorted_sort hcover
  obtain ⟨hall, hallClass⟩ := sorted_sort h
  refine hsome.eq_of_classOf_eq (hall.sublist List.filter_sublist) fun k => ?_
  calc o.rowsOf k (o.sort (rows.filter p))
      = (o.rowsOf k rows).filter p := (hsomeClass k).trans (classOf_filter ..)
    _ = (o.rowsOf k (o.sort rows)).filter p := by rw [hallClass k]
    _ = o.rowsOf k ((o.sort rows).filter p) := (classOf_filter ..).symm

theorem sorted_iff {rows : List Row} (h : ∀ r ∈ rows, o.Covers r) :
    o.Sorted rows ↔ rows.Pairwise fun a b => o.compare a b ≠ .gt := by
  refine List.Pairwise.iff_of_mem fun ha hb => ?_
  rw [compare_eq (h _ ha) (h _ hb), Ordering.isLE_iff_ne_gt]

/-- The rows of one key. -/
def group (o : SortOrder) (key : List Value) (rows : List Row) : List Row :=
  rows.filter fun r => o.sameKey (o.keyOf r) key

theorem group_eq_rowsOf {key : List Value} (h : o.Fits key) (rows : List Row) :
    o.group key rows = o.rowsOf key rows := by
  refine List.filter_congr fun r _ => ?_
  rw [sameKey, compareKeys_eq (o.fits_keyOf r) h]

/-- Strictly ascending keys, one for each class of keys that has some property. -/
structure Enumerates (o : SortOrder) (keys : List (List Value)) (has : List Value → Prop) :
    Prop where
  fits : ∀ k ∈ keys, o.Fits k
  ascends : keys.Pairwise fun a b => o.compareKeys a b = .lt
  exhausts : ∀ key, o.Fits key → ((∃ k ∈ keys, o.sameKey k key) ↔ has key)

theorem Enumerates.congr {keys : List (List Value)} {p q : List Value → Prop}
    (h : o.Enumerates keys p) (hpq : ∀ key, o.Fits key → (p key ↔ q key)) : o.Enumerates keys q :=
  { h with exhausts := fun key hkey => (h.exhausts key hkey).trans (hpq key hkey) }

/-- The keys of the runs of some rows. -/
abbrev keysOf (o : SortOrder) (rows : List Row) : List (List Value) :=
  runKeys (compareAlong o.keys) o.keyOf rows

theorem enumerates_keysOf {rows : List Row} (h : o.Sorted rows) :
    o.Enumerates (o.keysOf rows) fun key => o.group key rows ≠ [] := by
  have hfits : ∀ k ∈ o.keysOf rows, o.Fits k := fun k hk => by
    obtain ⟨r, -, rfl⟩ := exists_mem_of_mem_runKeys hk
    exact o.fits_keyOf r
  refine ⟨hfits, ?_, fun key hkey => ?_⟩
  · refine (Ascending.pairwise_runKeys h).imp_of_mem fun ha hb hab => ?_
    rwa [compareKeys_eq (hfits _ ha) (hfits _ hb)]
  · have hruns : (∃ k ∈ o.keysOf rows, compareAlong o.keys k key = .eq) ↔ o.rowsOf key rows ≠ [] :=
      exists_runKey_iff
    rw [group_eq_rowsOf hkey, ← hruns]
    exact exists_congr fun k => and_congr_right fun hk => sameKey_iff (hfits k hk) hkey

theorem rowsOf_keyOf_congr {o p : SortOrder} (h : ∀ n, n ∈ o.columns ↔ n ∈ p.columns) (r : Row)
    (rows : List Row) : o.rowsOf (o.keyOf r) rows = p.rowsOf (p.keyOf r) rows := by
  unfold rowsOf classOf
  congr 1
  funext a
  rw [Bool.eq_iff_iff, beq_iff_eq, beq_iff_eq, compareAlong_eq_iff, compareAlong_eq_iff]
  simp only [h]

theorem rowsOf_keyOf {rows : List Row} {r : Row} (hrows : ∀ a ∈ rows, o.Covers a)
    (hr : o.Covers r) : o.rowsOf (o.keyOf r) rows = rows.filter (o.compare · r == .eq) :=
  List.filter_congr fun a ha => by rw [compare_eq (hrows a ha) hr]

/-- Sorted rows are those that were given, none precedes one before it, and those that the order
does not tell apart are as they were. -/
theorem sort_stable {rows : List Row} (h : ∀ r ∈ rows, o.Covers r) :
    (o.sort rows).Perm rows ∧ ((o.sort rows).Pairwise fun a b => o.compare a b ≠ .gt) ∧
      ∀ r, o.Covers r →
        (o.sort rows).filter (o.compare · r == .eq) = rows.filter (o.compare · r == .eq) := by
  have hsort : ∀ r ∈ o.sort rows, o.Covers r := fun r hr => h r ((o.sort_perm rows).subset hr)
  obtain ⟨hsorted, hclass⟩ := sorted_sort h
  refine ⟨o.sort_perm rows, (sorted_iff hsort).mp hsorted, fun r hr => ?_⟩
  rw [← rowsOf_keyOf hsort hr, ← rowsOf_keyOf h hr]
  exact hclass (o.keyOf r)

section

variable {p : SortOrder} {rows : List Row}

theorem insert_congr {sorted : List Row} {r : Row}
    (h : ∀ a ∈ sorted, o.compare r a = p.compare r a) : o.insert sorted r = p.insert sorted r := by
  induction sorted with
  | nil => rfl
  | cons last rest ih =>
    rw [List.forall_mem_cons] at h
    rw [insert, insert, h.1, ih h.2]

theorem foldl_insert_congr {all sorted : List Row} (hrows : rows ⊆ all) (hsorted : sorted ⊆ all)
    (h : ∀ a ∈ all, ∀ b ∈ all, o.compare a b = p.compare a b) :
    rows.foldl o.insert sorted = rows.foldl p.insert sorted := by
  induction rows generalizing sorted with
  | nil => rfl
  | cons r rows ih =>
    rw [List.cons_subset] at hrows
    have hinsert := insert_congr fun a ha => h r hrows.1 a (hsorted ha)
    rw [List.foldl_cons, List.foldl_cons, ← hinsert]
    refine ih hrows.2 fun a ha => ?_
    rcases List.mem_cons.mp ((o.insert_perm sorted r).subset ha) with rfl | ha
    · exact hrows.1
    · exact hsorted ha

theorem sort_eq_of_compare (h : ∀ a ∈ rows, ∀ b ∈ rows, o.compare a b = p.compare a b) :
    o.sort rows = p.sort rows := by
  have hfew : o.sortFew rows = p.sortFew rows :=
    congrArg List.reverse (foldl_insert_congr (List.Subset.refl _) (List.nil_subset _) h)
  have hmany : o.sortMany rows = p.sortMany rows := by
    have hmap := List.map_mergeSort (r := fun a b => o.compare a b != .gt)
      (s := fun a b => p.compare a b != .gt) (f := id) (l := rows) fun a ha b hb => by
        rw [h a ha b hb]
        rfl
    simpa [sortMany] using hmap
  rw [sort, sort, hfew, hmany]

end

/-- The keys of an order that a schema has columns for. -/
def within (o : SortOrder) (s : Schema) : SortOrder :=
  ⟨o.keys.filter fun k => s.contains k.column.name⟩

theorem covers_within (o : SortOrder) (r : Row) : (o.within r.schema).Covers r := by
  intro n hn
  obtain ⟨k, hk, rfl⟩ := List.mem_map.mp hn
  exact Row.value?_isSome_iff.mpr (Schema.contains_iff.mp (List.mem_filter.mp hk).2)

theorem compare_within (o : SortOrder) (a b : Row) :
    (o.within a.schema).compare a b = o.compare a b := by
  obtain ⟨ks⟩ := o
  simp only [within, compare]
  induction ks with
  | nil => rfl
  | cons k ks ih =>
    cases hk : a.schema.contains k.column.name with
    | true => rw [List.filter_cons_of_pos (by simpa using hk), List.foldr_cons, List.foldr_cons, ih]
    | false =>
      have habsent : a.value? k.column.name = none := by
        rw [← Option.not_isSome_iff_eq_none, Row.value?_isSome_iff, ← Schema.contains_iff, hk]
        exact Bool.false_ne_true
      have htie : compareBy k a b = .eq := by rw [compareBy, habsent]
      rw [List.filter_cons_of_neg (by simp [hk]), List.foldr_cons, ih, htie]
      rfl

/-- Rows of one schema are sorted stably by any order, also by columns that none of them has. -/
theorem sort_stable_of_schema {s : Schema} {rows : List Row} (h : ∀ r ∈ rows, r.schema = s) :
    ((o.sort rows).Pairwise fun a b => o.compare a b ≠ .gt) ∧
      ∀ r, r.schema = s →
        (o.sort rows).filter (o.compare · r == .eq) = rows.filter (o.compare · r == .eq) := by
  have hwithin {a : Row} (ha : a.schema = s) (b : Row) :
      (o.within s).compare a b = o.compare a b := ha ▸ o.compare_within a b
  have hcover {r : Row} (hr : r.schema = s) : (o.within s).Covers r := hr ▸ o.covers_within r
  have hsort : (o.within s).sort rows = o.sort rows :=
    sort_eq_of_compare fun a ha b _ => hwithin (h a ha) b
  have hsorted : ∀ r ∈ o.sort rows, r.schema = s := fun r hr => h r ((o.sort_perm rows).subset hr)
  obtain ⟨-, hfollows, hties⟩ := sort_stable fun r hr => hcover (h r hr)
  rw [hsort] at hfollows hties
  refine ⟨hfollows.imp_of_mem fun ha _ hab => hwithin (hsorted _ ha) _ ▸ hab, fun r hr => ?_⟩
  have hfilter {l : List Row} (hl : ∀ a ∈ l, a.schema = s) :
      l.filter (o.compare · r == .eq) = l.filter ((o.within s).compare · r == .eq) :=
    List.filter_congr fun a ha => by rw [hwithin (hl a ha)]
  rw [hfilter hsorted, hfilter h]
  exact hties r (hcover hr)

end SortOrder
end DatasetAlgebra
