import DatasetAlgebra.Proofs.Dataset.Tables
import DatasetAlgebra.Proofs.Join.Merging
import DatasetAlgebra.Proofs.SortOrder.Sorting
import DatasetAlgebra.Proofs.Stream.Given
import Mathlib.Data.List.Chain

/-!
A merge join of any two sequences that do not fail and whose keys do not descend, whatever rows are
merged to and whichever side is kept without a match: key by key, all pairs of the rows that both
sides have of it, or the rows that one side alone has.
-/
namespace DatasetAlgebra

namespace KeyReader

theorem length_components {r : Row} {columns : List (String × Nat)} {key : List Value}
    (h : components r columns = .ok key) : key.length = columns.length := by
  induction columns generalizing key with
  | nil =>
    cases h
    rfl
  | cons column columns ih =>
    obtain ⟨v, -, h⟩ := bind_eq_ok.mp h
    obtain ⟨rest, hrest, h⟩ := bind_eq_ok.mp h
    cases h
    rw [List.length_cons, List.length_cons, ih hrest]

end KeyReader

namespace Matching

variable {m : Matching} {k : KeyReader} {rows : Rows} {given left right : List KeyedRow}

/-- A sequence that gives some rows and does not fail. Every row has a key with a value for each key
of the order, none before the one read ahead of it. -/
structure Presents (m : Matching) (k : KeyReader) (rows : Rows) (given : List KeyedRow) :
    Prop where
  size : k.size = m.order.keys.length
  unfailing : rows.collect.failure = none
  rows : rows.collect.rows = given.map KeyedRow.row
  keys : ∀ x ∈ given, k.read x.row = .ok x.key
  ascends : given.IsChain fun x y => m.order.compareKeys x.key y.key ≠ .gt

theorem feed_given (hf : rows.collect.failure = none)
    (hr : rows.collect.rows = given.map KeyedRow.row)
    (hk : ∀ x ∈ given, k.read x.row = .ok x.key) :
    (k.feed rows).items = given ∧ (k.feed rows).failure = none := by
  induction rows generalizing given with
  | ended e => exact ⟨(List.map_eq_nil_iff.mp hr.symm).symm, rfl⟩
  | poll p rest ih =>
    obtain ⟨es, item⟩ := p
    match item with
    | none => exact ⟨(List.map_eq_nil_iff.mp hr.symm).symm, rfl⟩
    | some (.error e) => simp [Rows.collect] at hf
    | some (.ok r) =>
      obtain ⟨x, more, rfl, rfl, hmore⟩ := List.map_eq_cons_iff.mp hr.symm
      rw [List.forall_mem_cons] at hk
      obtain ⟨hitems, hfailure⟩ := ih () hf hmore.symm hk.2
      simp [KeyReader.feed, hk.1, hitems, hfailure, Feed.failure]

theorem Presents.fit (h : m.Presents k rows given) : m.Fit given := fun x hx =>
  (KeyReader.length_components (h.keys x hx)).trans h.size

theorem Presents.sorted (h : m.Presents k rows given) : m.Ascends given := by
  have hle : given.IsChain fun x y => (m.cmp x.key y.key).isLE :=
    h.ascends.imp_of_mem_imp fun x y hx hy hxy => by
      rwa [cmp, ← SortOrder.compareKeys_eq (h.fit x hx) (h.fit y hy), Ordering.isLE_iff_ne_gt]
  have : IsTrans KeyedRow fun x y => (m.cmp x.key y.key).isLE :=
    ⟨fun _ _ _ => Std.TransCmp.isLE_trans⟩
  exact List.isChain_iff_pairwise.mp hle

/-- The rows of one key. -/
def withKey (m : Matching) (key : List Value) (given : List KeyedRow) : List Row :=
  (given.filter fun x => m.order.sameKey x.key key).map KeyedRow.row

theorem withKey_eq (h : m.Fit given) {key : List Value} (hkey : m.order.Fits key) :
    m.withKey key given = (classOf m.cmp KeyedRow.key key given).map KeyedRow.row := by
  refine congrArg (List.map KeyedRow.row) (List.filter_congr fun x hx => ?_)
  rw [SortOrder.sameKey, SortOrder.compareKeys_eq (h x hx) hkey]

/-- The same matching with all rows kept. -/
def full (m : Matching) : Matching := { m with keepsLeft := true, keepsRight := true }

theorem crossed_full_ne_nil : m.full.crossed left right ≠ [] ↔ left ≠ [] ∨ right ≠ [] := by
  match left, right with
  | [], [] => simp
  | [], b :: right => simp [aloneRight, onlyRight, full]
  | a :: left, [] => simp [aloneLeft, onlyLeft, full]
  | a :: left, b :: right => simp [crossed, pairs]

/-- The keys of two sides. -/
def keys (m : Matching) (left right : List KeyedRow) : List (List Value) :=
  runKeys m.cmp KeyedRow.key (m.full.classwise left right)

theorem fits_keys (hl : m.Fit left) (hr : m.Fit right) :
    ∀ key ∈ m.keys left right, m.order.Fits key := by
  intro key hkey
  obtain ⟨x, hx, rfl⟩ := exists_mem_of_mem_runKeys hkey
  obtain ⟨y, hy, hxy⟩ := (joins_of_mem_classwise hx).key
  rw [hxy]
  exact (List.mem_append.mp hy).elim (hl y) (hr y)

theorem exists_key_iff (hl : m.Ascends left) (hr : m.Ascends right) {key : List Value} :
    (∃ k ∈ m.keys left right, m.cmp k key = .eq) ↔
      classOf m.cmp KeyedRow.key key left ≠ [] ∨ classOf m.cmp KeyedRow.key key right ≠ [] := by
  have hclass : classOf m.cmp KeyedRow.key key (m.full.classwise left right) =
      m.full.crossed (classOf m.cmp KeyedRow.key key left)
        (classOf m.cmp KeyedRow.key key right) := classOf_classwise (m := m.full) hl hr key
  rw [keys, exists_runKey_iff, hclass, crossed_full_ne_nil]

/-- The keys of both sides ascend and leave none out. -/
theorem enumerates_keys (hl : m.Ascends left) (hr : m.Ascends right) (hlf : m.Fit left)
    (hrf : m.Fit right) : m.order.Enumerates (m.keys left right) fun key =>
      m.withKey key left ≠ [] ∨ m.withKey key right ≠ [] where
  fits := fits_keys hlf hrf
  ascends := by
    have hascends : (m.keys left right).Pairwise fun j k => m.cmp j k = .lt :=
      Ascending.pairwise_runKeys (ascends_classwise (m := m.full) hl hr)
    refine hascends.imp_of_mem fun hj hk hjk => ?_
    rwa [SortOrder.compareKeys_eq (fits_keys hlf hrf _ hj) (fits_keys hlf hrf _ hk)]
  exhausts key hkey := by
    rw [withKey_eq hlf hkey, withKey_eq hrf hkey, Ne, List.map_eq_nil_iff, Ne,
      List.map_eq_nil_iff, ← Ne, ← Ne, ← exists_key_iff hl hr]
    exact exists_congr fun k => and_congr_right fun hk =>
      SortOrder.sameKey_iff (fits_keys hlf hrf k hk) hkey

theorem classwise_eq_flatMap (hl : m.Ascends left) (hr : m.Ascends right) :
    m.classwise left right = (m.keys left right).flatMap fun key =>
      m.crossed (classOf m.cmp KeyedRow.key key left) (classOf m.cmp KeyedRow.key key right) := by
  have hkeys : (m.keys left right).Pairwise fun j k => m.cmp j k = .lt :=
    Ascending.pairwise_runKeys (ascends_classwise (m := m.full) hl hr)
  have hcover : ∀ x ∈ m.classwise left right, ∃ k ∈ m.keys left right, m.cmp x.key k = .eq := by
    intro x hx
    obtain ⟨y, hy, hkey⟩ := (joins_of_mem_classwise hx).key
    have hclass (side : List KeyedRow) (hside : y ∈ side) :
        classOf m.cmp KeyedRow.key x.key side ≠ [] :=
      List.ne_nil_of_mem ((mem_classOf _ _).mpr
        ⟨hside, hkey ▸ Std.ReflCmp.compare_self⟩)
    obtain ⟨k, hk, heq⟩ := (exists_key_iff hl hr).mpr
      ((List.mem_append.mp hy).imp (hclass left) (hclass right))
    exact ⟨k, hk, Std.OrientedCmp.eq_symm heq⟩
  refine (Ascending.eq_flatMap_of_covers (ascends_classwise hl hr) hkeys hcover).trans ?_
  exact List.flatMap_congr fun key _ => classOf_classwise hl hr key

theorem map_row_classwise (hl : m.Ascends left) (hr : m.Ascends right) (hlf : m.Fit left)
    (hrf : m.Fit right) :
    (m.classwise left right).map KeyedRow.row = (m.keys left right).flatMap fun key =>
      m.block (m.withKey key left) (m.withKey key right) := by
  rw [classwise_eq_flatMap hl hr, List.map_flatMap]
  refine List.flatMap_congr fun key hkey => ?_
  rw [map_row_crossed, withKey_eq hlf (fits_keys hlf hrf key hkey),
    withKey_eq hrf (fits_keys hlf hrf key hkey)]

/-- A merge join gives the keys of both sides in ascending order, and for each all pairs of its left
and right rows, or those of a kept side alone, and then nothing. -/
theorem rows_give_blocks {m : Matching} {lk rk : KeyReader} {l r : Delayed Rows}
    {left right : List KeyedRow} (hl : m.Presents lk (l ()) left)
    (hr : m.Presents rk (r ()) right) :
    ∃ keys, m.order.Enumerates keys
        (fun key => m.withKey key left ≠ [] ∨ m.withKey key right ≠ []) ∧
      (m.rows lk rk l r).Gives (keys.flatMap fun key =>
        m.block (m.withKey key left) (m.withKey key right)) := by
  have hkeys := enumerates_keys hl.sorted hr.sorted hl.fit hr.fit
  obtain ⟨hli, hlf⟩ := feed_given hl.unfailing hl.rows hl.keys
  obtain ⟨hri, hrf⟩ := feed_given hr.unfailing hr.rows hr.keys
  obtain ⟨rest, hrows, hwhole⟩ := m.join_begins (lk.feed (l ())) (rk.feed (r ()))
    (hli ▸ hl.fit) (hri ▸ hr.fit)
  obtain ⟨rfl, hnone⟩ := hwhole ⟨hlf, hrf⟩
  obtain ⟨hcollect, hfailure⟩ := Feed.collect_rowsAfter []
    (m.join none (lk.feed (l ())) (rk.feed (r ())))
  have hgiven : (m.rows lk rk l r).collect.rows =
      (m.keys left right).flatMap fun key =>
        m.block (m.withKey key left) (m.withKey key right) := by
    calc (m.rows lk rk l r).collect.rows
        = (m.classwise left right).map KeyedRow.row := by
          rw [rows, Feed.toRows, hcollect, ← hli, ← hri, hrows, List.append_nil]
      _ = _ := map_row_classwise hl.sorted hr.sorted hl.fit hr.fit
  refine ⟨m.keys left right, hkeys, ?_⟩
  have hdrain := Rows.items_drain_of_failure_eq_none (hfailure.trans hnone)
  exact (Feed.rests_rowsAfter [] _).gives (hdrain.trans (congrArg (List.map Except.ok) hgiven))

/-- Counts with their identifiers as keys. -/
def countRows (counts : List (Int64 × Int64)) : List KeyedRow :=
  counts.map fun (id, n) => ⟨[.ofInt64 id], Table.countRow id n⟩

/-- Only right rows are kept without a match, and each row is merged to one of its sides. -/
def rightOnly : Matching where
  order := .ascending Table.countSchema.identifiers
  keepsLeft := false
  keepsRight := true
  merge left right := (left.or right).getD (Table.countRow 0 0)

theorem presents_counts {counts : List (Int64 × Int64)}
    (h : (countRows counts).IsChain fun x y => rightOnly.order.compareKeys x.key y.key ≠ .gt) :
    rightOnly.Presents ⟨[("id", 0)]⟩ (.ofRows ((countRows counts).map KeyedRow.row))
      (countRows counts) where
  size := rfl
  unfailing := (Rows.gives_ofRows _).failure
  rows := (Rows.gives_ofRows _).collected
  keys x hx := by
    obtain ⟨⟨id, n⟩, -, rfl⟩ := List.mem_map.mp hx
    rfl
  ascends := h

/-- Two left rows that match, one that does not, and a right row that does not. -/
theorem rows_give_blocks_counts :
    let left := countRows [(1, 10), (1, 20), (3, 30)]
    let right := countRows [(1, 5), (2, 6)]
    ∃ keys, rightOnly.order.Enumerates keys
        (fun key => rightOnly.withKey key left ≠ [] ∨ rightOnly.withKey key right ≠ []) ∧
      (rightOnly.rows ⟨[("id", 0)]⟩ ⟨[("id", 0)]⟩ (fun _ => .ofRows (left.map KeyedRow.row))
          fun _ => .ofRows (right.map KeyedRow.row)).Gives
        (keys.flatMap fun key =>
          rightOnly.block (rightOnly.withKey key left) (rightOnly.withKey key right)) := by
  intro left right
  exact rows_give_blocks (presents_counts (by decide)) (presents_counts (by decide))

end Matching
end DatasetAlgebra
