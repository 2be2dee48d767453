import DatasetAlgebra.Proofs.Dataset.Requests
import DatasetAlgebra.Proofs.Join.Merging

/-!
Joins of two lists of rows, each row with the key that the order gives it. What a merge join of
two sequences gives is the join of what they give.
-/
namespace DatasetAlgebra

namespace MergeJoin

open KeyReader (keyed)

/-- The join of two lists of rows. -/
def joined (m : MergeJoin) (left right : List Row) : List Row :=
  (m.matching.classwise (left.map (keyed m.order)) (right.map (keyed m.order))).map KeyedRow.row

/-- The order goes by columns of both sides and of the result, which right rows give up their
values to. -/
structure Spans (m : MergeJoin) (rs : Schema) : Prop where
  right : m.merger.right = some rs
  ofLeft : ∀ n ∈ m.order.columns, n ∈ m.merger.left.names
  ofRight : ∀ n ∈ m.order.columns, n ∈ rs.names
  ofOutput : ∀ n ∈ m.order.columns, n ∈ m.merger.output.names

variable {m : MergeJoin} {rs : Schema} {left right : List Row}

theorem keyOf_merge_left (hm : m.Spans rs) {a : Row} (ha : a.schema = m.merger.left) :
    m.order.keyOf (m.merger.merge (some a) none) = m.order.keyOf a :=
  RowMerger.keyOf_merge_left ha.symm hm.ofOutput (covers_of_schema ha hm.ofLeft)

theorem keyOf_merge_right (hm : m.Spans rs) {b : Row} (hb : b.schema = rs) (l : Option Row) :
    m.order.keyOf (m.merger.merge l (some b)) = m.order.keyOf b :=
  RowMerger.keyOf_merge_right (hb ▸ hm.right) hm.ofOutput (covers_of_schema hb hm.ofRight)

theorem mem_joined {r : Row} (h : r ∈ m.joined left right) :
    (∃ a ∈ left, r = m.merger.merge (some a) none) ∨
      ∃ b ∈ right, ∃ l : Option Row, (∀ a ∈ l, a ∈ left) ∧ r = m.merger.merge l (some b) := by
  obtain ⟨x, hx, rfl⟩ := List.mem_map.mp h
  rcases Matching.joins_of_mem_classwise hx with ⟨a, ha, rfl⟩ | ⟨b, hb, rfl⟩ | ⟨a, ha, b, hb, rfl⟩
  · obtain ⟨a, hal, rfl⟩ := List.mem_map.mp ha
    exact .inl ⟨a, hal, rfl⟩
  · obtain ⟨b, hbr, rfl⟩ := List.mem_map.mp hb
    exact .inr ⟨b, hbr, none, by simp, rfl⟩
  · obtain ⟨a, hal, rfl⟩ := List.mem_map.mp ha
    obtain ⟨b, hbr, rfl⟩ := List.mem_map.mp hb
    exact .inr ⟨b, hbr, some a, by simpa using hal, rfl⟩

theorem map_keyed_joined (hm : m.Spans rs) (hl : ∀ r ∈ left, r.schema = m.merger.left)
    (hr : ∀ r ∈ right, r.schema = rs) :
    (m.joined left right).map (keyed m.order) =
      m.matching.classwise (left.map (keyed m.order)) (right.map (keyed m.order)) := by
  rw [joined, List.map_map]
  refine (List.map_congr_left fun x hx => ?_).trans (List.map_id _)
  rcases Matching.joins_of_mem_classwise hx with ⟨a, ha, rfl⟩ | ⟨b, hb, rfl⟩ | ⟨a, ha, b, hb, rfl⟩
  · obtain ⟨a, hal, rfl⟩ := List.mem_map.mp ha
    simp [keyed, keyOf_merge_left hm (hl a hal)]
  · obtain ⟨b, hbr, rfl⟩ := List.mem_map.mp hb
    simp [keyed, keyOf_merge_right hm (hr b hbr)]
  · obtain ⟨b, hbr, rfl⟩ := List.mem_map.mp hb
    simp [keyed, keyOf_merge_right hm (hr b hbr)]

theorem map_row_keyed (o : SortOrder) (rows : List Row) :
    (rows.map (keyed o)).map KeyedRow.row = rows := by
  rw [List.map_map]
  exact List.map_id rows

theorem ascends_map_keyed {rows : List Row} :
    m.matching.Ascends (rows.map (keyed m.order)) ↔ m.order.Sorted rows := by
  simp [Matching.Ascends, Matching.cmp, SortOrder.Sorted, Ascending, List.pairwise_map, keyed]

theorem classOf_map_keyed (k : List Value) (rows : List Row) :
    classOf m.matching.cmp KeyedRow.key k (rows.map (keyed m.order)) =
      (m.order.rowsOf k rows).map (keyed m.order) := by
  simp [Matching.cmp, SortOrder.rowsOf, classOf, List.filter_map, Function.comp_def, keyed]

theorem sorted_joined (hm : m.Spans rs) (hl : ∀ r ∈ left, r.schema = m.merger.left)
    (hr : ∀ r ∈ right, r.schema = rs) (hls : m.order.Sorted left) (hrs : m.order.Sorted right) :
    m.order.Sorted (m.joined left right) := by
  rw [← ascends_map_keyed, map_keyed_joined hm hl hr]
  exact Matching.ascends_classwise (ascends_map_keyed.mpr hls) (ascends_map_keyed.mpr hrs)

theorem rowsOf_joined (hm : m.Spans rs) (hl : ∀ r ∈ left, r.schema = m.merger.left)
    (hr : ∀ r ∈ right, r.schema = rs) (hls : m.order.Sorted left) (hrs : m.order.Sorted right)
    (k : List Value) :
    m.order.rowsOf k (m.joined left right) =
      m.matching.block (m.order.rowsOf k left) (m.order.rowsOf k right) := by
  have hclass := Matching.classOf_classwise (ascends_map_keyed.mpr hls) (ascends_map_keyed.mpr hrs) k
  rw [← map_keyed_joined hm hl hr, classOf_map_keyed, classOf_map_keyed,
    classOf_map_keyed] at hclass
  have hrows := congrArg (List.map KeyedRow.row) hclass
  rwa [Matching.map_row_crossed, map_row_keyed, map_row_keyed, map_row_keyed] at hrows

theorem fit_map_keyed (rows : List Row) : m.matching.Fit (rows.map (keyed m.order)) := by
  intro x hx
  obtain ⟨r, -, rfl⟩ := List.mem_map.mp hx
  exact m.order.fits_keyOf r

/-- A merge join of two sequences gives a beginning of the join of their rows, and all of it if
neither fails. -/
theorem rows_spec {lk rk : KeyReader} {l r : Delayed Rows} (hlk : lk.Reads m.merger.left m.order)
    (hrk : rk.Reads rs m.order) (hl : ∀ row ∈ (l ()).flow, row.schema = m.merger.left)
    (hr : ∀ row ∈ (r ()).flow, row.schema = rs) :
    (m.rows lk rk l r).flow <+: m.joined (l ()).collect.rows (r ()).collect.rows ∧
      ((l ()).collect.failure = none → (r ()).collect.failure = none →
        (m.rows lk rk l r).collect.rows = m.joined (l ()).collect.rows (r ()).collect.rows ∧
          (m.rows lk rk l r).collect.failure = none) := by
  obtain ⟨hli, hlf⟩ := hlk.feed hl
  obtain ⟨hri, hrf⟩ := hrk.feed hr
  obtain ⟨rest, hrows, hwhole⟩ := m.matching.join_begins (lk.feed (l ())) (rk.feed (r ()))
    (hli ▸ fit_map_keyed _) (hri ▸ fit_map_keyed _)
  rw [hli, hri] at hrows
  obtain ⟨hcollect, hfailure⟩ := Feed.collect_rowsAfter []
    (m.matching.join none (lk.feed (l ())) (rk.feed (r ())))
  refine ⟨⟨rest, ?_⟩, fun hlnone hrnone => ?_⟩
  · rw [rows, Matching.rows, Feed.toRows, Feed.flow_rowsAfter, ← hrows, joined]
  · obtain ⟨hrest, hnone⟩ := hwhole ⟨hlf.trans hlnone, hrf.trans hrnone⟩
    rw [hrest, List.append_nil] at hrows
    exact ⟨by rw [rows, Matching.rows, Feed.toRows, hcollect, ← hrows, joined], hfailure.trans hnone⟩

end MergeJoin
end DatasetAlgebra
