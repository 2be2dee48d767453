import DatasetAlgebra.Join.MergeJoin
import DatasetAlgebra.Proofs.SortOrder.Classes
import DatasetAlgebra.Proofs.SortOrder.Keys

/-!
Joins class by class. `classwise` joins two lists whose heads have the least keys. On sides that
ascend it ascends too, and its rows of one key come from the rows of that key on both sides alone.
-/
namespace DatasetAlgebra

namespace Matching

/-- The total preorder of the keys of a join. -/
abbrev cmp (m : Matching) : List Value → List Value → Ordering :=
  SortOrder.compareAlong m.order.keys

/-- Rows ascend by the keys they were given. -/
abbrev Ascends (m : Matching) (rows : List KeyedRow) : Prop := Ascending m.cmp KeyedRow.key rows

def aloneLeft (m : Matching) (a : KeyedRow) : List KeyedRow :=
  (m.onlyLeft a).map (KeyedRow.mk a.key)

def aloneRight (m : Matching) (b : KeyedRow) : List KeyedRow :=
  (m.onlyRight b).map (KeyedRow.mk b.key)

/-- A left row with each of some right rows. -/
def pairs (m : Matching) (right : List KeyedRow) (a : KeyedRow) : List KeyedRow :=
  right.map fun b => ⟨b.key, m.merge (some a.row) (some b.row)⟩

/-- The rows of one key from those of both sides. -/
def crossed (m : Matching) : List KeyedRow → List KeyedRow → List KeyedRow
  | [], right => right.flatMap m.aloneRight
  | a :: left, [] => (a :: left).flatMap m.aloneLeft
  | a :: left, b :: right => (a :: left).flatMap (m.pairs (b :: right))

@[simp] theorem crossed_nil_left (m : Matching) (right : List KeyedRow) :
    m.crossed [] right = right.flatMap m.aloneRight := rfl

@[simp] theorem crossed_nil_right (m : Matching) (left : List KeyedRow) :
    m.crossed left [] = left.flatMap m.aloneLeft := by cases left <;> rfl

/-- The rows of one key: all pairs of a row of either side, or the rows of one side alone. -/
def block (m : Matching) : List Row → List Row → List Row
  | [], right => if m.keepsRight then right.map fun b => m.merge none (some b) else []
  | left, [] => if m.keepsLeft then left.map fun a => m.merge (some a) none else []
  | left, right => left.flatMap fun a => right.map fun b => m.merge (some a) (some b)

theorem block_nil_right (m : Matching) (left : List Row) :
    m.block left [] = if m.keepsLeft then left.map fun a => m.merge (some a) none else [] := by
  cases left <;> simp [block]

theorem block_of_ne_nil (m : Matching) {left right : List Row} (hl : left ≠ []) (hr : right ≠ []) :
    m.block left right =
      left.flatMap fun a => right.map fun b => m.merge (some a) (some b) := by
  obtain ⟨a, left, rfl⟩ := List.exists_cons_of_ne_nil hl
  obtain ⟨b, right, rfl⟩ := List.exists_cons_of_ne_nil hr
  rfl

theorem map_row_crossed (m : Matching) (left right : List KeyedRow) :
    (m.crossed left right).map KeyedRow.row =
      m.block (left.map KeyedRow.row) (right.map KeyedRow.row) := by
  match left, right with
  | [], right =>
    rw [crossed_nil_left, List.map_flatMap]
    cases hk : m.keepsRight <;> simp [block, aloneRight, onlyRight, hk, ← List.map_eq_flatMap]
  | a :: left, [] =>
    rw [crossed_nil_right, List.map_flatMap]
    cases hk : m.keepsLeft <;> simp [block, aloneLeft, onlyLeft, hk, ← List.map_eq_flatMap]
  | a :: left, b :: right =>
    simp [crossed, block, pairs, List.map_flatMap, List.flatMap_map, Function.comp_def]

/-- The join of two lists, the least key first. -/
def classwise (m : Matching) : List KeyedRow → List KeyedRow → List KeyedRow
  | [], right => right.flatMap m.aloneRight
  | a :: left, [] => (a :: left).flatMap m.aloneLeft
  | a :: left, b :: right =>
    match m.cmp a.key b.key with
    | .lt => m.aloneLeft a ++ m.classwise left (b :: right)
    | .gt => m.aloneRight b ++ m.classwise (a :: left) right
    | .eq =>
      let same := sameAs m.cmp KeyedRow.key a.key
      m.crossed (a :: left.takeWhile same) (b :: right.takeWhile same) ++
        m.classwise (left.dropWhile same) (right.dropWhile same)
termination_by left right => left.length + right.length
decreasing_by
  · simp
  · simp
  · have hl := (List.dropWhile_suffix (sameAs m.cmp KeyedRow.key a.key) (l := left)).length_le
    have hr := (List.dropWhile_suffix (sameAs m.cmp KeyedRow.key a.key) (l := right)).length_le
    simp only [List.length_cons]
    omega

@[simp] theorem classwise_nil_left (m : Matching) (right : List KeyedRow) :
    m.classwise [] right = right.flatMap m.aloneRight := by rw [classwise]

@[simp] theorem classwise_nil_right (m : Matching) (left : List KeyedRow) :
    m.classwise left [] = left.flatMap m.aloneLeft := by cases left <;> simp [classwise]

variable {m : Matching}

theorem mem_aloneLeft {a x : KeyedRow} (h : x ∈ m.aloneLeft a) :
    x = ⟨a.key, m.merge (some a.row) none⟩ := by
  by_cases hk : m.keepsLeft <;> simp_all [aloneLeft, onlyLeft]

theorem mem_aloneRight {b x : KeyedRow} (h : x ∈ m.aloneRight b) :
    x = ⟨b.key, m.merge none (some b.row)⟩ := by
  by_cases hk : m.keepsRight <;> simp_all [aloneRight, onlyRight]

theorem key_of_mem_aloneLeft (a : KeyedRow) : ∀ x ∈ m.aloneLeft a, x.key = a.key :=
  fun _ hx => by rw [mem_aloneLeft hx]

theorem key_of_mem_aloneRight (b : KeyedRow) : ∀ x ∈ m.aloneRight b, x.key = b.key :=
  fun _ hx => by rw [mem_aloneRight hx]

theorem cmp_of_mem_aloneLeft (a : KeyedRow) : ∀ x ∈ m.aloneLeft a, m.cmp x.key a.key = .eq :=
  fun x hx => by
    rw [key_of_mem_aloneLeft a x hx]
    exact Std.ReflCmp.compare_self

theorem cmp_of_mem_aloneRight (b : KeyedRow) : ∀ x ∈ m.aloneRight b, m.cmp x.key b.key = .eq :=
  fun x hx => by
    rw [key_of_mem_aloneRight b x hx]
    exact Std.ReflCmp.compare_self

/-- A joined row carries the key of a row of either side: of its right row if it has one. -/
def Joins (m : Matching) (left right : List KeyedRow) (x : KeyedRow) : Prop :=
  (∃ a ∈ left, x = ⟨a.key, m.merge (some a.row) none⟩) ∨
    (∃ b ∈ right, x = ⟨b.key, m.merge none (some b.row)⟩) ∨
    ∃ a ∈ left, ∃ b ∈ right, x = ⟨b.key, m.merge (some a.row) (some b.row)⟩

theorem Joins.mono {l l' r r' : List KeyedRow} {x : KeyedRow} (h : m.Joins l r x) (hl : l ⊆ l')
    (hr : r ⊆ r') : m.Joins l' r' x := by
  rcases h with ⟨a, ha, hx⟩ | ⟨b, hb, hx⟩ | ⟨a, ha, b, hb, hx⟩
  · exact .inl ⟨a, hl ha, hx⟩
  · exact .inr (.inl ⟨b, hr hb, hx⟩)
  · exact .inr (.inr ⟨a, hl ha, b, hr hb, hx⟩)

theorem joins_of_mem_crossed {left right : List KeyedRow} {x : KeyedRow}
    (h : x ∈ m.crossed left right) : m.Joins left right x := by
  match left, right with
  | [], right =>
    obtain ⟨b, hb, hx⟩ := List.mem_flatMap.mp h
    exact .inr (.inl ⟨b, hb, mem_aloneRight hx⟩)
  | a :: left, [] =>
    obtain ⟨c, hc, hx⟩ := List.mem_flatMap.mp h
    exact .inl ⟨c, hc, mem_aloneLeft hx⟩
  | a :: left, b :: right =>
    obtain ⟨c, hc, hx⟩ := List.mem_flatMap.mp h
    obtain ⟨d, hd, rfl⟩ := List.mem_map.mp hx
    exact .inr (.inr ⟨c, hc, d, hd, rfl⟩)

theorem joins_of_mem_classwise {left right : List KeyedRow} {x : KeyedRow}
    (h : x ∈ m.classwise left right) : m.Joins left right x := by
  induction left, right using classwise.induct m with
  | case1 right => exact joins_of_mem_crossed (by simpa using h)
  | case2 a left => exact joins_of_mem_crossed (by simpa using h)
  | case3 a left b right hab ih =>
    simp only [classwise, hab, List.mem_append] at h
    rcases h with h | h
    · exact .inl ⟨a, by simp, mem_aloneLeft h⟩
    · exact (ih h).mono (by simp) (by simp)
  | case4 a left b right hab ih =>
    simp only [classwise, hab, List.mem_append] at h
    rcases h with h | h
    · exact .inr (.inl ⟨b, by simp, mem_aloneRight h⟩)
    · exact (ih h).mono (by simp) (by simp)
  | case5 a left b right hab same ih =>
    simp only [classwise, hab, List.mem_append] at h
    rcases h with h | h
    · refine (joins_of_mem_crossed h).mono ?_ ?_ <;>
        exact List.cons_subset_cons _ (List.takeWhile_sublist _).subset
    · refine (ih h).mono ?_ ?_ <;>
        exact List.subset_cons_of_subset _ (List.dropWhile_sublist _).subset

theorem Joins.key {left right : List KeyedRow} {x : KeyedRow} (h : m.Joins left right x) :
    ∃ y ∈ left ++ right, x.key = y.key := by
  rcases h with ⟨a, ha, rfl⟩ | ⟨b, hb, rfl⟩ | ⟨a, ha, b, hb, rfl⟩
  · exact ⟨a, by simp [ha], rfl⟩
  · exact ⟨b, by simp [hb], rfl⟩
  · exact ⟨b, by simp [hb], rfl⟩

theorem cmp_of_mem_crossed {left right : List KeyedRow} {k : List Value}
    (h : ∀ y ∈ left ++ right, m.cmp y.key k = .eq) :
    ∀ x ∈ m.crossed left right, m.cmp x.key k = .eq := by
  intro x hx
  obtain ⟨y, hy, hkey⟩ := (joins_of_mem_crossed hx).key
  rw [hkey]
  exact h y hy

theorem cmp_of_mem_runs {a b : KeyedRow} {left right : List KeyedRow}
    (hab : m.cmp a.key b.key = .eq) :
    ∀ y ∈ (a :: left.takeWhile (sameAs m.cmp KeyedRow.key a.key)) ++
      (b :: right.takeWhile (sameAs m.cmp KeyedRow.key a.key)), m.cmp y.key a.key = .eq := by
  intro y hy
  rcases List.mem_append.mp hy with hy | hy
  · exact eq_of_mem_run hy
  · rw [sameAs_congr KeyedRow.key hab] at hy
    exact Std.TransCmp.eq_trans (eq_of_mem_run hy) (Std.OrientedCmp.eq_symm hab)

/-- The rows of one key come from the rows of that key on both sides. -/
theorem classOf_classwise {left right : List KeyedRow} (hl : m.Ascends left)
    (hr : m.Ascends right) (k : List Value) :
    classOf m.cmp KeyedRow.key k (m.classwise left right) =
      m.crossed (classOf m.cmp KeyedRow.key k left) (classOf m.cmp KeyedRow.key k right) := by
  induction left, right using classwise.induct m with
  | case1 right =>
    rw [classwise_nil_left, classOf_nil, crossed_nil_left]
    exact classOf_flatMap key_of_mem_aloneRight k right
  | case2 a left =>
    rw [classwise_nil_right, classOf_nil, crossed_nil_right]
    exact classOf_flatMap key_of_mem_aloneLeft k (a :: left)
  | case3 a left b right hab ih =>
    simp only [classwise, hab, classOf_append, ih hl.of_cons hr,
      classOf_of_key (cmp_of_mem_aloneLeft a)]
    by_cases hk : m.cmp a.key k = .eq
    · have hnil : classOf m.cmp KeyedRow.key k (b :: right) = [] :=
        classOf_eq_nil_of_lt (hr.lt_of_lt_head hab) hk
      simp [hk, hnil, classOf_cons_of_eq hk]
    · rw [if_neg hk, classOf_cons_of_ne hk, List.nil_append]
  | case4 a left b right hab ih =>
    simp only [classwise, hab, classOf_append, ih hl hr.of_cons,
      classOf_of_key (cmp_of_mem_aloneRight b)]
    by_cases hk : m.cmp b.key k = .eq
    · have hnil : classOf m.cmp KeyedRow.key k (a :: left) = [] :=
        classOf_eq_nil_of_lt (hl.lt_of_lt_head (Std.OrientedCmp.lt_of_gt hab)) hk
      simp [hk, hnil, classOf_cons_of_eq hk]
    · rw [if_neg hk, classOf_cons_of_ne hk, List.nil_append]
  | case5 a left b right hab same ih =>
    have hsame : same = sameAs m.cmp KeyedRow.key b.key := sameAs_congr KeyedRow.key hab
    have hr' : m.Ascends (right.dropWhile same) := hsame ▸ hr.beyond
    simp only [classwise, hab, classOf_append]
    rw [classOf_of_key (cmp_of_mem_crossed (cmp_of_mem_runs hab)), ih hl.beyond hr']
    by_cases hk : m.cmp a.key k = .eq
    · have hbk : m.cmp b.key k = .eq := Std.TransCmp.eq_trans (Std.OrientedCmp.eq_symm hab) hk
      have hbeyond : classOf m.cmp KeyedRow.key k (right.dropWhile same) = [] :=
        hsame ▸ hr.classOf_beyond hbk
      rw [if_pos hk, hl.classOf_head hk, hr.classOf_head hbk, ← hsame, hl.classOf_beyond hk,
        hbeyond]
      simp [same]
    · have hbk : m.cmp b.key k ≠ .eq := fun h => hk (Std.TransCmp.eq_trans hab h)
      rw [if_neg hk, List.nil_append, classOf_dropWhile hk, classOf_dropWhile hbk, ← hsame]

theorem isLE_of_mem_classwise {left right : List KeyedRow} {k : List Value}
    (hl : ∀ y ∈ left, (m.cmp k y.key).isLE) (hr : ∀ y ∈ right, (m.cmp k y.key).isLE) :
    ∀ x ∈ m.classwise left right, (m.cmp k x.key).isLE := by
  intro x hx
  obtain ⟨y, hy, hkey⟩ := (joins_of_mem_classwise hx).key
  rw [hkey]
  exact (List.mem_append.mp hy).elim (hl y) (hr y)

theorem ascends_classwise {left right : List KeyedRow} (hl : m.Ascends left)
    (hr : m.Ascends right) : m.Ascends (m.classwise left right) := by
  induction left, right using classwise.induct m with
  | case1 right =>
    rw [classwise_nil_left]
    exact hr.flatMap key_of_mem_aloneRight
  | case2 a left =>
    rw [classwise_nil_right]
    exact hl.flatMap key_of_mem_aloneLeft
  | case3 a left b right hab ih =>
    simp only [classwise, hab]
    refine Ascending.append (cmp_of_mem_aloneLeft a) (ih hl.of_cons hr)
      (isLE_of_mem_classwise (fun y hy => ?_) fun y hy => ?_)
    · exact hl.head_isLE y (List.mem_cons_of_mem a hy)
    · simp [hr.lt_of_lt_head hab y hy]
  | case4 a left b right hab ih =>
    simp only [classwise, hab]
    refine Ascending.append (cmp_of_mem_aloneRight b) (ih hl hr.of_cons)
      (isLE_of_mem_classwise (fun y hy => ?_) fun y hy => ?_)
    · simp [hl.lt_of_lt_head (Std.OrientedCmp.lt_of_gt hab) y hy]
    · exact hr.head_isLE y (List.mem_cons_of_mem b hy)
  | case5 a left b right hab same ih =>
    have hsame : same = sameAs m.cmp KeyedRow.key b.key := sameAs_congr KeyedRow.key hab
    have hr' : m.Ascends (right.dropWhile same) := hsame ▸ hr.beyond
    simp only [classwise, hab]
    refine Ascending.append (cmp_of_mem_crossed (cmp_of_mem_runs hab)) (ih hl.beyond hr')
      (isLE_of_mem_classwise (fun y hy => ?_) fun y hy => ?_)
    · exact hl.head_isLE y (List.mem_cons_of_mem a ((List.dropWhile_sublist _).subset hy))
    · rw [Std.TransCmp.congr_left hab]
      exact hr.head_isLE y (List.mem_cons_of_mem b ((List.dropWhile_sublist _).subset hy))

end Matching
end DatasetAlgebra
