import DatasetAlgebra.Aggregation.Grouping
import DatasetAlgebra.Proofs.Aggregation.Reduction
import DatasetAlgebra.Proofs.Join.Sides
import DatasetAlgebra.Proofs.Outcomes
import DatasetAlgebra.Proofs.SortOrder.Sorting
import DatasetAlgebra.Proofs.Stream.Given

/-!
Grouping gives one item for each run of equal keys: a row with the key of the run and what its
measures reduce to, or the failure to reduce them, which is the last item. On rows that ascend the
runs are the classes of the keys.
-/
namespace DatasetAlgebra
namespace Grouping

/-- Reduces measures. -/
def reduce (g : Grouping) (vs : List Value) : Except Error Accumulator :=
  (Accumulator.empty g.reducer g.measureType).addAll vs

/-- The row of a group with some key. -/
def rowOf (g : Grouping) (key : List Value) (sofar : Accumulator) : Row := g.row ⟨[], key, sofar⟩

theorem row_eq (g : Grouping) (group : OpenGroup) :
    g.row group = g.rowOf group.key group.sofar := rfl

/-- The measure of a row. -/
def measured (g : Grouping) (r : Row) : Value := (r.value? g.measure.1).getD default

/-- Rows of a schema have their keys and measures read as the grouping asks. -/
structure Reads (g : Grouping) (source : Schema) : Prop where
  keys : g.keys.Reads source g.order
  measure : ∀ r : Row, r.schema = source → g.measureOf r = .ok (g.measured r)

/-- Whether a row belongs to the group of a key. -/
def sameGroup (g : Grouping) (key : List Value) (r : Row) : Bool :=
  g.order.sameKey key (g.order.keyOf r)

/-- The items of a grouping, run by run. -/
def grouped (g : Grouping) : List Row → List (Except Error Row)
  | [] => []
  | r :: rest =>
    let same := g.sameGroup (g.order.keyOf r)
    match g.reduce ((r :: rest.takeWhile same).map g.measured) with
    | .error e => [.error e]
    | .ok sofar => .ok (g.rowOf (g.order.keyOf r) sofar) :: g.grouped (rest.dropWhile same)
termination_by rows => rows.length
decreasing_by exact Nat.lt_succ_of_le (List.dropWhile_suffix _).length_le

/-- The items from an open group on. -/
def resumed (g : Grouping) (group : OpenGroup) (rows : List Row) : List (Except Error Row) :=
  match group.sofar.addAll ((rows.takeWhile (g.sameGroup group.key)).map g.measured) with
  | .error e => [.error e]
  | .ok sofar =>
    .ok (g.rowOf group.key sofar) :: g.grouped (rows.dropWhile (g.sameGroup group.key))

variable {g : Grouping} {source : Schema}

theorem start_eq (hg : g.Reads source) (es : List Event) (key : List Value) {r : Row}
    (hr : r.schema = source) :
    g.start es key r = (g.reduce [g.measured r]).map (OpenGroup.mk es key) := by
  simp only [start, hg.measure r hr, reduce, Accumulator.addAll, bind, Except.bind, Except.map]
  cases (Accumulator.empty g.reducer g.measureType).add (g.measured r) <;> rfl

theorem extend_eq (hg : g.Reads source) (group : OpenGroup) (es : List Event) {r : Row}
    (hr : r.schema = source) :
    group.extend g es r =
      (group.sofar.add (g.measured r)).map (OpenGroup.mk (group.events ++ es) group.key) := by
  simp only [OpenGroup.extend, hg.measure r hr, bind, Except.bind, Except.map]

@[simp] theorem grouped_nil (g : Grouping) : g.grouped [] = [] := by rw [grouped]

theorem resumed_nil (g : Grouping) (group : OpenGroup) :
    g.resumed group [] = [.ok (g.row group)] := by
  simp only [resumed, List.takeWhile_nil, List.dropWhile_nil, List.map_nil, Accumulator.addAll,
    grouped_nil, row_eq]

theorem grouped_cons (r : Row) (rows : List Row) :
    g.grouped (r :: rows) =
      match g.reduce [g.measured r] with
      | .error e => [.error e]
      | .ok sofar => g.resumed ⟨[], g.order.keyOf r, sofar⟩ rows := by
  rw [grouped]
  simp only [reduce, resumed, List.map_cons, Accumulator.addAll]
  cases (Accumulator.empty g.reducer g.measureType).add (g.measured r) <;> rfl

theorem resumed_same {group : OpenGroup} {r : Row} (h : g.sameGroup group.key r)
    (rows : List Row) (es : List Event) :
    g.resumed group (r :: rows) =
      match group.sofar.add (g.measured r) with
      | .error e => [.error e]
      | .ok sofar => g.resumed ⟨es, group.key, sofar⟩ rows := by
  rw [resumed, List.takeWhile_cons_of_pos h, List.dropWhile_cons_of_pos h, List.map_cons,
    Accumulator.addAll]
  cases group.sofar.add (g.measured r) <;> rfl

theorem resumed_other {group : OpenGroup} {r : Row} (h : ¬g.sameGroup group.key r)
    (rows : List Row) :
    g.resumed group (r :: rows) = .ok (g.row group) :: g.grouped (r :: rows) := by
  rw [resumed, List.takeWhile_cons_of_neg h, List.dropWhile_cons_of_neg h]
  rfl

theorem items_rowsFrom_nil {rest : Rows} (h : rest.Gives []) :
    (g.rowsFrom none rest).drain.items = [] := by
  cases h with
  | ended e => rfl
  | nothing es _ => rfl

theorem items_rowsFrom_some (hg : g.Reads source) {input : Rows} {rows : List Row}
    (hi : input.Gives rows) (h : ∀ r ∈ rows, r.schema = source) (group : OpenGroup) :
    (g.rowsFrom (some group) input).drain.items = g.resumed group rows := by
  induction hi generalizing group with
  | ended e => exact (g.resumed_nil group).symm
  | nothing es hrest _ =>
    rw [resumed_nil]
    exact congrArg _ (items_rowsFrom_nil hrest)
  | row es r hrest ih =>
    rw [List.forall_mem_cons] at h
    rw [rowsFrom]
    simp only [hg.keys r h.1]
    by_cases hsame : g.sameGroup group.key r
    · have hkey : g.order.sameKey group.key (g.order.keyOf r) := hsame
      rw [if_pos hkey, extend_eq hg group es h.1, resumed_same hsame _ (group.events ++ es)]
      cases hadd : group.sofar.add (g.measured r) with
      | error e => rfl
      | ok sofar => exact ih h.2 _
    · have hkey : ¬g.order.sameKey group.key (g.order.keyOf r) := hsame
      rw [if_neg hkey, resumed_other hsame, grouped_cons, start_eq hg [] _ h.1]
      cases hstart : g.reduce [g.measured r] with
      | error e => rfl
      | ok sofar => exact congrArg _ (ih h.2 _)

theorem items_rows (hg : g.Reads source) {input : Rows} {rows : List Row} (hi : input.Gives rows)
    (h : ∀ r ∈ rows, r.schema = source) : (g.rows input).drain.items = g.grouped rows := by
  cases hi with
  | ended e | nothing es hrest =>
    rw [grouped]
    rfl
  | row es r hrest =>
    rw [List.forall_mem_cons] at h
    rw [Grouping.rows, rowsFrom, grouped_cons]
    simp only [hg.keys r h.1, Except.bind, start_eq hg es _ h.1]
    cases hstart : g.reduce [g.measured r] with
    | error e => rfl
    | ok sofar => exact items_rowsFrom_some hg hrest h.2 _

/-- The items of the classes of some keys. -/
def itemsAt (g : Grouping) (rows : List Row) : List (List Value) → List (Except Error Row)
  | [] => []
  | key :: keys =>
    match g.reduce ((g.order.rowsOf key rows).map g.measured) with
    | .error e => [.error e]
    | .ok sofar => .ok (g.rowOf key sofar) :: g.itemsAt rows keys

theorem sameGroup_eq (g : Grouping) (a : Row) :
    g.sameGroup (g.order.keyOf a) =
      sameAs (SortOrder.compareAlong g.order.keys) g.order.keyOf (g.order.keyOf a) := by
  funext r
  have hswap : SortOrder.compareAlong g.order.keys (g.order.keyOf a) (g.order.keyOf r) =
      (SortOrder.compareAlong g.order.keys (g.order.keyOf r) (g.order.keyOf a)).swap :=
    Std.OrientedCmp.eq_swap
  rw [sameGroup, SortOrder.sameKey,
    SortOrder.compareKeys_eq (g.order.fits_keyOf a) (g.order.fits_keyOf r), sameAs, hswap]
  cases SortOrder.compareAlong g.order.keys (g.order.keyOf r) (g.order.keyOf a) <;> rfl

theorem itemsAt_congr {rows rows' : List Row} {keys : List (List Value)}
    (h : ∀ k ∈ keys, g.order.rowsOf k rows = g.order.rowsOf k rows') :
    g.itemsAt rows keys = g.itemsAt rows' keys := by
  induction keys with
  | nil => rfl
  | cons k keys ih =>
    rw [List.forall_mem_cons] at h
    simp only [itemsAt, h.1, ih h.2]

/-- On rows that ascend the runs are the classes of their keys. -/
theorem grouped_eq {rows : List Row} (h : g.order.Sorted rows) :
    g.grouped rows =
      g.itemsAt rows (runKeys (SortOrder.compareAlong g.order.keys) g.order.keyOf rows) := by
  induction rows using runKeys.induct (SortOrder.compareAlong g.order.keys) g.order.keyOf with
  | case1 => rw [grouped, runKeys, itemsAt]
  | case2 a l ih =>
    have hself : SortOrder.compareAlong g.order.keys (g.order.keyOf a) (g.order.keyOf a) = .eq :=
      Std.ReflCmp.compare_self
    have hclass : g.order.rowsOf (g.order.keyOf a) (a :: l) =
        a :: l.takeWhile (g.sameGroup (g.order.keyOf a)) := by
      rw [sameGroup_eq]
      exact h.classOf_head hself
    have hrest : ∀ k ∈ runKeys (SortOrder.compareAlong g.order.keys) g.order.keyOf
        (l.dropWhile (g.sameGroup (g.order.keyOf a))),
        g.order.rowsOf k (l.dropWhile (g.sameGroup (g.order.keyOf a))) =
          g.order.rowsOf k (a :: l) := by
      rw [sameGroup_eq]
      intro k hk
      obtain ⟨b, hb, rfl⟩ := exists_mem_of_mem_runKeys hk
      exact (classOf_dropWhile (by simp [h.lt_of_mem_dropWhile hb])).symm
    rw [runKeys, itemsAt, hclass, grouped]
    rw [← sameGroup_eq] at ih ⊢
    cases g.reduce ((a :: l.takeWhile (g.sameGroup (g.order.keyOf a))).map g.measured) with
    | error e => rfl
    | ok sofar =>
      have hsorted : g.order.Sorted (l.dropWhile (g.sameGroup (g.order.keyOf a))) := by
        rw [sameGroup_eq]
        exact h.beyond
      simp only [ih hsorted, itemsAt_congr hrest]

/-- A row that a group gives whose first row is `r`. -/
def Opens (g : Grouping) (r x : Row) : Prop :=
  ∃ sofar : Accumulator, sofar.reducer = g.reducer ∧ sofar.value.type = g.measureType ∧
    x = g.rowOf (g.order.keyOf r) sofar

/-- A group whose first row is `first`. -/
structure OpenedBy (g : Grouping) (first : Row) (group : OpenGroup) : Prop where
  key : group.key = g.order.keyOf first
  reducer : group.sofar.reducer = g.reducer
  type : group.sofar.value.type = g.measureType

theorem OpenedBy.opens {first : Row} {group : OpenGroup} (h : g.OpenedBy first group) :
    g.Opens first (g.row group) :=
  ⟨group.sofar, h.reducer, h.type, by rw [row_eq, h.key]⟩

theorem start_ok (hg : g.Reads source) {es : List Event} {r : Row} {group : OpenGroup}
    (hr : r.schema = source) (ht : (g.measured r).type = g.measureType)
    (h : g.start es (g.order.keyOf r) r = .ok group) : g.OpenedBy r group := by
  rw [start_eq hg es _ hr] at h
  obtain ⟨sofar, hred, rfl⟩ := map_eq_ok.mp h
  obtain ⟨hreducer, htype⟩ := Accumulator.type_addAll (List.forall_mem_singleton.mpr ht) hred
  exact ⟨rfl, hreducer, htype⟩

theorem extend_ok (hg : g.Reads source) {first : Row} {group next : OpenGroup} {es : List Event}
    {r : Row} (hr : r.schema = source) (ht : (g.measured r).type = g.measureType)
    (hfirst : g.OpenedBy first group) (h : group.extend g es r = .ok next) :
    g.OpenedBy first next := by
  rw [extend_eq hg group es hr] at h
  obtain ⟨sofar, hadd, rfl⟩ := map_eq_ok.mp h
  obtain ⟨hreducer, htype⟩ := Accumulator.type_add (ht.trans hfirst.type.symm) hadd
  exact ⟨hfirst.key, hreducer.trans hfirst.reducer, htype.trans hfirst.type⟩

/-- Rows that groups give whose first rows are among some, in their order. -/
def OpensAmong (g : Grouping) (rows xs : List Row) : Prop :=
  ∃ firsts, firsts.Sublist rows ∧ List.Forall₂ g.Opens firsts xs

theorem OpensAmong.nil (rows : List Row) : g.OpensAmong rows [] := ⟨[], List.nil_sublist _, .nil⟩

theorem OpensAmong.cons {first x : Row} {rows xs : List Row} (hx : g.Opens first x)
    (h : g.OpensAmong rows xs) : g.OpensAmong (first :: rows) (x :: xs) := by
  obtain ⟨firsts, hsub, hopens⟩ := h
  exact ⟨first :: firsts, hsub.cons_cons first, .cons hx hopens⟩

theorem OpensAmong.mono {rows more xs : List Row} (h : g.OpensAmong rows xs)
    (hsub : rows.Sublist more) : g.OpensAmong more xs := by
  obtain ⟨firsts, hfirsts, hopens⟩ := h
  exact ⟨firsts, hfirsts.trans hsub, hopens⟩

/-- Whatever is grouped, the rows of a grouping are opened by rows that stand in their order among
those grouped. -/
theorem flow_rowsFrom (hg : g.Reads source) {rows : Rows}
    (h : ∀ r ∈ rows.flow, r.schema = source ∧ (g.measured r).type = g.measureType) :
    g.OpensAmong rows.flow (g.rowsFrom none rows).flow ∧
      ∀ first group, g.OpenedBy first group →
        g.OpensAmong (first :: rows.flow) (g.rowsFrom (some group) rows).flow := by
  induction rows with
  | ended e => exact ⟨.nil _, fun first group hfirst => .cons hfirst.opens (.nil _)⟩
  | poll p rest ih =>
    obtain ⟨es, item⟩ := p
    cases item with
    | none =>
      obtain ⟨hnone, -⟩ := ih () h
      exact ⟨.nil _, fun first group hfirst => .cons hfirst.opens hnone⟩
    | some i =>
      cases i with
      | error e => exact ⟨.nil _, fun first group _ => .nil _⟩
      | ok r =>
        simp only [Rows.flow_poll_ok, List.forall_mem_cons] at h
        obtain ⟨⟨hschema, htype⟩, hrest⟩ := h
        obtain ⟨-, hgroup⟩ := ih () hrest
        refine ⟨?_, fun first group hfirst => ?_⟩
        · rw [rowsFrom]
          simp only [hg.keys r hschema, Except.bind]
          cases hs : g.start es (g.order.keyOf r) r with
          | error e => exact .nil _
          | ok next => exact hgroup r next (start_ok hg hschema htype hs)
        · rw [rowsFrom]
          simp only [hg.keys r hschema]
          by_cases hsame : g.order.sameKey group.key (g.order.keyOf r)
          · rw [if_pos hsame]
            cases hext : group.extend g es r with
            | error e => exact .nil _
            | ok next =>
              have hnext := hgroup first next (extend_ok hg hschema htype hfirst hext)
              exact hnext.mono ((List.sublist_cons_self r _).cons_cons first)
          · rw [if_neg hsame]
            cases hs : g.start [] (g.order.keyOf r) r with
            | error e => exact .cons hfirst.opens (.nil _)
            | ok next =>
              exact .cons hfirst.opens (hgroup r next (start_ok hg hschema htype hs))

end Grouping
end DatasetAlgebra
