import DatasetAlgebra.Proofs.Aggregation.Wiring
import DatasetAlgebra.Proofs.Dataset.Tables
import DatasetAlgebra.Proofs.Filter.Mentions
import DatasetAlgebra.Proofs.Stream.Releases
import Mathlib.Data.List.Forall2
import Mathlib.Data.List.Sublists

/-!
Aggregations of a table. There is one row for each group of its rows with equal keys, with what
the measures of the group reduce to, up to the first group whose sum overflows.
-/
namespace DatasetAlgebra

namespace Aggregation

variable {a : Aggregation} {required : SortOrder} {g : Grouping} {t : Table}

/-- The measures of a group. -/
def measures (a : Aggregation) (group : List Row) : List Value := group.map a.measureOf

/-- A row has the grouping values of the first row of a group, and what its measures reduce to. -/
structure Summarizes (a : Aggregation) (group : List Row) (x : Row) : Prop where
  laid : x.schema = a.schema
  groups : ∃ r, group.head? = some r ∧ ∀ n ∈ a.groupNames, x.value? n = r.value? n
  measure : ∃ v, x.value? a.measure.name = some v ∧
    Reduces a.reducer a.measure.type (a.measures group) v

/-- Whether the sum over a group overflows. -/
def OverflowsOn (a : Aggregation) (group : List Row) : Prop :=
  Overflows a.reducer a.measure.type (a.measures group)

/-- Rows of the child. -/
def Belong (a : Aggregation) (rows : List Row) : Prop :=
  ∀ r ∈ rows, r.schema = a.child.schema ∧ r.conforms

theorem Wired.type_measures (ha : a.Wired) {group : List Row} (hb : a.Belong group) :
    ∀ v ∈ a.measures group, v.type = a.measure.type := by
  simp only [measures, List.forall_mem_map]
  exact fun r hr => ha.type_measureOf (hb r hr).1 (hb r hr).2

theorem Groups.reduce_eq (hg : a.Groups required g) (group : List Row) :
    g.reduce (group.map g.measured) =
      (Accumulator.empty a.reducer a.measure.type).addAll (a.measures group) := by
  rw [Grouping.reduce, hg.reducer, hg.measureType, hg.measured_eq, measures]

theorem Wired.reduce_ok (ha : a.Wired) (ho : a.Orders required) (hg : a.Groups required g)
    {group : List Row} (hb : a.Belong group) {r : Row} (hr : group.head? = some r)
    (h : ¬a.OverflowsOn group) :
    ∃ sofar, g.reduce (group.map g.measured) = .ok sofar ∧
      a.Summarizes group (g.rowOf (required.keyOf r) sofar) := by
  obtain ⟨sofar, hsofar, hreduces⟩ := addAll_reduces ha.numeric (ha.type_measures hb) h
  have hschema := (hb r (List.mem_of_mem_head? hr)).1
  refine ⟨sofar, (hg.reduce_eq group).trans hsofar, hg.output, ⟨r, hr, fun n hn => ?_⟩, ?_⟩
  · exact ha.value?_group ho hg hschema sofar hn
  · exact ⟨_, ha.value?_measure hg _ sofar, hreduces⟩

theorem Wired.itemsAt_ok (ha : a.Wired) (ho : a.Orders required) (hg : a.Groups required g)
    {rows : List Row} (hb : a.Belong rows) {keys : List (List Value)}
    (hkeys : ∀ k ∈ keys, ∃ r, (required.rowsOf k rows).head? = some r ∧ required.keyOf r = k)
    (h : ∀ k ∈ keys, ¬a.OverflowsOn (required.rowsOf k rows)) :
    ∃ xs, List.Forall₂ (fun k x => a.Summarizes (required.rowsOf k rows) x) keys xs ∧
      ∀ rest, g.itemsAt rows (keys ++ rest) = xs.map .ok ++ g.itemsAt rows rest := by
  induction keys with
  | nil => exact ⟨[], .nil, fun _ => rfl⟩
  | cons k keys ih =>
    rw [List.forall_mem_cons] at hkeys h
    obtain ⟨r, hr, hkey⟩ := hkeys.1
    have hgroup : a.Belong (required.rowsOf k rows) := fun r hr => hb r (List.mem_of_mem_filter hr)
    obtain ⟨sofar, hsofar, hrow⟩ := ha.reduce_ok ho hg hgroup hr h.1
    obtain ⟨xs, hxs, hitems⟩ := ih hkeys.2 h.2
    rw [hkey] at hrow
    refine ⟨g.rowOf k sofar :: xs, .cons hrow hxs, fun rest => ?_⟩
    rw [List.cons_append, Grouping.itemsAt, hg.order, hsofar, hitems]
    rfl

theorem Wired.itemsAt_overflow (ha : a.Wired) (hg : a.Groups required g) {rows : List Row}
    (hb : a.Belong rows) {k : List Value} (h : a.OverflowsOn (required.rowsOf k rows))
    (rest : List (List Value)) : ∃ x y, g.itemsAt rows (k :: rest) =
      [.error (.arithmetic (.binary "addition" x y))] := by
  have hgroup : a.Belong (required.rowsOf k rows) := fun r hr => hb r (List.mem_of_mem_filter hr)
  obtain ⟨x, y, hxy⟩ := addAll_overflows (ha.type_measures hgroup) h
  refine ⟨x, y, ?_⟩
  rw [Grouping.itemsAt, hg.order, hg.reduce_eq, hxy]

theorem Groups.items_rows (hg : a.Groups required g) (hlaid : a.child.schema = t.schema)
    {input : RowStream} (h : t.Gives required input) :
    (g.rows (input.rows ())).drain.items = g.grouped (required.sort t.rows) := by
  refine Grouping.items_rows hg.reads h.rows fun r hr => ?_
  rw [hlaid]
  exact t.bound r ((required.sort_perm t.rows).subset hr)

/-- The stream of an aggregation gives what is grouped of the rows that its child gives. -/
theorem Groups.drain_stream (hg : a.Groups required g) (hlaid : a.child.schema = t.schema)
    {input : RowStream} (h : t.Gives required input) (o : SortOrder) (f : Filter) :
    (a.stream o required f g input).drain.2.1 = g.grouped (required.sort t.rows) := by
  have hclosed : (a.stream o required f g input).pending.failure = none :=
    ReleaseStack.failure_release (ReleaseStack.closes_register ReleaseStack.held_empty h.closes)
  rw [RowStream.drain_eq_items rfl hclosed]
  exact hg.items_rows hlaid h

theorem Wired.read_grouped (ha : a.Wired) (hchild : a.child = t.toDataset) {f : Filter}
    (hs : required.isAny ∨ (t.keep f).Sortable a.policy) (hc : t.ClosesWell)
    (hd : f.Decides t.rows) (hp : f.isAll ∨ a.policy.filters) (hf : f.refersOnlyTo a.groupNames)
    {order : SortOrder} (hr : SortOrder.compatible? a.groupBy order = some required)
    (hgrouping : a.grouping required a.child.schema = .ok g) (hg : a.Groups required g)
    (columns : List String) :
    ∃ s, (a.read order f columns).outcome = .ok s ∧
      s.drain.2.1 = g.grouped (required.sort (t.rows.filter f.passes)) := by
  have hnames := names_of_keys (ha.key_mem (orders_of_compatible hr))
  rw [hchild] at hnames
  obtain ⟨input, hinput, hgives, -⟩ :=
    Table.request_ok (a.childColumns columns) hc hd hp hs hnames
  have hlaid : input.schema = a.child.schema := by rw [hgives.laid, hchild]; rfl
  exact ⟨_, ha.read_stream hr hf hgrouping (hchild ▸ hinput) hlaid,
    hg.drain_stream (by rw [hchild]; rfl) hgives order f⟩

theorem Wired.read_ok (ha : a.Wired) (hchild : a.child = t.toDataset) (hs : t.Sortable a.policy)
    (hc : t.ClosesWell) {order : SortOrder}
    (hr : SortOrder.compatible? a.groupBy order = some required) (columns : List String) :
    ∃ s g given, (a.read order .all columns).outcome = .ok s ∧ a.Groups required g ∧
      Table.Arranges required t.rows given ∧
      s.drain.2.1 = g.itemsAt given (required.keysOf given) := by
  have ho := orders_of_compatible hr
  obtain ⟨g, hgrouping, hg⟩ := ha.grouping_ok ho
  have hall : Filter.all.refersOnlyTo a.groupNames := Filter.all_refersOnlyTo _
  obtain ⟨s, hread, hdrain⟩ := ha.read_grouped hchild (.inr (hs.keep .all)) hc
    (Filter.decides_all t.rows) (.inl rfl) hall hr hgrouping hg columns
  have harr : Table.Arranges required t.rows (required.sort t.rows) := by
    refine Table.arranges_sort (t.covers_rows (names_of_keys ?_))
    have hmem := ha.key_mem ho
    rwa [hchild] at hmem
  have hsorted : g.order.Sorted (required.sort t.rows) := hg.order ▸ harr.sorted
  rw [Filter.filter_passes_all, Grouping.grouped_eq hsorted, hg.order] at hdrain
  exact ⟨s, g, _, hread, hg, harr, hdrain⟩

/-- The items of groups: their rows up to one whose sum overflows, and then that failure. -/
theorem Wired.itemsAt_groups (ha : a.Wired) (ho : a.Orders required) (hg : a.Groups required g)
    {rows given : List Row} (hrows : a.Belong rows) (harr : Table.Arranges required rows given) :
    ∃ keys, required.Enumerates keys (fun key => required.group key rows ≠ []) ∧
      ∀ before rest, keys = before ++ rest →
        (∀ k ∈ before, ¬a.OverflowsOn (required.group k rows)) →
        ∃ xs, List.Forall₂ (fun k x => a.Summarizes (required.group k rows) x) before xs ∧
          (rest = [] → g.itemsAt given (required.keysOf given) = xs.map .ok) ∧
          ∀ k behind, rest = k :: behind → a.OverflowsOn (required.group k rows) →
            ∃ x y, g.itemsAt given (required.keysOf given) =
              xs.map .ok ++ [.error (.arithmetic (.binary "addition" x y))] := by
  have hb : a.Belong given := fun r hr => hrows r (harr.perm.subset hr)
  have hkeys := SortOrder.enumerates_keysOf harr.sorted
  have hgroup : ∀ k ∈ required.keysOf given,
      required.group k rows = required.rowsOf k given := fun k hk => by
    rw [harr.stable k, SortOrder.group_eq_rowsOf (hkeys.fits k hk)]
  refine ⟨required.keysOf given, hkeys.congr fun key hkey => ?_, ?_⟩
  · rw [SortOrder.group_eq_rowsOf hkey, SortOrder.group_eq_rowsOf hkey, harr.stable key]
  intro before rest hsplit hbefore
  have hmem : ∀ k ∈ before, k ∈ required.keysOf given := fun k hk => by
    rw [hsplit]
    exact List.mem_append_left _ hk
  obtain ⟨xs, hxs, hitems⟩ := ha.itemsAt_ok ho hg hb
    (fun k hk => harr.sorted.head_of_mem_runKeys (hmem k hk))
    fun k hk => by rw [← hgroup k (hmem k hk)]; exact hbefore k hk
  rw [hsplit, hitems]
  have hforall : List.Forall₂ (fun k x => a.Summarizes (required.group k rows) x) before xs := by
    have hboth := (List.forall₂_and_left before xs).mpr ⟨hmem, hxs⟩
    exact hboth.imp fun k x hkx => by rw [hgroup k hkx.1]; exact hkx.2
  refine ⟨xs, hforall, fun hnil => ?_, fun k behind hrest hk => ?_⟩
  · rw [hnil, Grouping.itemsAt, List.append_nil]
  · subst hrest
    rw [hgroup k (by simp [hsplit])] at hk
    obtain ⟨x, y, hxy⟩ := ha.itemsAt_overflow hg hb hk behind
    exact ⟨x, y, by rw [hxy]⟩

theorem Wired.read_groups (ha : a.Wired) (hchild : a.child = t.toDataset)
    (ht : ∀ r ∈ t.rows, r.conforms) (hs : t.Sortable a.policy) (hc : t.ClosesWell)
    {order : SortOrder} (hr : SortOrder.compatible? a.groupBy order = some required)
    (columns : List String) :
    ∃ s, (a.read order .all columns).outcome = .ok s ∧
      ∃ keys, required.Enumerates keys (fun key => required.group key t.rows ≠ []) ∧
        ∀ before rest, keys = before ++ rest →
          (∀ k ∈ before, ¬a.OverflowsOn (required.group k t.rows)) →
          ∃ xs, List.Forall₂ (fun k x => a.Summarizes (required.group k t.rows) x) before xs ∧
            (rest = [] → s.Answers (xs.map .ok)) ∧
            ∀ k behind, rest = k :: behind → a.OverflowsOn (required.group k t.rows) →
              ∃ x y, s.Answers (xs.map .ok ++ [.error (.arithmetic (.binary "addition" x y))]) := by
  obtain ⟨s, g, given, hread, hg, harr, hdrain⟩ := ha.read_ok hchild hs hc hr columns
  have hanswers := s.answers_drain
  rw [hdrain] at hanswers
  have hb : a.Belong t.rows := fun r hr => ⟨by rw [hchild]; exact t.bound r hr, ht r hr⟩
  obtain ⟨keys, hkeys, hitems⟩ := ha.itemsAt_groups (orders_of_compatible hr) hg hb harr
  refine ⟨s, hread, keys, hkeys, fun before rest hsplit hbefore => ?_⟩
  obtain ⟨xs, hxs, hall, hfail⟩ := hitems before rest hsplit hbefore
  refine ⟨xs, hxs, fun hnil => hall hnil ▸ hanswers, fun k behind hrest hk => ?_⟩
  obtain ⟨x, y, hxy⟩ := hfail k behind hrest hk
  exact ⟨x, y, hxy ▸ hanswers⟩

theorem Summarizes.ofPolicy {policy : Policy} {group : List Row} {x : Row}
    (h : (a.withPolicy policy).Summarizes group x) : a.Summarizes group x :=
  ⟨h.laid, h.groups, h.measure⟩

/-- An aggregation of a table reads one row for each key, the keys strictly ascending, up to the
first group whose sum overflows, which gives that failure and ends the rows. -/
theorem read_table {names : List String} {measure : String} {r : Reducer} {policy : Policy}
    {order : SortOrder} (columns : List String) (ha : of t.toDataset names measure r = .ok a)
    (ht : ∀ r ∈ t.rows, r.conforms) (hs : t.Sortable policy) (hc : t.ClosesWell)
    (hr : SortOrder.compatible? a.groupBy order = some required) :
    ∃ s, ((a.withPolicy policy).read order .all columns).outcome = .ok s ∧
      ∃ keys, required.Enumerates keys (fun key => required.group key t.rows ≠ []) ∧
        ((∀ k ∈ keys, ¬a.OverflowsOn (required.group k t.rows)) →
          ∃ xs, List.Forall₂ (fun k x => a.Summarizes (required.group k t.rows) x) keys xs ∧
            s.Answers (xs.map .ok)) ∧
        ∀ before k behind, keys = before ++ k :: behind →
          (∀ b ∈ before, ¬a.OverflowsOn (required.group b t.rows)) →
          a.OverflowsOn (required.group k t.rows) →
          ∃ xs x y, List.Forall₂ (fun k x => a.Summarizes (required.group k t.rows) x) before xs ∧
            s.Answers (xs.map .ok ++ [.error (.arithmetic (.binary "addition" x y))]) := by
  obtain ⟨hwired, hchild, -⟩ := wired_of_of ha
  obtain ⟨s, hread, keys, hkeys, hsplit⟩ :=
    (hwired.withPolicy policy).read_groups hchild ht hs hc hr columns
  refine ⟨s, hread, keys, hkeys, fun h => ?_, fun before k behind hk hbefore hover => ?_⟩
  · obtain ⟨xs, hxs, hall, -⟩ := hsplit keys [] (by simp) h
    exact ⟨xs, hxs.imp fun _ _ hx => hx.ofPolicy, hall rfl⟩
  · obtain ⟨xs, hxs, -, hfail⟩ := hsplit before (k :: behind) hk hbefore
    obtain ⟨x, y, hxy⟩ := hfail k behind rfl hover
    exact ⟨xs, x, y, hxs.imp fun _ _ hx => hx.ofPolicy, hxy⟩

/-- Counts summed by identifier, over a table that has to be sorted. -/
theorem read_table_counts :
    let t := Table.counts [(2, 20), (1, 10), (2, 5)]
    ∃ (a : Aggregation) (required : SortOrder) (s : RowStream) (keys : List (List Value))
      (xs : List Row), of t.toDataset ["id"] "n" .sum = .ok a ∧
      ((a.withPolicy ⟨true, 3, false⟩).read .any .all []).outcome = .ok s ∧
      required.Enumerates keys (fun key => required.group key t.rows ≠ []) ∧
      List.Forall₂ (fun k x => a.Summarizes (required.group k t.rows) x) keys xs ∧
      s.Answers (xs.map .ok) := by
  intro t
  obtain ⟨a, ha⟩ : ∃ a, of t.toDataset ["id"] "n" .sum = .ok a := ⟨_, rfl⟩
  have hr : SortOrder.compatible? a.groupBy .any = some ⟨SortOrder.complete [] a.groupBy⟩ := rfl
  have hs : t.Sortable ⟨true, 3, false⟩ := Table.sortable_counts rfl (by decide)
  obtain ⟨s, hread, keys, hkeys, hall, -⟩ :=
    read_table [] ha (by decide) hs (Table.closesWell_counts _) hr
  obtain ⟨xs, hxs, hanswers⟩ := hall fun k _ hover => by
    -- the sums on the way are among those of the measures of all rows
    obtain ⟨-, -, p, hp, hn⟩ := hover
    have hsub : p.Sublist [20, 10, 5] := by
      cases ha
      exact hp.sublist.trans (((List.filter_sublist).map _).filterMap _)
    have hfits : ∀ p ∈ [20, 10, 5].sublists, Fits64 p.sum := by decide
    exact hn (hfits p (List.mem_sublists.mpr hsub))
  exact ⟨a, _, s, keys, xs, ha, hread, hkeys, hxs, hanswers⟩

end Aggregation

end DatasetAlgebra
