import DatasetAlgebra.Proofs.Aggregation.Filtered
import DatasetAlgebra.Proofs.Aggregation.Honest
import DatasetAlgebra.Proofs.Dataset.Offers

/-!
Aggregations in every order of their grouping columns. What a group gives depends on its rows and
on their order among themselves, and neither changes with the order that the groups are read in; so
an aggregation that has given all its rows once gives them in any order, sorted as its reader would
sort them.
-/
namespace DatasetAlgebra

namespace Grouping

variable {g : Grouping}

theorem rests_rowsFrom_nil {rest : Rows} (h : rest.Gives []) : (g.rowsFrom none rest).Rests := by
  cases h with
  | ended e => exact Rows.rests_last _
  | nothing es h => exact Rows.rests_last _

theorem rests_rowsFrom {input : Rows} (h : input.Rests) :
    (g.rowsFrom none input).Rests ∧ ∀ group, (g.rowsFrom (some group) input).Rests := by
  induction input with
  | ended e => exact ⟨Rows.rests_last _, fun group => Rows.rests_last ⟨e.next.seen, none⟩⟩
  | poll p rest ih =>
    obtain ⟨es, item⟩ := p
    rcases item with _ | e | r
    · exact ⟨Rows.rests_last _, fun group => rests_rowsFrom_nil h⟩
    · exact ⟨Rows.rests_last _, fun group => Rows.rests_last _⟩
    · obtain ⟨-, hgroup⟩ := ih () h
      refine ⟨?_, fun group => ?_⟩ <;> rw [rowsFrom] <;> simp only
      · cases g.keys.read r with
        | error e => exact Rows.rests_last _
        | ok key =>
          simp only [Except.bind]
          cases g.start es key r with
          | error e => exact Rows.rests_last _
          | ok next => exact hgroup next
      · cases g.keys.read r with
        | error e => exact Rows.rests_last _
        | ok key =>
          simp only
          split
          · cases group.extend g es r with
            | error e => exact Rows.rests_last _
            | ok next => exact hgroup next
          · simp only [Rows.Rests]
            cases g.start [] key r with
            | error e => exact Rows.rests_last _
            | ok next => exact hgroup next

theorem sameGroup_iff {a r : Row} : g.sameGroup (g.order.keyOf a) r ↔
    SortOrder.compareAlong g.order.keys (g.order.keyOf r) (g.order.keyOf a) = .eq := by
  rw [sameGroup_eq, sameAs, beq_iff_eq]

theorem rowsOf_behind {a : Row} {rest : List Row} {key : List Value}
    (hrest : ∀ r ∈ rest, ¬g.sameGroup (g.order.keyOf a) r)
    (hkey : SortOrder.compareAlong g.order.keys (g.order.keyOf a) key = .eq) :
    g.order.rowsOf key rest = [] :=
  classOf_eq_nil fun r hr hrk =>
    hrest r hr (sameGroup_iff.mpr (Std.TransCmp.eq_trans hrk (Std.OrientedCmp.eq_symm hkey)))

theorem rowsOf_run {a : Row} {run rest : List Row}
    (hrun : ∀ r ∈ run, g.sameGroup (g.order.keyOf a) r)
    (hrest : ∀ r ∈ rest, ¬g.sameGroup (g.order.keyOf a) r) (key : List Value) :
    g.order.rowsOf key (a :: (run ++ rest)) =
      if SortOrder.compareAlong g.order.keys (g.order.keyOf a) key = .eq then a :: run
      else g.order.rowsOf key rest := by
  have hfirst : ∀ r ∈ a :: run,
      SortOrder.compareAlong g.order.keys (g.order.keyOf r) (g.order.keyOf a) = .eq :=
    List.forall_mem_cons.mpr ⟨Std.ReflCmp.compare_self, fun r hr => sameGroup_iff.mp (hrun r hr)⟩
  rw [← List.cons_append, SortOrder.rowsOf, classOf_append, classOf_of_key hfirst]
  split
  · rename_i hkey
    have hnil := rowsOf_behind hrest hkey
    unfold SortOrder.rowsOf at hnil
    rw [hnil, List.append_nil]
  · rfl

/-- What the rows of one key give: nothing if there are none. -/
def itemsOf (g : Grouping) : List Row → List (Except Error Row)
  | [] => []
  | r :: rest => [(g.reduce ((r :: rest).map g.measured)).map (g.rowOf (g.order.keyOf r))]

/-- Rows of which each key has what some rows of that key give. -/
def Gathers (g : Grouping) (xs rows : List Row) : Prop :=
  ∀ key, (g.order.rowsOf key xs).map .ok = g.itemsOf (g.order.rowsOf key rows)

theorem Gathers.eq_nil {xs rows : List Row} (h : g.Gathers xs rows) {key : List Value}
    (hnil : g.order.rowsOf key rows = []) : g.order.rowsOf key xs = [] := by
  have hitems := h key
  rw [hnil] at hitems
  exact List.map_eq_nil_iff.mp hitems

theorem Gathers.exists_of_mem {xs rows : List Row} (h : g.Gathers xs rows) {x : Row} (hx : x ∈ xs) :
    ∃ r ∈ rows,
      SortOrder.compareAlong g.order.keys (g.order.keyOf r) (g.order.keyOf x) = .eq := by
  have hmem : x ∈ g.order.rowsOf (g.order.keyOf x) xs :=
    (mem_classOf _ _).mpr ⟨hx, Std.ReflCmp.compare_self⟩
  have hne : g.order.rowsOf (g.order.keyOf x) rows ≠ [] := fun hnil => by
    rw [h.eq_nil hnil] at hmem
    exact List.not_mem_nil hmem
  obtain ⟨r, hr⟩ := List.exists_mem_of_ne_nil _ hne
  exact ⟨r, (mem_classOf _ _).mp hr⟩

theorem Gathers.run {a : Row} {run rest ys : List Row} {sofar : Accumulator}
    (h : g.Gathers ys rest) (hrun : ∀ r ∈ run, g.sameGroup (g.order.keyOf a) r)
    (hrest : ∀ r ∈ rest, ¬g.sameGroup (g.order.keyOf a) r)
    (hreduce : g.reduce ((a :: run).map g.measured) = .ok sofar)
    (hkey : g.order.keyOf (g.rowOf (g.order.keyOf a) sofar) = g.order.keyOf a) :
    g.Gathers (g.rowOf (g.order.keyOf a) sofar :: ys) (a :: (run ++ rest)) := by
  intro key
  rw [rowsOf_run hrun hrest]
  by_cases hk : SortOrder.compareAlong g.order.keys (g.order.keyOf a) key = .eq
  · have hnil : g.order.rowsOf key ys = [] := h.eq_nil (rowsOf_behind hrest hk)
    unfold SortOrder.rowsOf at hnil
    rw [if_pos hk, SortOrder.rowsOf, classOf_cons_of_eq (by rwa [hkey]), hnil, itemsOf, hreduce]
    rfl
  · rw [if_neg hk, SortOrder.rowsOf, classOf_cons_of_ne (by rwa [hkey])]
    exact h key

/-- If the rows of groups have the keys of these, they ascend, and of each key there is what the
rows of that key give. -/
theorem grouped_classes {rows xs : List Row} (hs : g.order.Sorted rows)
    (hkey : ∀ r ∈ rows, ∀ sofar,
      g.order.keyOf (g.rowOf (g.order.keyOf r) sofar) = g.order.keyOf r)
    (h : g.grouped rows = xs.map .ok) : g.order.Sorted xs ∧ g.Gathers xs rows := by
  induction rows, hs using run_induction generalizing xs with
  | nil =>
    rw [grouped_nil] at h
    rw [List.map_eq_nil_iff.mp h.symm]
    exact ⟨.nil, fun _ => rfl⟩
  | run a run rest hs _ hrun hrest ih =>
    obtain ⟨sofar, ys, hreduce, rfl, hys⟩ := (grouped_run_eq_ok hrun hrest).mp h
    obtain ⟨hascends, hgathers⟩ := ih (fun r hr => hkey r (by simp [hr])) hys
    have hhead := hkey a List.mem_cons_self sofar
    refine ⟨.cons (fun y hy => ?_) hascends, hgathers.run hrun hrest hreduce hhead⟩
    obtain ⟨r, hr, hry⟩ := hgathers.exists_of_mem hy
    rw [hhead, ← Std.TransCmp.congr_right hry]
    exact hs.head_isLE r (by simp [hr])

theorem exists_grouped {rows : List Row} (hs : g.order.Sorted rows)
    (h : ∀ r ∈ rows, ∃ x, g.itemsOf (g.order.rowsOf (g.order.keyOf r) rows) = [.ok x]) :
    ∃ xs : List Row, g.grouped rows = xs.map .ok := by
  induction rows, hs using run_induction with
  | nil => exact ⟨[], g.grouped_nil⟩
  | run a run rest _ _ hrun hrest ih =>
    have hself : SortOrder.compareAlong g.order.keys (g.order.keyOf a) (g.order.keyOf a) = .eq :=
      Std.ReflCmp.compare_self
    obtain ⟨x, hx⟩ := h a List.mem_cons_self
    rw [rowsOf_run hrun hrest, if_pos hself, itemsOf, List.singleton_inj] at hx
    obtain ⟨sofar, hreduce, -⟩ := map_eq_ok.mp hx
    obtain ⟨xs, hxs⟩ := ih fun r hr => by
      obtain ⟨y, hy⟩ := h r (by simp [hr])
      have hne := fun har => hrest r hr (sameGroup_iff.mpr (Std.OrientedCmp.eq_symm har))
      rw [rowsOf_run hrun hrest, if_neg hne] at hy
      exact ⟨y, hy⟩
    exact ⟨_, (grouped_run_eq_ok hrun hrest).mpr ⟨sofar, xs, hreduce, rfl, hxs⟩⟩

end Grouping

namespace Aggregation

variable {a : Aggregation} {g : Grouping} {standing required o : SortOrder} {f : Filter}

/-- What a group of rows gives, whatever the order that groups are read in. -/
def itemsOf (a : Aggregation) : List Row → List (Except Error Row)
  | [] => []
  | r :: rest =>
    [((Accumulator.empty a.reducer a.measure.type).addAll (a.measures (r :: rest))).map fun sofar =>
      .byColumn a.schema fun c =>
        if c.name = a.measure.name then sofar.result else (r.value? c.name).getD default]

theorem exists_itemsOf {group : List Row} (h : group ≠ []) : ∃ item, a.itemsOf group = [item] := by
  obtain ⟨r, rest, rfl⟩ := List.exists_cons_of_ne_nil h
  exact ⟨_, rfl⟩

theorem Wired.mem_groupNames (ha : a.Wired) {c : Column} (hc : c ∈ a.schema.columns)
    (hne : c.name ≠ a.measure.name) : c.name ∈ a.groupNames := by
  rw [ha.columns_eq, List.mem_append, List.mem_singleton, List.mem_map] at hc
  rcases hc with ⟨d, hd, rfl⟩ | rfl
  · exact List.mem_map.mpr ⟨d, hd, rfl⟩
  · exact absurd rfl hne

theorem Orders.mem_columns_iff (ho : a.Orders o) (n : String) :
    n ∈ o.columns ↔ n ∈ a.groupNames := by
  constructor
  · intro hn
    obtain ⟨k, hk, rfl⟩ := List.mem_map.mp hn
    exact List.mem_map_of_mem (ho.1 k hk)
  · intro hn
    obtain ⟨c, hc, rfl⟩ := List.mem_map.mp hn
    exact ho.2 c hc

theorem Wired.itemsOf_eq (ha : a.Wired) (ho : a.Orders required) (hg : a.Groups required g)
    (group : List Row) : g.itemsOf group = a.itemsOf group := by
  cases group with
  | nil => rfl
  | cons r rest =>
    rw [Grouping.itemsOf, itemsOf, hg.reduce_eq]
    congr 2
    funext sofar
    rw [ha.rowOf_eq hg]
    refine Row.byColumn_congr fun c hc => ?_
    by_cases hne : c.name = a.measure.name
    · rw [if_pos hne, if_pos hne]
    · rw [if_neg hne, if_neg hne]
      apply keyValue_keyOf
      rw [hg.order, ho.mem_columns_iff]
      exact ha.mem_groupNames hc hne

theorem Wired.keyOf_rowOf (ha : a.Wired) (ho : a.Orders required) (hg : a.Groups required g)
    {r : Row} (hr : r.schema = a.child.schema) (sofar : Accumulator) :
    g.order.keyOf (g.rowOf (g.order.keyOf r) sofar) = g.order.keyOf r := by
  rw [hg.order]
  refine List.map_congr_left fun n hn => ?_
  rw [ha.value?_group ho hg hr sofar ((ho.mem_columns_iff n).mp hn)]

theorem Wired.covers_child (ha : a.Wired) (ho : a.Orders o) {rows : List Row}
    (hrows : ∀ r ∈ rows, r.schema = a.child.schema) : ∀ r ∈ rows, o.Covers r :=
  fun r hr => covers_of_schema (hrows r hr) (names_of_keys (ha.key_mem ho))

theorem Wired.grouped_spec (ha : a.Wired) (ho : a.Orders o) (hg : a.Groups o g) {rows xs : List Row}
    (hrows : ∀ r ∈ rows, r.schema = a.child.schema) (h : g.grouped (o.sort rows) = xs.map .ok) :
    o.Sorted xs ∧ ∀ key, (o.rowsOf key xs).map .ok = a.itemsOf (o.rowsOf key rows) := by
  obtain ⟨hsorted, hstable⟩ := SortOrder.sorted_sort (ha.covers_child ho hrows)
  have hkey : ∀ r ∈ o.sort rows, ∀ sofar,
      g.order.keyOf (g.rowOf (g.order.keyOf r) sofar) = g.order.keyOf r :=
    fun r hr => ha.keyOf_rowOf ho hg (hrows r ((o.sort_perm rows).subset hr))
  obtain ⟨hascends, hgathers⟩ := Grouping.grouped_classes (hg.order ▸ hsorted) hkey h
  refine ⟨hg.order ▸ hascends, fun key => ?_⟩
  have hitems := hgathers key
  rwa [hg.order, hstable, ha.itemsOf_eq ho hg] at hitems

theorem Wired.exists_grouped (ha : a.Wired) (ho : a.Orders o) (hg : a.Groups o g) {rows : List Row}
    (hrows : ∀ r ∈ rows, r.schema = a.child.schema)
    (h : ∀ r ∈ rows, ∃ x, a.itemsOf (o.rowsOf (o.keyOf r) rows) = [.ok x]) :
    ∃ xs : List Row, g.grouped (o.sort rows) = xs.map .ok := by
  obtain ⟨hsorted, hstable⟩ := SortOrder.sorted_sort (ha.covers_child ho hrows)
  apply Grouping.exists_grouped (hg.order ▸ hsorted)
  intro r hr
  rw [hg.order, hstable, ha.itemsOf_eq ho hg]
  exact h r ((o.sort_perm rows).subset hr)

/-- The groups of rows in another order of the same columns are the same, sorted. -/
theorem Wired.grouped_reordered {g' : Grouping} (ha : a.Wired) (hs : a.Orders standing)
    (hr : a.Orders required) (hg : a.Groups standing g) (hg' : a.Groups required g')
    {rows xs : List Row} (hrows : ∀ r ∈ rows, r.schema = a.child.schema)
    (hxs : ∀ x ∈ xs, required.Covers x) (h : g.grouped (standing.sort rows) = xs.map .ok) :
    g'.grouped (required.sort rows) = (required.sort xs).map .ok := by
  have hcolumns (n : String) : n ∈ required.columns ↔ n ∈ standing.columns :=
    (hr.mem_columns_iff n).trans (hs.mem_columns_iff n).symm
  obtain ⟨-, hgiven⟩ := ha.grouped_spec hs hg hrows h
  -- a group has the same rows in either order, and they stand as in the child
  have hitems (r : Row) : (required.rowsOf (required.keyOf r) xs).map .ok =
      a.itemsOf (required.rowsOf (required.keyOf r) rows) := by
    rw [SortOrder.rowsOf_keyOf_congr hcolumns, SortOrder.rowsOf_keyOf_congr hcolumns, hgiven]
  have hall : ∀ r ∈ rows, ∃ x, a.itemsOf (required.rowsOf (required.keyOf r) rows) = [.ok x] := by
    intro r hmem
    have hself : r ∈ required.rowsOf (required.keyOf r) rows :=
      (mem_classOf _ _).mpr ⟨hmem, Std.ReflCmp.compare_self⟩
    obtain ⟨item, hitem⟩ := exists_itemsOf (a := a) (List.ne_nil_of_mem hself)
    obtain ⟨x, -, rfl⟩ := List.map_eq_singleton_iff.mp ((hitems r).trans hitem)
    exact ⟨x, hitem⟩
  obtain ⟨ys, hys⟩ := ha.exists_grouped hr hg' hrows hall
  obtain ⟨hascends, hclasses⟩ := ha.grouped_spec hr hg' hrows hys
  have hsame : ys = required.sort xs := SortOrder.eq_sort_of_rowsOf hascends hxs fun r =>
    List.map_injective_iff.mpr (fun _ _ => Except.ok.inj) ((hclasses _).trans (hitems r).symm)
  rw [hys, hsame]

theorem Wired.wellTyped (ha : a.Wired) (hf : f.refersOnlyTo a.groupNames)
    (hw : f.wellTyped a.schema) : f.wellTyped a.child.schema := by
  rw [← Filter.wellTyped_congr f fun n hn => ?_]
  · exact hw
  obtain ⟨c, hc, rfl⟩ := List.mem_map.mp (Filter.refersOnlyTo_iff.mp hf n hn)
  have hmem : { c with role := .identifier } ∈ a.schema.columns := by
    rw [ha.columns_eq]
    exact List.mem_append_left _ (List.mem_map.mpr ⟨c, hc, rfl⟩)
  rw [Schema.column?_eq_some_iff.mpr ⟨hmem, rfl⟩,
    Schema.column?_eq_some_iff.mpr ⟨ha.groups c hc, rfl⟩]
  rfl

variable {t u : Table} {input : RowStream}

theorem Groups.gives (hg : a.Groups required g) (hlaid : a.child.schema = t.schema)
    (h : t.Gives required input) (hu : a.schema = u.schema)
    (hgrouped : g.grouped (required.sort t.rows) = (o.sort u.rows).map .ok) (f : Filter) :
    u.Gives o (a.stream o required f g input) where
  laid := hu
  fresh := rfl
  closes r hr := by
    cases hr
    exact ReleaseStack.failure_release (ReleaseStack.closes_register ReleaseStack.held_empty h.closes)
  rows := by
    refine (Grouping.rests_rowsFrom h.rows.rests).1.gives ?_
    rw [← hgrouped]
    exact hg.items_rows hlaid h

theorem unsupportedOrder_isAny_iff : (a.toDataset.unsupportedOrder o).isAny ↔
    (SortOrder.compatible? a.groupBy o).isSome := SortOrder.isAny_unsupported_iff

theorem unsupportedFilter_isAll_iff : (a.toDataset.unsupportedFilter f).isAll ↔
    f.refersOnlyTo a.groupNames := Filter.isAll_unsupported_iff

theorem read_refused (columns : List String)
    (h : ¬((a.toDataset.unsupportedOrder o).isAny ∧ (a.toDataset.unsupportedFilter f).isAll)) :
    ∃ why, a.read o f columns = .fail (.unsupported why) := by
  rw [unsupportedOrder_isAny_iff, unsupportedFilter_isAll_iff] at h
  unfold read requiredOrder
  cases hr : SortOrder.compatible? a.groupBy o with
  | none => exact ⟨_, rfl⟩
  | some required =>
    have hf : ¬f.refersOnlyTo a.groupNames := fun hf => h ⟨by rw [hr]; rfl, hf⟩
    exact ⟨.filter a.producer f, by simp [hf]⟩

section

variable (ha : a.Wired) (hp : a.policy.filters) (hd : a.child.Offers t)
include ha hp hd

/-- An aggregation that gives all its rows gives what is grouped of those of its child, which can be
had in some order of its grouping columns. -/
theorem Wired.grouped_of_yields {rows : List Row} (h : a.toDataset.Yields rows) :
    ∃ standing g input, SortOrder.compatible? a.groupBy .any = some standing ∧
      a.Groups standing g ∧
      (a.child.request standing .all (a.childColumns []) a.policy).outcome = .ok input ∧
      g.grouped (standing.sort t.rows) = rows.map .ok := by
  obtain ⟨given, hread, hanswers⟩ := h
  have hread : (a.read .any .all []).outcome = .ok given := hread
  obtain ⟨standing, hs, -, order, honto, input, hinput, hgroup⟩ := read_eq_ok.mp hread
  have ho : a.Orders standing := orders_of_compatible hs
  cases honto.symm.trans (SortOrder.onto_self (ha.key_mem ho))
  obtain ⟨_, hinput', hgives⟩ := hd.request (a.childColumns []) hp
    (names_of_keys (ha.key_mem ho)) (.refl _) rfl (Filter.all_refersOnlyTo _) hinput
  cases hinput.symm.trans hinput'
  rw [Table.keep_all] at hgives
  have hlaid : input.schema = a.child.schema := hgives.laid.trans hd.laid.symm
  obtain ⟨g, hgrouping, hg⟩ := ha.grouping_ok ho
  obtain ⟨_, hgrouping', rfl⟩ := group_eq_ok.mp hgroup
  rw [hlaid] at hgrouping'
  cases hgrouping.symm.trans hgrouping'
  refine ⟨standing, g, input, hs, hg, hinput, ?_⟩
  rw [← hg.drain_stream hd.laid hgives .any .all]
  exact (RowStream.answers_drain _).unique hanswers

variable (hu : a.schema = u.schema) (hrows : a.toDataset.Yields u.rows)
include hu hrows

theorem Wired.read_offered (hr : SortOrder.compatible? a.groupBy o = some required)
    (hf : f.refersOnlyTo a.groupNames) (hw : f.wellTyped a.schema) (columns : List String) :
    ∃ s, (a.read o f columns).outcome = .ok s ∧ (u.keep f).Gives o s ∧
      s.residualOrder = .any ∧ s.residualFilter = .all := by
  obtain ⟨standing, g, first, hs, hg, hfirst, hall⟩ := ha.grouped_of_yields hp hd hrows
  have hos : a.Orders standing := orders_of_compatible hs
  have hor : a.Orders required := orders_of_compatible hr
  obtain ⟨g', hgrouping, hg'⟩ := ha.grouping_ok hor
  -- the child has given all its rows, so it gives those that pass
  obtain ⟨input, hinput, hkept⟩ := hd.request (a.childColumns columns) hp
    (names_of_keys (ha.key_mem hos)) (SortOrder.columns_perm_of_compatible hr hs)
    (ha.wellTyped hf hw) (hor.refersOnlyTo hf) hfirst
  have hbound : ∀ r ∈ t.rows, r.schema = a.child.schema := hd.laid ▸ t.bound
  have hcovers : ∀ r ∈ u.rows, required.Covers r := u.covers_rows (hu ▸ hor.names ha)
  have hgrouped : g'.grouped (required.sort (t.keep f).rows) =
      (o.sort (u.keep f).rows).map .ok := by
    rw [ha.grouped_keep hd.laid hor hg' hf (ha.grouped_reordered hos hor hg hg' hbound hcovers hall),
      SortOrder.filter_sort_of_compatible hr hs hcovers (ha.grouped_spec hos hg hbound hall).1]
    rfl
  refine ⟨_, ha.read_stream hr hf hgrouping hinput (hkept.laid.trans hd.laid.symm), ?_, ?_, ?_⟩
  · exact hg'.gives (t := t.keep f) (u := u.keep f) hd.laid hkept hu hgrouped f
  · exact RowStream.residualOrder_of_prefix
      (SortOrder.satisfiedBy_iff.mp (SortOrder.satisfiedBy_of_compatible hr))
  · exact RowStream.residualFilter_of_applied rfl

theorem Wired.keyed : a.toDataset.Keyed a.groupNames u where
  laid := hu
  order o := unsupportedOrder_isAny_iff.trans SortOrder.compatible?_isSome_iff
  filter f := unsupportedFilter_isAll_iff
  reads := by
    intro o f columns ho hf hw
    obtain ⟨required, hr⟩ :=
      Option.isSome_iff_exists.mp (unsupportedOrder_isAny_iff.mp ho)
    exact ha.read_offered hp hd hu hrows hr (unsupportedFilter_isAll_iff.mp hf) hw columns
  refuses columns h := by
    obtain ⟨why, hread⟩ := read_refused columns h
    exact ⟨why, congrArg Recorded.outcome hread⟩

end

end Aggregation
end DatasetAlgebra
