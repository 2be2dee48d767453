import DatasetAlgebra.Proofs.Aggregation.OfTable
import DatasetAlgebra.Proofs.Aggregation.Releases
import DatasetAlgebra.Proofs.Aggregation.Reordered
import DatasetAlgebra.Proofs.Dataset.Faults
import DatasetAlgebra.Proofs.Join.Symmetry

/-!
Aggregations of a table whose rows stand in another order. The groups are the same up to the order
of their rows, and what they reduce to is the same, but for one thing: the sums on the way to the
sum of a group depend on that order, and so does whether one of them leaves the range.
-/
namespace DatasetAlgebra

section

variable {κ : Type} {cmp : κ → κ → Ordering} [Std.TransCmp cmp]

/-- Strictly ascending lists of the same items, up to equality in the order, are equal up to it. -/
theorem forall₂_of_strict {ks ls : List κ} (hk : ks.Pairwise fun a b => cmp a b = .lt)
    (hl : ls.Pairwise fun a b => cmp a b = .lt) (h : ∀ k ∈ ks, ∃ l ∈ ls, cmp k l = .eq)
    (h' : ∀ l ∈ ls, ∃ k ∈ ks, cmp k l = .eq) :
    List.Forall₂ (fun k l => cmp k l = .eq) ks ls := by
  induction ks generalizing ls with
  | nil =>
    cases ls with
    | nil => exact .nil
    | cons l ls => simpa using h' l List.mem_cons_self
  | cons k ks ih =>
    cases ls with
    | nil => simpa using h k List.mem_cons_self
    | cons l ls =>
      obtain ⟨hfirst, hk⟩ := List.pairwise_cons.mp hk
      obtain ⟨hleast, hl⟩ := List.pairwise_cons.mp hl
      have hkl : cmp k l = .eq := by
        obtain ⟨m, hm, hkm⟩ := h k List.mem_cons_self
        rcases List.mem_cons.mp hm with rfl | hm
        · exact hkm
        obtain ⟨n, hn, hnl⟩ := h' l List.mem_cons_self
        rcases List.mem_cons.mp hn with rfl | hn
        · exact hnl
        have hlt : cmp k l = .lt := Std.TransCmp.lt_of_lt_of_eq (hfirst n hn) hnl
        have hgt : cmp l k = .lt :=
          Std.TransCmp.lt_of_lt_of_eq (hleast m hm) (Std.OrientedCmp.eq_symm hkm)
        cases hgt.symm.trans (Std.OrientedCmp.gt_of_lt hlt)
      refine .cons hkl (ih hk hl (fun n hn => ?_) fun m hm => ?_)
      · obtain ⟨m, hm, hnm⟩ := h n (List.mem_cons_of_mem _ hn)
        rcases List.mem_cons.mp hm with rfl | hm
        · have hlt := hfirst n hn
          rw [Std.TransCmp.congr_right hnm, hkl] at hlt
          cases hlt
        · exact ⟨m, hm, hnm⟩
      · obtain ⟨n, hn, hnm⟩ := h' m (List.mem_cons_of_mem _ hm)
        rcases List.mem_cons.mp hn with rfl | hn
        · have hlt := hleast m hm
          rw [← Std.TransCmp.congr_left hkl, hnm] at hlt
          cases hlt
        · exact ⟨n, hn, hnm⟩

theorem forall₂_of_partners {α : Type} {R : κ → κ → Prop} {P Q : κ → α → Prop} {S : α → α → Prop}
    {ks ls : List κ} {xs ys : List α} (h : List.Forall₂ R ks ls) (hp : List.Forall₂ P ks xs)
    (hq : List.Forall₂ Q ls ys) (hall : ∀ k l x y, R k l → P k x → Q l y → S x y) :
    List.Forall₂ S xs ys := by
  induction h generalizing xs ys with
  | nil =>
    cases hp
    cases hq
    exact .nil
  | cons hkl _ ih =>
    obtain _ | ⟨hkx, hp⟩ := hp
    obtain _ | ⟨hly, hq⟩ := hq
    exact .cons (hall _ _ _ _ hkl hkx hly) (ih hp hq)

end

namespace SortOrder

variable {o : SortOrder}

theorem Enumerates.forall₂ {keys keys' : List (List Value)} {has : List Value → Prop}
    (h : o.Enumerates keys has) (h' : o.Enumerates keys' has) :
    List.Forall₂ (fun k l => compareAlong o.keys k l = .eq) keys keys' := by
  have hstrict {ks : List (List Value)} (hks : o.Enumerates ks has) :
      ks.Pairwise fun a b => compareAlong o.keys a b = .lt :=
    hks.ascends.imp_of_mem fun ha hb hab => compareKeys_eq (hks.fits _ ha) (hks.fits _ hb) ▸ hab
  have hpartner {ks ls : List (List Value)} (hks : o.Enumerates ks has)
      (hls : o.Enumerates ls has) : ∀ k ∈ ks, ∃ l ∈ ls, compareAlong o.keys l k = .eq := by
    intro k hk
    have hfits := hks.fits k hk
    have hself : o.sameKey k k := (sameKey_iff hfits hfits).mpr Std.ReflCmp.compare_self
    obtain ⟨l, hl, hlk⟩ := (hls.exhausts k hfits).mpr ((hks.exhausts k hfits).mp ⟨k, hk, hself⟩)
    exact ⟨l, hl, (sameKey_iff (hls.fits l hl) hfits).mp hlk⟩
  refine forall₂_of_strict (hstrict h) (hstrict h') (fun k hk => ?_) (hpartner h' h)
  obtain ⟨l, hl, hlk⟩ := hpartner h h' k hk
  exact ⟨l, hl, Std.OrientedCmp.eq_symm hlk⟩

theorem group_congr {k l : List Value} (hk : o.Fits k) (hl : o.Fits l)
    (h : compareAlong o.keys k l = .eq) (rows : List Row) : o.group k rows = o.group l rows := by
  rw [group_eq_rowsOf hk, group_eq_rowsOf hl]
  refine List.filter_congr fun r _ => ?_
  rw [Std.TransCmp.congr_right h]

end SortOrder

section

variable {vs ws : List Value} {v w : Value}

theorem Accumulator.Extreme.collate_eq {d : Direction} (hp : vs.Perm ws) (hv : Extreme d vs v)
    (hw : Extreme d ws w) : v.collate w = .eq := by
  let cmp (a b : Value) : Ordering := d.along (a.collate b)
  have htrans : Std.TransCmp cmp := inferInstance
  have hvw : (cmp v w).isLE := hv.2 w (hp.mem_iff.mpr hw.1)
  have hwv : (cmp w v).isLE := hw.2 v (hp.mem_iff.mp hv.1)
  have heq : cmp v w = .eq := Std.OrientedCmp.isLE_antisymm hvw hwv
  exact Direction.along_eq_eq.mp heq

theorem counted_perm (h : vs.Perm ws) : (counted vs).Perm (counted ws) := h.filter _

theorem counted_eq_nil_iff (h : vs.Perm ws) : counted vs = [] ↔ counted ws = [] := by
  rw [← List.length_eq_zero_iff, ← List.length_eq_zero_iff, (counted_perm h).length_eq]

theorem sum_integers_perm (h : vs.Perm ws) : (integers vs).sum = (integers ws).sum :=
  (h.filterMap _).sum_eq

theorem extremum_collate_eq {d : Direction} {type : ValueType} (hp : vs.Perm ws)
    (hv : if counted vs = [] then v = .null type else Accumulator.Extreme d (counted vs) v)
    (hw : if counted ws = [] then w = .null type else Accumulator.Extreme d (counted ws) w) :
    v.collate w = .eq := by
  by_cases hnil : counted vs = []
  · rw [if_pos hnil] at hv
    rw [if_pos ((counted_eq_nil_iff hp).mp hnil)] at hw
    rw [hv, hw]
    exact Std.ReflCmp.compare_self
  · rw [if_neg hnil] at hv
    rw [if_neg fun h => hnil ((counted_eq_nil_iff hp).mpr h)] at hw
    exact hv.collate_eq (counted_perm hp) hw

theorem Reduces.collate_eq {r : Reducer} {type : ValueType} (hp : vs.Perm ws)
    (hr : r = .sum → type = .integer) (hv : Reduces r type vs v) (hw : Reduces r type ws w) :
    v.collate w = .eq := by
  cases r with
  | sum =>
    have hv := hv (hr rfl)
    have hw := hw (hr rfl)
    by_cases hnil : counted vs = []
    · rw [if_pos hnil] at hv
      rw [if_pos ((counted_eq_nil_iff hp).mp hnil)] at hw
      rw [hv, hw]
      exact Std.ReflCmp.compare_self
    · rw [if_neg hnil] at hv
      rw [if_neg fun h => hnil ((counted_eq_nil_iff hp).mpr h)] at hw
      obtain ⟨n, rfl, hn⟩ := hv
      obtain ⟨m, rfl, hm⟩ := hw
      have hnm : n = m := Int64.toInt_inj.mp (hn.trans ((sum_integers_perm hp).trans hm.symm))
      rw [hnm]
      exact Std.ReflCmp.compare_self
  | min => exact extremum_collate_eq hp hv hw
  | max => exact extremum_collate_eq hp hv hw
  | count =>
    have hvw : v = w := hv.trans ((counted_perm hp).length_eq ▸ hw.symm)
    rw [hvw]
    exact Std.ReflCmp.compare_self

end

/-- The same rows in another order. -/
def Table.rearranged (t : Table) {rows : List Row} (hp : rows.Perm t.rows) : Table :=
  { t with rows := rows, bound := fun r hr => t.bound r (hp.subset hr) }

theorem Table.sortable_rearranged {t : Table} {rows : List Row} {policy : Policy}
    (h : t.Sortable policy) (hp : rows.Perm t.rows) : (t.rearranged hp).Sortable policy :=
  h.imp_right fun ⟨hs, hfits⟩ => ⟨hs, hp.length_eq.trans_le hfits⟩

theorem Table.perm_counts {rows rows' : List (Int64 × Int64)} (h : rows.Perm rows') :
    (counts rows).rows.Perm (counts rows').rows := h.map _

theorem ReleaseStack.failure_register (name : String) (s : RowStream) :
    (empty.register name s).release.failure = s.release.bind Release.failure := by
  unfold register
  cases s.release with
  | none => rfl
  | some r =>
    show failure [r] = r.failure
    unfold failure
    cases hr : r.failure <;> simp [hr]

namespace Aggregation

variable {a : Aggregation} {required : SortOrder} {g : Grouping} {t : Table} {rows : List Row}

/-- Whether the sum over the group of some row overflows on the way. -/
def OverflowsIn (a : Aggregation) (o : SortOrder) (rows : List Row) : Prop :=
  ∃ r ∈ rows, a.OverflowsOn (o.group (o.keyOf r) rows)

theorem not_overflowsOn_nil : ¬a.OverflowsOn [] := by
  rintro ⟨-, -, p, hp, hn⟩
  rw [List.prefix_nil.mp hp] at hn
  exact hn (by decide)

theorem Wired.alike_of_summarizes (ha : a.Wired) (ho : a.Orders required)
    (hi : a.reducer = .sum → a.measure.type = .integer) {group group' : List Row}
    (hp : group.Perm group') (hcovers : ∀ r ∈ group, required.Covers r)
    (hkey : ∀ p ∈ group, ∀ r ∈ group,
      SortOrder.compareAlong required.keys (required.keyOf p) (required.keyOf r) = .eq)
    {x y : Row} (hx : a.Summarizes group x) (hy : a.Summarizes group' y) : x.Alike y := by
  intro n
  by_cases hn : n ∈ a.schema.names
  · have hsplit : n ∈ a.groupNames ∨ n = a.measure.name := by
      simpa [Schema.names, ha.columns_eq, groupNames, resultColumn] using hn
    rcases hsplit with hn | rfl
    · obtain ⟨p, hphead, hpx⟩ := hx.groups
      obtain ⟨r, hrhead, hry⟩ := hy.groups
      have hpmem : p ∈ group := List.mem_of_head? hphead
      have hrmem : r ∈ group := hp.mem_iff.mpr (List.mem_of_head? hrhead)
      rw [hpx n hn, hry n hn]
      exact Filter.alike_of_key (hcovers p hpmem) (hcovers r hrmem) (hkey p hpmem r hrmem) n
        ((ho.mem_columns_iff n).mpr hn)
    · obtain ⟨v, hv, hreduces⟩ := hx.measure
      obtain ⟨w, hw, hreduces'⟩ := hy.measure
      rw [hv, hw]
      exact .some (hreduces.collate_eq (hp.map _) hi hreduces')
  · have hnone {z : Row} (hz : z.schema = a.schema) : z.value? n = none := by
      rw [← Option.not_isSome_iff_eq_none, Row.value?_isSome_iff, hz]
      exact hn
    rw [hnone hx.laid, hnone hy.laid]
    exact .none

/-- What is grouped of rows: a row for each key if no sum overflows, and else a failure behind the
rows of some of the keys. -/
theorem Wired.grouped_items (ha : a.Wired) (ho : a.Orders required) (hg : a.Groups required g)
    (hrows : a.Belong rows) :
    ∃ keys, required.Enumerates keys (fun key => required.group key rows ≠ []) ∧
      (¬a.OverflowsIn required rows →
        ∃ xs, List.Forall₂ (fun k x => a.Summarizes (required.group k rows) x) keys xs ∧
          g.grouped (required.sort rows) = xs.map .ok) ∧
      (a.OverflowsIn required rows → ∃ (xs : List Row) (x y : Int64),
        g.grouped (required.sort rows) =
          xs.map .ok ++ [.error (.arithmetic (.binary "addition" x y))]) := by
  have hcovers := ha.covers_child ho fun r hr => (hrows r hr).1
  have harr : Table.Arranges required rows (required.sort rows) := Table.arranges_sort hcovers
  have hgrouped : g.grouped (required.sort rows) =
      g.itemsAt (required.sort rows) (required.keysOf (required.sort rows)) := by
    have hsorted : g.order.Sorted (required.sort rows) := hg.order ▸ harr.sorted
    rw [Grouping.grouped_eq hsorted, hg.order]
  obtain ⟨keys, hkeys, hitems⟩ := ha.itemsAt_groups ho hg hrows harr
  -- the group of a key is that of a row of the key
  have hgroup {k : List Value} (hk : k ∈ keys) {r : Row}
      (hkr : SortOrder.compareAlong required.keys k (required.keyOf r) = .eq) :
      required.group k rows = required.group (required.keyOf r) rows :=
    SortOrder.group_congr (hkeys.fits k hk) (required.fits_keyOf r) hkr rows
  refine ⟨keys, hkeys, fun hnot => ?_, fun ⟨r, hr, hover⟩ => ?_⟩
  · obtain ⟨xs, hxs, hall, -⟩ := hitems keys [] (by simp) fun k hk hover => by
      obtain ⟨r, hr⟩ : ∃ r, r ∈ required.group k rows := by
        refine List.exists_mem_of_ne_nil _ fun hnil => ?_
        exact not_overflowsOn_nil (hnil ▸ hover)
      obtain ⟨hmem, hsame⟩ := List.mem_filter.mp hr
      have hkr := (SortOrder.sameKey_iff (required.fits_keyOf r) (hkeys.fits k hk)).mp hsame
      exact hnot ⟨r, hmem, hgroup hk (Std.OrientedCmp.eq_symm hkr) ▸ hover⟩
    exact ⟨xs, hxs, hgrouped.trans (hall rfl)⟩
  · have hself : r ∈ required.group (required.keyOf r) rows := by
      refine List.mem_filter.mpr ⟨hr, ?_⟩
      exact (SortOrder.sameKey_iff (required.fits_keyOf r) (required.fits_keyOf r)).mpr
        Std.ReflCmp.compare_self
    obtain ⟨k, hk, hsame⟩ := (hkeys.exhausts _ (required.fits_keyOf r)).mpr
      (List.ne_nil_of_mem hself)
    have hkr := (SortOrder.sameKey_iff (hkeys.fits k hk) (required.fits_keyOf r)).mp hsame
    obtain ⟨before, first, behind, hsplit, hbefore, hfirst⟩ :
        ∃ before first behind, keys = before ++ first :: behind ∧
          (∀ b ∈ before, ¬a.OverflowsOn (required.group b rows)) ∧
          a.OverflowsOn (required.group first rows) := by
      classical
      have hfound : (keys.find? fun k => a.OverflowsOn (required.group k rows)).isSome :=
        List.find?_isSome.mpr ⟨k, hk, by simpa [hgroup hk hkr] using hover⟩
      obtain ⟨first, hfirst⟩ := Option.isSome_iff_exists.mp hfound
      obtain ⟨hover, before, behind, hsplit, hbefore⟩ := List.find?_eq_some_iff_append.mp hfirst
      exact ⟨before, first, behind, hsplit, by simpa using hbefore, by simpa using hover⟩
    obtain ⟨xs, -, -, hfail⟩ := hitems before (first :: behind) hsplit hbefore
    obtain ⟨x, y, hxy⟩ := hfail first behind rfl hfirst
    exact ⟨xs, x, y, hgrouped.trans hxy⟩

theorem Wired.read_all (ha : a.Wired) (hchild : a.child = t.toDataset)
    (hs : t.Sortable a.policy) {order : SortOrder}
    (hr : SortOrder.compatible? a.groupBy order = some required)
    (hgrouping : a.grouping required a.child.schema = .ok g) (hg : a.Groups required g)
    (columns : List String) :
    (¬(t.sorts ∨ required.isAny) → ∀ e, t.closing = some e →
      (a.read order .all columns).outcome = .error e) ∧
    (t.sorts ∨ required.isAny ∨ t.closing = none →
      ∃ s, (a.read order .all columns).outcome = .ok s ∧
        s.Answers (g.grouped (required.sort t.rows) ++ (t.closing.map .error).toList)) := by
  have hmem := ha.key_mem (orders_of_compatible hr)
  have hnames := names_of_keys hmem
  rw [hchild] at hnames
  have hlaid : a.child.schema = t.schema := by rw [hchild]; rfl
  have hall : Filter.all.refersOnlyTo a.groupNames := Filter.all_refersOnlyTo _
  obtain ⟨hfails, hgives⟩ := t.request_all hs hnames (a.childColumns columns)
  rw [show t.toDataset = a.child from hchild.symm] at hfails hgives
  refine ⟨fun hsettled e he => ?_, fun hsettled => ?_⟩
  · have hrequest := hfails hsettled e he
    unfold read requiredOrder
    simp only [hr, if_pos hall, SortOrder.onto_self hmem, Recorded.andThen, hrequest]
  · obtain ⟨input, hinput, hschema, hrows, hrelease⟩ := hgives hsettled
    have hread := ha.read_stream hr hall hgrouping hinput (hschema.trans hlaid.symm)
    refine ⟨_, hread, ?_⟩
    let s := a.stream order required .all g input
    have hitems : (g.rows (input.rows ())).drain.items = g.grouped (required.sort t.rows) := by
      refine Grouping.items_rows hg.reads hrows fun r hr => ?_
      rw [hlaid]
      exact t.bound r ((required.sort_perm t.rows).subset hr)
    have hdrain : s.drain.2.1 = (g.rows (input.rows ())).drain.items ++
        (s.pending.failure.map Except.error).toList := rfl
    have hpending : s.pending.failure = t.closing := by
      rw [← hrelease, ← ReleaseStack.failure_register "aggregation input" input]
      rfl
    have hanswers := s.answers_drain
    rwa [hdrain, hitems, hpending] at hanswers

/-- Reading gives some rows and, behind them, some items. -/
def Reads (x : Recorded RowStream) (xs : List Row) (last : List (Except Error Row)) : Prop :=
  ∃ s, x.outcome = .ok s ∧ s.Answers (xs.map .ok ++ last)

/-- Reading fails with a sum that leaves the range, behind some rows and before some items. -/
def Overruns (x : Recorded RowStream) (last : List (Except Error Row)) : Prop :=
  ∃ (xs : List Row) (m n : Int64),
    Reads x xs (.error (.arithmetic (.binary "addition" m n)) :: last)

theorem group_rearranged (hp : rows.Perm t.rows) (o : SortOrder) (key : List Value) :
    (o.group key rows).Perm (o.group key t.rows) := hp.filter _

/-- A group whose sum is out of range overflows in any order of its rows. -/
theorem overflowsIn_of_sum (hr : a.reducer = .sum) (hi : a.measure.type = .integer) {q : Row}
    (hq : q ∈ t.rows)
    (hsum : ¬Fits64 (integers (a.measures (required.group (required.keyOf q) t.rows))).sum)
    (hp : rows.Perm t.rows) : a.OverflowsIn required rows := by
  have hmeasures := (group_rearranged hp required (required.keyOf q)).map a.measureOf
  refine ⟨q, hp.mem_iff.mpr hq, hr, hi, _, List.prefix_rfl, ?_⟩
  rwa [measures, sum_integers_perm hmeasures]

theorem Wired.alike_grouped (ha : a.Wired) (ho : a.Orders required)
    (hchild : a.child = t.toDataset) (hi : a.reducer = .sum → a.measure.type = .integer)
    (hp : rows.Perm t.rows) {keys keys' : List (List Value)} {xs ys : List Row}
    (hkeys : required.Enumerates keys fun key => required.group key t.rows ≠ [])
    (hkeys' : required.Enumerates keys' fun key => required.group key rows ≠ [])
    (hxs : List.Forall₂ (fun k x => a.Summarizes (required.group k t.rows) x) keys xs)
    (hys : List.Forall₂ (fun k y => a.Summarizes (required.group k rows) y) keys' ys) :
    List.Forall₂ Row.Alike xs ys := by
  have hsame : required.Enumerates keys' fun key => required.group key t.rows ≠ [] :=
    hkeys'.congr fun key _ => by
      rw [ne_eq, ne_eq, ← List.length_eq_zero_iff, ← List.length_eq_zero_iff,
        (group_rearranged hp required key).length_eq]
  have hcovers : ∀ r ∈ t.rows, required.Covers r :=
    ha.covers_child ho fun r hr => (t.bound r hr).trans (by rw [hchild]; rfl)
  refine forall₂_of_partners (hkeys.forall₂ hsame)
    ((List.forall₂_and_left keys xs).mpr ⟨hkeys.fits, hxs⟩)
    ((List.forall₂_and_left keys' ys).mpr ⟨hkeys'.fits, hys⟩) ?_
  rintro k l x y hkl ⟨hk, hx⟩ ⟨hl, hy⟩
  have hgroups : (required.group k t.rows).Perm (required.group l rows) := by
    rw [← SortOrder.group_congr hk hl hkl]
    exact (group_rearranged hp required k).symm
  refine ha.alike_of_summarizes ho hi hgroups (fun p hp => hcovers p (List.mem_of_mem_filter hp))
    (fun p hp r hr => ?_) hx hy
  have hkey {r : Row} (hr : r ∈ required.group k t.rows) :
      SortOrder.compareAlong required.keys (required.keyOf r) k = .eq :=
    (SortOrder.sameKey_iff (required.fits_keyOf r) hk).mp (List.mem_filter.mp hr).2
  exact Std.TransCmp.eq_trans (hkey hp) (Std.OrientedCmp.eq_symm (hkey hr))

theorem Summarizes.ofChild {child : Dataset} {group : List Row} {x : Row}
    (h : (a.rewired child).Summarizes group x) : a.Summarizes group x :=
  ⟨h.laid, h.groups, h.measure⟩

/-- What an aggregation gives does not depend on the order of the rows of its table, but for sums
that leave the range on the way in one order and not in the other. -/
theorem read_rearranged (hp : rows.Perm t.rows) (ht : ∀ r ∈ t.rows, r.conforms) {policy : Policy}
    (hs : t.Sortable policy) {names : List String} {measure : String} {r : Reducer}
    (ha : of t.toDataset names measure r = .ok a) (hi : r = .sum → a.measure.type = .integer)
    {order : SortOrder} (hr : SortOrder.compatible? a.groupBy order = some required)
    (columns : List String) :
    ∃ b, of (t.rearranged hp).toDataset names measure r = .ok b ∧ b.schema = a.schema ∧
      let x := (a.withPolicy policy).read order .all columns
      let y := (b.withPolicy policy).read order .all columns
      let last : List (Except Error Row) := (t.closing.map .error).toList
      ((∃ e, t.closing = some e ∧ x.outcome = .error e ∧ y.outcome = .error e) ∨
        (¬a.OverflowsIn required t.rows → ¬a.OverflowsIn required rows →
          ∃ xs ys, Reads x xs last ∧ Reads y ys last ∧ List.Forall₂ Row.Alike xs ys) ∧
        (a.OverflowsIn required t.rows → Overruns x last) ∧
        (a.OverflowsIn required rows → Overruns y last)) ∧
      ∀ q ∈ t.rows, r = .sum →
        ¬Fits64 (integers (a.measures (required.group (required.keyOf q) t.rows))).sum →
        a.OverflowsIn required t.rows ∧ a.OverflowsIn required rows := by
  let u := t.rearranged hp
  let b := a.rewired u.toDataset
  have hb : of u.toDataset names measure r = .ok b := by
    rw [of_rewired (q := u.toDataset) (d := t.toDataset) rfl, ha]
    rfl
  obtain ⟨hwired, hchild, -, -, hreducer⟩ := wired_of_of ha
  obtain ⟨hwired', hchild', -⟩ := wired_of_of hb
  have hw := hwired.withPolicy policy
  have hw' := hwired'.withPolicy policy
  have ho := orders_of_compatible (a := a.withPolicy policy) hr
  have ho' := orders_of_compatible (a := b.withPolicy policy) hr
  obtain ⟨g, hgrouping, hg⟩ := hw.grouping_ok ho
  obtain ⟨g', hgrouping', hg'⟩ := hw'.grouping_ok ho'
  obtain ⟨hfails, hgives⟩ := hw.read_all hchild hs hr hgrouping hg columns
  obtain ⟨hfails', hgives'⟩ :=
    hw'.read_all hchild' (Table.sortable_rearranged hs hp) hr hgrouping' hg' columns
  have hbelong : (a.withPolicy policy).Belong t.rows := fun r hr =>
    ⟨(t.bound r hr).trans (congrArg Dataset.schema hchild).symm, ht r hr⟩
  have hbelong' : (b.withPolicy policy).Belong u.rows := fun r hr =>
    ⟨u.bound r hr, ht r (hp.subset hr)⟩
  obtain ⟨keys, hkeys, hrows, hover⟩ := hw.grouped_items ho hg hbelong
  obtain ⟨keys', hkeys', hrows', hover'⟩ := hw'.grouped_items ho' hg' hbelong'
  refine ⟨b, hb, rfl, ?_, fun q hq hsum hfits => ?_⟩
  · by_cases hsettled : t.sorts ∨ required.isAny ∨ t.closing = none
    · obtain ⟨s, hs, hanswers⟩ := hgives hsettled
      obtain ⟨s', hs', hanswers'⟩ := hgives' hsettled
      refine .inr ⟨fun hnot hnot' => ?_, fun h => ?_, fun h => ?_⟩
      · obtain ⟨xs, hxs, hx⟩ := hrows hnot
        obtain ⟨ys, hys, hy⟩ := hrows' hnot'
        refine ⟨xs, ys, ⟨s, hs, hx ▸ hanswers⟩, ⟨s', hs', hy ▸ hanswers'⟩, ?_⟩
        exact hwired.alike_grouped ho hchild (fun hsum => hi (hreducer.symm.trans hsum)) hp hkeys
          hkeys' (hxs.imp fun _ _ hx => hx.ofPolicy) (hys.imp fun _ _ hy => hy.ofPolicy.ofChild)
      · obtain ⟨xs, m, n, hx⟩ := hover h
        refine ⟨xs, m, n, s, hs, ?_⟩
        rwa [hx, List.append_assoc] at hanswers
      · obtain ⟨ys, m, n, hy⟩ := hover' h
        refine ⟨ys, m, n, s', hs', ?_⟩
        rwa [hy, List.append_assoc] at hanswers'
    · obtain ⟨hsorts, hany, hclosing⟩ := not_or.mp hsettled |>.imp_right not_or.mp
      obtain ⟨e, he⟩ := Option.ne_none_iff_exists'.mp hclosing
      have hleft : ¬(t.sorts ∨ required.isAny) := not_or.mpr ⟨hsorts, hany⟩
      exact .inl ⟨e, he, hfails hleft e he, hfails' hleft e he⟩
  · have hred : a.reducer = .sum := hreducer.trans hsum
    exact ⟨overflowsIn_of_sum hred (hi hsum) hq hfits (.refl _),
      overflowsIn_of_sum hred (hi hsum) hq hfits hp⟩

/-- Counts summed by identifier, over a table that has to be sorted, in two orders of its rows. -/
theorem read_rearranged_counts :
    ∃ a b xs ys, of (Table.counts [(2, 20), (1, 10), (2, 5)]).toDataset ["id"] "n" .sum = .ok a ∧
      of (Table.counts [(2, 5), (2, 20), (1, 10)]).toDataset ["id"] "n" .sum = .ok b ∧
      Reads ((a.withPolicy ⟨true, 3, true⟩).read .any .all []) xs [] ∧
      Reads ((b.withPolicy ⟨true, 3, true⟩).read .any .all []) ys [] ∧
      List.Forall₂ Row.Alike xs ys := by
  let t := Table.counts [(2, 20), (1, 10), (2, 5)]
  let u := Table.counts [(2, 5), (2, 20), (1, 10)]
  have hp : u.rows.Perm t.rows := Table.perm_counts (by decide)
  obtain ⟨a, ha, hmeasure⟩ : ∃ a, of t.toDataset ["id"] "n" .sum = .ok a ∧
      a.measure = ⟨"n", .measure, .integer⟩ := ⟨_, rfl, rfl⟩
  have hr : SortOrder.compatible? a.groupBy .any = some ⟨SortOrder.complete [] a.groupBy⟩ := rfl
  have hs : t.Sortable ⟨true, 3, true⟩ := Table.sortable_counts rfl (by decide)
  obtain ⟨b, hb, -, ⟨e, he, -⟩ | ⟨hsame, -⟩, -⟩ :=
    read_rearranged hp (by decide) hs ha (fun _ => by rw [hmeasure]) hr []
  · cases he
  -- the sums on the way are among those of the measures of all rows
  have hfits {rows : List Row} {ns : List Int}
      (hrows : (rows.map a.measureOf).filterMap (fun v => v.integer?.map Int64.toInt) = ns)
      (hns : ∀ p ∈ ns.sublists, Fits64 p.sum) :
      ¬a.OverflowsIn ⟨SortOrder.complete [] a.groupBy⟩ rows := by
    rintro ⟨r, -, -, -, p, hprefix, hn⟩
    have hsub : p.Sublist ns :=
      hrows ▸ hprefix.sublist.trans ((List.filter_sublist.map _).filterMap _)
    exact hn (hns p (List.mem_sublists.mpr hsub))
  have hvalues : (t.rows.map a.measureOf).filterMap (fun v => v.integer?.map Int64.toInt) =
      [20, 10, 5] ∧
      (u.rows.map a.measureOf).filterMap (fun v => v.integer?.map Int64.toInt) = [5, 20, 10] := by
    cases ha
    exact ⟨rfl, rfl⟩
  obtain ⟨xs, ys, hx, hy, halike⟩ :=
    hsame (hfits hvalues.1 (by decide)) (hfits hvalues.2 (by decide))
  exact ⟨a, b, xs, ys, ha, hb, hx, hy, halike⟩

/-- A group whose sum is in range: summed as the rows stand a sum on the way is not, and in another
order of the rows all are. -/
theorem overflow_by_order :
    let rows : List (Int64 × Int64) := [(1, Int64.maxValue), (1, 1), (1, -1)]
    let rows' : List (Int64 × Int64) := [(1, Int64.maxValue), (1, -1), (1, 1)]
    rows'.Perm rows ∧ ∃ a b s s' e,
      of (Table.counts rows).toDataset ["id"] "n" .sum = .ok a ∧
      of (Table.counts rows').toDataset ["id"] "n" .sum = .ok b ∧
      ((a.withPolicy ⟨true, 3, true⟩).read .any .all []).outcome = .ok s ∧
      ((b.withPolicy ⟨true, 3, true⟩).read .any .all []).outcome = .ok s' ∧
      s.Answers [.error e] ∧ s'.Answers [.ok (Table.countRow 1 Int64.maxValue)] := by
  refine ⟨by decide, ?_⟩
  obtain ⟨a, b, s, s', e, ha, hb, hs, hs', hdrain, hdrain'⟩ : ∃ a b s s' e,
      of (Table.counts [(1, Int64.maxValue), (1, 1), (1, -1)]).toDataset ["id"] "n" .sum = .ok a ∧
      of (Table.counts [(1, Int64.maxValue), (1, -1), (1, 1)]).toDataset ["id"] "n" .sum = .ok b ∧
      ((a.withPolicy ⟨true, 3, true⟩).read .any .all []).outcome = .ok s ∧
      ((b.withPolicy ⟨true, 3, true⟩).read .any .all []).outcome = .ok s' ∧
      s.drain.2.1 = [.error e] ∧ s'.drain.2.1 = [.ok (Table.countRow 1 Int64.maxValue)] :=
    ⟨_, _, _, _, _, rfl, rfl, by with_unfolding_all rfl, by with_unfolding_all rfl,
      by with_unfolding_all rfl, by with_unfolding_all rfl⟩
  exact ⟨a, b, s, s', e, ha, hb, hs, hs', hdrain ▸ s.answers_drain, hdrain' ▸ s'.answers_drain⟩

end Aggregation
end DatasetAlgebra
