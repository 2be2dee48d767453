import DatasetAlgebra.Proofs.Aggregation.Releases
import DatasetAlgebra.Proofs.Aggregation.Reordered
import DatasetAlgebra.Proofs.Stream.Pulls
import Mathlib.Data.List.SplitBy

/-!
Grouping of rows in any order, up to a failure if there is one. Each maximal run of rows with equal
keys gives one row. A failure takes the place of the row of the run that it comes upon.
-/
namespace DatasetAlgebra

/-- The maximal runs of rows with equal keys. -/
def SortOrder.runs (o : SortOrder) (rows : List Row) : List (List Row) :=
  rows.splitBy fun p q => o.sameKey (o.keyOf p) (o.keyOf q)

namespace SortOrder

variable {o : SortOrder}

theorem sameKey_keyOf {p q : Row} : o.sameKey (o.keyOf p) (o.keyOf q) ↔
    compareAlong o.keys (o.keyOf p) (o.keyOf q) = .eq :=
  sameKey_iff (o.fits_keyOf p) (o.fits_keyOf q)

theorem runs_cons (o : SortOrder) (a : Row) (rows : List Row) :
    let same (r : Row) := o.sameKey (o.keyOf a) (o.keyOf r)
    o.runs (a :: rows) = (a :: rows.takeWhile same) :: o.runs (rows.dropWhile same) := by
  intro same
  have hrun : ∀ r ∈ a :: rows.takeWhile same,
      compareAlong o.keys (o.keyOf a) (o.keyOf r) = .eq :=
    List.forall_mem_cons.mpr ⟨Std.ReflCmp.compare_self,
      fun r hr => sameKey_keyOf.mp (List.mem_takeWhile_imp (p := same) hr)⟩
  have hchain : (a :: rows.takeWhile same).IsChain fun p q =>
      o.sameKey (o.keyOf p) (o.keyOf q) :=
    List.Pairwise.isChain <| List.pairwise_of_forall_mem_list fun p hp q hq =>
      sameKey_keyOf.mpr <|
        Std.TransCmp.eq_trans (Std.OrientedCmp.eq_symm (hrun p hp)) (hrun q hq)
  have hends : ∀ p ∈ (a :: rows.takeWhile same).getLast?, ∀ q ∈ (rows.dropWhile same).head?,
      o.sameKey (o.keyOf p) (o.keyOf q) = false := by
    intro p hp q hq
    have hq' : same q = false := by
      have hhead := List.head?_dropWhile_not same rows
      rwa [hq] at hhead
    refine Bool.eq_false_iff.mpr fun hpq => Bool.eq_false_iff.mp hq' (sameKey_keyOf.mpr ?_)
    exact Std.TransCmp.eq_trans (hrun p (List.mem_of_getLast? hp)) (sameKey_keyOf.mp hpq)
  have hsplit : a :: rows = (a :: rows.takeWhile same) ++ rows.dropWhile same := by
    rw [List.cons_append, List.takeWhile_append_dropWhile]
  rw [runs, hsplit, List.splitBy_append hends,
    List.splitBy_of_isChain (List.cons_ne_nil _ _) hchain]
  rfl

end SortOrder

namespace Grouping

variable {g : Grouping} {source : Schema}

theorem grouped_cons_eq_ok {r : Row} {rows xs : List Row} (h : g.grouped (r :: rows) = xs.map .ok) :
    ∃ sofar, g.reduce [g.measured r] = .ok sofar ∧
      ∀ es, g.resumed ⟨es, g.order.keyOf r, sofar⟩ rows = xs.map .ok := by
  rw [grouped_cons] at h
  cases hstart : g.reduce [g.measured r] with
  | error e =>
    rw [hstart] at h
    obtain ⟨x, -, hx⟩ := List.map_eq_singleton_iff.mp h.symm
    cases hx
  | ok sofar =>
    rw [hstart] at h
    exact ⟨sofar, rfl, fun _ => h⟩

/-- Behind some rows, all groups but the last have been given, and that one is open. -/
theorem leadsTo_rowsFrom_some (hg : g.Reads source) {input last : Rows} {rows xs : List Row}
    (hi : input.LeadsTo last rows) (hrows : ∀ r ∈ rows, r.schema = source) {group : OpenGroup}
    (h : g.resumed group rows = xs.map .ok) :
    ∃ ys next, xs = ys ++ [g.row next] ∧
      (g.rowsFrom (some group) input).LeadsTo (g.rowsFrom (some next) last) ys := by
  induction hi generalizing group xs with
  | here =>
    obtain ⟨x, rfl, hx⟩ := List.map_eq_singleton_iff.mp (h.symm.trans (g.resumed_nil group))
    exact ⟨[], group, by rw [Except.ok.inj hx, List.nil_append], .here _⟩
  | row es r hrest ih =>
    rw [List.forall_mem_cons] at hrows
    rw [rowsFrom]
    simp only [hg.keys r hrows.1]
    by_cases hsame : g.sameGroup group.key r
    · have hkey : g.order.sameKey group.key (g.order.keyOf r) := hsame
      rw [if_pos hkey, extend_eq hg group es hrows.1]
      rw [resumed_same hsame _ (group.events ++ es)] at h
      cases hadd : group.sofar.add (g.measured r) with
      | error e =>
        rw [hadd] at h
        obtain ⟨x, -, hx⟩ := List.map_eq_singleton_iff.mp h.symm
        cases hx
      | ok sofar =>
        rw [hadd] at h
        exact ih hrows.2 h
    · have hkey : ¬g.order.sameKey group.key (g.order.keyOf r) := hsame
      rw [if_neg hkey, start_eq hg [] _ hrows.1]
      rw [resumed_other hsame] at h
      obtain ⟨x, zs, rfl, hx, hzs⟩ := List.map_eq_cons_iff.mp h.symm
      obtain ⟨sofar, hstart, hresumed⟩ := grouped_cons_eq_ok hzs.symm
      obtain ⟨ys, next, rfl, hleads⟩ := ih hrows.2 (hresumed [])
      rw [hstart, ← Except.ok.inj hx]
      exact ⟨x :: ys, next, rfl, .row _ x hleads⟩

theorem leadsTo_rows (hg : g.Reads source) {input last : Rows} {r : Row} {rows xs : List Row}
    (hi : input.LeadsTo last (r :: rows)) (hrows : ∀ q ∈ r :: rows, q.schema = source)
    (h : g.grouped (r :: rows) = xs.map .ok) :
    ∃ ys next, xs = ys ++ [g.row next] ∧
      (g.rows input).LeadsTo (g.rowsFrom (some next) last) ys := by
  cases hi with
  | row es r hrest =>
    rw [List.forall_mem_cons] at hrows
    obtain ⟨sofar, hstart, hresumed⟩ := grouped_cons_eq_ok h
    rw [Grouping.rows, rowsFrom]
    simp only [hg.keys r hrows.1, Except.bind, start_eq hg es _ hrows.1, hstart]
    exact leadsTo_rowsFrom_some hg hrest hrows.2 (hresumed es)

theorem answers_stop (es : List Event) (e : Error) : (stop es e).Answers [.error e] :=
  Rows.Answers.poll (Rows.item_ended _)

theorem answers_rows_of_failure (hg : g.Reads source) {input : Rows} {rows xs : List Row}
    {e : Error} {more : List (Except Error Row)}
    (hi : input.Answers (rows.map .ok ++ .error e :: more)) (hrows : ∀ r ∈ rows, r.schema = source)
    (h : g.grouped rows = xs.map .ok) :
    (g.rows input).Answers (xs.dropLast.map .ok ++ [.error e]) := by
  obtain ⟨last, hleads, hlast⟩ := Rows.exists_leadsTo hi
  obtain ⟨es, rest, rfl⟩ : ∃ es rest, last = .poll ⟨es, some (.error e)⟩ rest := by
    cases last with
    | ended ending => cases hlast 0
    | poll p rest =>
      obtain ⟨es, item⟩ := p
      have hhead : item = some (.error e) := hlast 0
      exact ⟨es, rest, by rw [hhead]⟩
  cases rows with
  | nil =>
    cases hleads
    obtain rfl : xs = [] := List.map_eq_nil_iff.mp (h.symm.trans g.grouped_nil)
    exact answers_stop es e
  | cons r rows =>
    obtain ⟨ys, next, rfl, hgiven⟩ := leadsTo_rows hg hleads hrows h
    rw [List.dropLast_concat]
    exact hgiven.answers (answers_stop _ e)

end Grouping

namespace Aggregation

variable {a : Aggregation} {required : SortOrder} {g : Grouping}

/-- The row of a run: it has the grouping values of the run, and the measures of the rows of the
run, all of them and no others, accumulated. -/
structure Condenses (a : Aggregation) (run : List Row) (x : Row) : Prop
    extends a.Summarizes run x where
  accumulated : ∃ sofar,
    (Accumulator.empty a.reducer a.measure.type).addAll (a.measures run) = .ok sofar ∧
      x.value? a.measure.name = some sofar.result

theorem Condenses.ofChild {child : Dataset} {run : List Row} {x : Row}
    (h : (a.rewired child).Condenses run x) : a.Condenses run x :=
  ⟨⟨h.laid, h.groups, h.measure⟩, h.accumulated⟩

/-- Rows in any order are grouped to one row for each of their runs. -/
theorem Wired.grouped_runs (ha : a.Wired) (ho : a.Orders required) (hg : a.Groups required g)
    {rows : List Row} (hb : a.Belong rows) (h : ∀ run ∈ required.runs rows, ¬a.OverflowsOn run) :
    ∃ xs, List.Forall₂ a.Condenses (required.runs rows) xs ∧ g.grouped rows = xs.map .ok := by
  induction hn : rows.length using Nat.strong_induction_on generalizing rows with
  | _ n ih
  cases rows with
  | nil => exact ⟨[], .nil, g.grouped_nil⟩
  | cons r rows =>
    let same (q : Row) := required.sameKey (required.keyOf r) (required.keyOf q)
    have hsame : g.sameGroup (required.keyOf r) = same := by
      funext q
      rw [Grouping.sameGroup, hg.order]
    have hruns : required.runs (r :: rows) =
        (r :: rows.takeWhile same) :: required.runs (rows.dropWhile same) :=
      required.runs_cons r rows
    rw [hruns, List.forall_mem_cons] at h
    obtain ⟨hrun, hmore⟩ := h
    have hfirst : a.Belong (r :: rows.takeWhile same) :=
      List.forall_mem_cons.mpr ⟨hb r List.mem_cons_self,
        fun q hq => hb q (List.mem_cons_of_mem r ((List.takeWhile_sublist _).subset hq))⟩
    have hbehind : a.Belong (rows.dropWhile same) :=
      fun q hq => hb q (List.mem_cons_of_mem r ((List.dropWhile_sublist _).subset hq))
    obtain ⟨sofar, hreduce, hrow⟩ := ha.reduce_ok ho hg hfirst rfl hrun
    have hlt : (rows.dropWhile same).length < n :=
      hn ▸ Nat.lt_succ_of_le (List.dropWhile_suffix _).length_le
    obtain ⟨xs, hxs, hitems⟩ := ih _ hlt hbehind hmore rfl
    have hcondenses : a.Condenses (r :: rows.takeWhile same)
        (g.rowOf (required.keyOf r) sofar) :=
      ⟨hrow, sofar, (hg.reduce_eq _).symm.trans hreduce, ha.value?_measure hg _ sofar⟩
    rw [hruns]
    refine ⟨_, .cons hcondenses hxs, ?_⟩
    rw [Grouping.grouped]
    simp only [hg.order, hsame, hreduce, hitems]
    rfl

/-- Each maximal run of equal keys gives one row of the rows of that run, in whatever order rows
come. A failure is given in the place of the open run, and nothing behind. -/
theorem grouping_until_failure {child : Dataset} {names : List String} {measure : String}
    {r : Reducer} {order : SortOrder} {source : Schema} (ha : of child names measure r = .ok a)
    (hr : SortOrder.compatible? a.groupBy order = some required)
    (hs : ∀ c ∈ a.measure :: a.groupBy, c ∈ source.columns) :
    ∃ g, a.grouping required source = .ok g ∧
      ∀ (input : Rows) (rows : List Row), (∀ r ∈ rows, r.schema = source ∧ r.conforms) →
        (∀ run ∈ required.runs rows, ¬a.OverflowsOn run) →
        (input.Answers (rows.map .ok) →
          ∃ xs, List.Forall₂ a.Condenses (required.runs rows) xs ∧
            (g.rows input).Answers (xs.map .ok)) ∧
        ∀ e more, input.Answers (rows.map .ok ++ .error e :: more) →
          ∃ xs, List.Forall₂ a.Condenses (required.runs rows).dropLast xs ∧
            (g.rows input).Answers (xs.map .ok ++ [.error e]) := by
  rw [List.forall_mem_cons] at hs
  obtain ⟨hwired, -⟩ := wired_of_of ha
  -- the aggregation looks at no more of its child than the schema of the rows
  let b := a.rewired { child with schema := source }
  have hb : b.Wired := ⟨hs.2, hs.1, hwired.numeric, hwired.output⟩
  have ho : b.Orders required := orders_of_compatible (a := b) hr
  obtain ⟨g, hgrouping, hg⟩ := hb.grouping_ok ho
  refine ⟨g, hgrouping, fun input rows hrows hsums => ?_⟩
  have hlaid : ∀ r ∈ rows, r.schema = source := fun r hr => (hrows r hr).1
  obtain ⟨xs, hxs, hgrouped⟩ := hb.grouped_runs ho hg hrows hsums
  replace hxs : List.Forall₂ a.Condenses (required.runs rows) xs :=
    hxs.imp fun _ _ hx => hx.ofChild
  refine ⟨fun hi => ⟨xs, hxs, ?_⟩, fun e more hi => ⟨xs.dropLast, ?_, ?_⟩⟩
  · have hgives := Rows.gives_of_answers hi
    rw [← hgrouped, ← Grouping.items_rows hg.reads hgives hlaid]
    exact (Grouping.rests_rowsFrom hgives.rests).1.answers
  · rw [List.dropLast_eq_take, List.dropLast_eq_take, hxs.length_eq]
    exact List.forall₂_take _ hxs
  · exact Grouping.answers_rows_of_failure hg.reads hi hlaid hgrouped

/-- Counts that are not sorted, and a failure behind them: a key that comes again behind another one
gives another row, and the last run gives none. -/
theorem grouping_until_failure_counts :
    let rows := (Table.counts [(2, 20), (2, 5), (1, 10), (2, 1)]).rows
    let lost : Error := .unknown "lost"
    ∃ (a : Aggregation) (required : SortOrder) (g : Grouping) (xs : List Row),
      of (Table.counts []).toDataset ["id"] "n" .sum = .ok a ∧
      a.grouping required Table.countSchema = .ok g ∧
      List.Forall₂ a.Condenses (required.runs rows).dropLast xs ∧
      (g.rows (.ofItems (rows.map .ok ++ [.error lost]))).Answers
        (xs.map .ok ++ [.error lost]) := by
  intro rows lost
  obtain ⟨a, ha⟩ : ∃ a, of (Table.counts []).toDataset ["id"] "n" .sum = .ok a := ⟨_, rfl⟩
  have hr : SortOrder.compatible? a.groupBy .any = some ⟨SortOrder.complete [] a.groupBy⟩ := rfl
  have hs : ∀ c ∈ a.measure :: a.groupBy, c ∈ Table.countSchema.columns := by
    cases ha
    decide
  obtain ⟨g, hg, hgroups⟩ := grouping_until_failure ha hr hs
  obtain ⟨-, hfails⟩ := hgroups (.ofItems (rows.map .ok ++ [.error lost])) rows (by decide)
    fun run hrun hover => by
      -- the sums on the way are among those of the measures of all rows
      obtain ⟨-, -, p, hp, hn⟩ := hover
      have hsub : run.Sublist rows := by
        rw [← List.flatten_splitBy _ rows]
        exact List.sublist_flatten_of_mem hrun
      have hints : p.Sublist [20, 5, 10, 1] := by
        cases ha
        exact hp.sublist.trans ((hsub.map _).filterMap _)
      have hfits : ∀ p ∈ [20, 5, 10, 1].sublists, Fits64 p.sum := by decide
      exact hn (hfits p (List.mem_sublists.mpr hints))
  obtain ⟨xs, hxs, hanswers⟩ := hfails lost [] (Rows.answers_ofItems _)
  exact ⟨a, _, g, xs, ha, hg, hxs, hanswers⟩

end Aggregation
end DatasetAlgebra
