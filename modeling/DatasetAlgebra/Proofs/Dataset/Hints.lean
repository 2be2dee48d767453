import DatasetAlgebra.Dataset.Replay
import DatasetAlgebra.Proofs.Aggregation.Releases
import DatasetAlgebra.Proofs.Dataset.Tables
import DatasetAlgebra.Proofs.Join.Releases

/-!
The columns that joins and aggregations hand to their datasets as a hint. They pass on what they are
asked for as far as a dataset has it; aggregations add their measure. The keys that they read of
every row are in the hint only where the reader asked for them.
-/
namespace DatasetAlgebra

namespace Dataset

/-- Two datasets that answer alike to requests with one hint. -/
structure AlikeFor (hint : List String) (d e : Dataset) : Prop where
  schema : e.schema = d.schema
  read : ∀ o f, e.read o f hint = d.read o f hint

theorem AlikeFor.request {hint : List String} {d e : Dataset} (h : AlikeFor hint d e)
    (o : SortOrder) (f : Filter) (p : Policy) : e.request o f hint p = d.request o f hint p := by
  have hfilter : e.settleFilter p = d.settleFilter p := by
    funext s
    rw [settleFilter, settleFilter, h.schema]
  have horder : e.settleOrder p o = d.settleOrder p o := by
    funext s
    rw [settleOrder, settleOrder, h.schema]
  rw [Dataset.request, Dataset.request, h.read, hfilter, horder]

/-- The same dataset, refusing every request that comes with another hint. -/
def heeding (d : Dataset) (hint : List String) : Dataset :=
  { d with
    read := fun o f columns =>
      if columns = hint then d.read o f columns
      else .fail (.unsupported (.stated "another hint was agreed on")) }

theorem alikeFor_heeding (d : Dataset) (hint : List String) : AlikeFor hint d (d.heeding hint) where
  schema := rfl
  read _ _ := if_pos rfl

/-- The columns of a list that a dataset has. -/
def known (d : Dataset) (columns : List String) : List String := columns.filter d.schema.contains

theorem mem_known {d : Dataset} {columns : List String} {n : String} :
    n ∈ d.known columns ↔ n ∈ columns ∧ n ∈ d.schema.names := by
  rw [known, List.mem_filter, Schema.contains_iff]

/-- A hint that leaves out nothing of what is read. No columns is no hint. -/
def Covers (hint reads : List String) : Prop := hint = [] ∨ ∀ n ∈ reads, n ∈ hint

/-- A hint that has the columns asked for, and some of those read besides, covers all that is read
only if it has the others too. -/
theorem covers_append_iff {hint reads keys : List String} (h : Covers hint reads) :
    Covers hint (keys ++ reads) ↔ hint = [] ∨ ∀ n ∈ keys, n ∈ hint := by
  unfold Covers at *
  rcases h with h | h
  · simp [h]
  · simp only [List.forall_mem_append, and_iff_left h]

end Dataset

namespace Join

variable {j : Join} {q : Request} {order : SortOrder} {f : Filter} {columns : List String}

/-- Datasets of one name, the second of which answers like the first to the hint that a join hands
to it. -/
structure Hears (columns : List String) (d e : String × Dataset) : Prop where
  name : e.1 = d.1
  alike : Dataset.AlikeFor (d.2.known columns) d.2 e.2

variable {first : String × Dataset} {rest : List (String × Dataset)}

theorem openSource_heard {d e : Dataset} (h : Dataset.AlikeFor (d.known q.columns) d e) :
    (j.rewired first rest).openSource q e = j.openSource q d := by
  unfold openSource
  rw [h.schema]
  cases q.order.onto d.schema with
  | error e => rfl
  | ok o => exact h.request o q.filter j.policy

theorem mergeAll_heard {ds es : List (String × Dataset)}
    (h : List.Forall₂ (Hears q.columns) ds es) (sofar : Joined) :
    (j.rewired first rest).mergeAll q sofar es = j.mergeAll q sofar ds := by
  induction h generalizing sofar with
  | nil => rfl
  | @cons d e ds es hde _ ih =>
    obtain ⟨_, d⟩ := d
    obtain ⟨name, e⟩ := e
    obtain ⟨rfl, hde⟩ := hde
    have hschema : e.schema = d.schema := hde.schema
    simp only [mergeAll, openSource_heard hde, hschema, ih]
    rfl

theorem openAll_heard (hfirst : Hears q.columns j.first first)
    (hrest : List.Forall₂ (Hears q.columns) j.rest rest) :
    (j.rewired first rest).openAll q = j.openAll q := by
  have hname : (j.rewired first rest).first.1 = j.first.1 := hfirst.name
  have hschema : (j.rewired first rest).first.2.schema = j.first.2.schema := hfirst.alike.schema
  have hopen : (j.rewired first rest).openSource q (j.rewired first rest).first.2 =
      j.openSource q j.first.2 := openSource_heard hfirst.alike
  have hmerge (sofar : Joined) : (j.rewired first rest).mergeAll q sofar
      (j.rewired first rest).rest = j.mergeAll q sofar j.rest := mergeAll_heard hrest sofar
  have hlast : (j.rewired first rest).rest.isEmpty = j.rest.isEmpty := by
    show rest.isEmpty = j.rest.isEmpty
    generalize j.rest = ds at hrest
    cases hrest <;> rfl
  simp only [openAll, hopen, hname, hschema, hmerge, hlast]
  rfl

theorem read_heard (hfirst : Hears columns j.first first)
    (hrest : List.Forall₂ (Hears columns) j.rest rest) :
    (j.rewired first rest).read order f columns = j.read order f columns := by
  have hrequired : (j.rewired first rest).requiredOrder order = j.requiredOrder order := rfl
  unfold read
  rw [hrequired]
  cases j.requiredOrder order with
  | error e => rfl
  | ok required =>
    simp only [openAll_heard (q := ⟨required, f, columns⟩) hfirst hrest]
    rfl

theorem read_heard_on {kind : JoinKind} {ds es : List (String × Dataset)} {names : List String}
    (hj : on kind ds names = .ok j) (h : List.Forall₂ (Hears columns) ds es) :
    ∃ k, on kind es names = .ok k ∧ ∀ (policy : Policy) (order : SortOrder) (f : Filter),
      (k.withPolicy policy).read order f columns = (j.withPolicy policy).read order f columns := by
  obtain ⟨-, -, hdatasets, -⟩ := wired_of_on hj
  rw [← hdatasets] at h hj
  obtain ⟨first, rest, hfirst, hrest, rfl⟩ := List.forall₂_cons_left_iff.mp h
  have hrewired : on kind (first :: rest) names = (on kind (j.first :: j.rest) names).map _ :=
    on_rewired (h.imp fun _ _ hd => ⟨hd.name, hd.alike.schema⟩) names
  rw [show on kind (j.first :: j.rest) names = .ok j from hj] at hrewired
  exact ⟨j.rewired first rest, hrewired, fun policy order f =>
    read_heard (j := j.withPolicy policy) hfirst hrest⟩

theorem requiredOrder_eq_ok {required : SortOrder} : j.requiredOrder order = .ok required ↔
    SortOrder.compatible? j.identifiers order = some required := by
  unfold requiredOrder
  cases SortOrder.compatible? j.identifiers order <;> simp

/-- The hint for a dataset covers the keys if no column of it is asked for, or all keys are. -/
theorem covers_known {kind : JoinKind} {ds : List (String × Dataset)} {names : List String}
    (hj : on kind ds names = .ok j) {required : SortOrder}
    (hr : j.requiredOrder order = .ok required) {d : String × Dataset} (hd : d ∈ ds) :
    Dataset.Covers (d.2.known columns) (required.columns ++ d.2.known columns) ↔
      d.2.known columns = [] ∨ ∀ n ∈ names, n ∈ columns := by
  obtain ⟨hwired, -, rfl, rfl⟩ := wired_of_on hj
  have hknown : Dataset.Covers (d.2.known columns) (d.2.known columns) := .inr fun _ hn => hn
  rw [Dataset.covers_append_iff hknown]
  have hkeys : ∀ n, n ∈ required.columns ↔ n ∈ j.identifierNames :=
    SortOrder.mem_columns_iff_of_compatible (requiredOrder_eq_ok.mp hr)
  refine or_congr_right (forall_congr' fun n => ?_)
  rw [hkeys, Dataset.mem_known]
  refine imp_congr_right fun hn => and_iff_left ?_
  obtain ⟨c, hc, rfl⟩ := List.mem_map.mp hn
  exact List.mem_map_of_mem (hwired.shared d hd c hc)

end Join

namespace Aggregation

variable {a : Aggregation} {order : SortOrder} {f : Filter} {columns : List String}

theorem childColumns_rewired {q : Dataset} (h : q.schema = a.child.schema) (columns : List String) :
    (a.rewired q).childColumns columns = a.childColumns columns := by
  simp [childColumns, rewired, h]

theorem read_heard {q : Dataset} (h : Dataset.AlikeFor (a.childColumns columns) a.child q) :
    (a.rewired q).read order f columns = a.read order f columns := by
  have hrequired : (a.rewired q).requiredOrder order = a.requiredOrder order := rfl
  have hnames : (a.rewired q).groupNames = a.groupNames := rfl
  have hgroup : (a.rewired q).group = a.group := rfl
  have hschema : (a.rewired q).child.schema = a.child.schema := h.schema
  have hrequest (o : SortOrder) : (a.rewired q).child.request o f (a.childColumns columns)
      (a.rewired q).policy = a.child.request o f (a.childColumns columns) a.policy :=
    h.request o f a.policy
  have hproducer : (a.rewired q).producer = a.producer := rfl
  simp only [read, hrequired, hnames, hgroup, hschema, hproducer, childColumns_rewired h.schema,
    hrequest]

theorem childColumns_eq (a : Aggregation) (columns : List String) :
    a.childColumns columns = a.child.known columns ++
      if a.child.known columns = [] ∨ a.measure.name ∈ a.child.known columns then []
      else [a.measure.name] := by
  unfold childColumns Dataset.known
  simp only [List.isEmpty_iff, List.contains_iff_mem, Bool.or_eq_true]
  split <;> simp

theorem childColumns_eq_nil_iff : a.childColumns columns = [] ↔ a.child.known columns = [] := by
  rw [childColumns_eq]
  constructor
  · exact fun h => (List.append_eq_nil_iff.mp h).1
  · intro h
    simp [h]

theorem covers_measure (a : Aggregation) (columns : List String) :
    Dataset.Covers (a.childColumns columns) (a.measure.name :: a.child.known columns) := by
  rw [Dataset.Covers, childColumns_eq_nil_iff]
  refine or_iff_not_imp_left.mpr fun hne => List.forall_mem_cons.mpr ?_
  rw [childColumns_eq]
  refine ⟨?_, fun n hn => List.mem_append_left _ hn⟩
  by_cases hm : a.measure.name ∈ a.child.known columns
  · exact List.mem_append_left _ hm
  · simp [hne, hm]

theorem mem_childColumns_iff {n : String} (hn : n ≠ a.measure.name) :
    n ∈ a.childColumns columns ↔ n ∈ a.child.known columns := by
  rw [childColumns_eq]
  split <;> simp [hn]

theorem requiredOrder_eq_ok {required : SortOrder} : a.requiredOrder order = .ok required ↔
    SortOrder.compatible? a.groupBy order = some required := by
  unfold requiredOrder
  cases SortOrder.compatible? a.groupBy order <;> simp

theorem covers_childColumns {child : Dataset} {names : List String} {measure : String}
    {r : Reducer} (ha : of child names measure r = .ok a) {required : SortOrder}
    (hr : a.requiredOrder order = .ok required) :
    Dataset.Covers (a.childColumns columns)
        (required.columns ++ measure :: child.known columns) ↔
      child.known columns = [] ∨ ∀ n ∈ names, n ∈ columns := by
  obtain ⟨hwired, rfl, rfl, rfl, -⟩ := wired_of_of ha
  rw [Dataset.covers_append_iff (a.covers_measure columns), childColumns_eq_nil_iff]
  have hkeys : ∀ n, n ∈ required.columns ↔ n ∈ a.groupNames :=
    SortOrder.mem_columns_iff_of_compatible (requiredOrder_eq_ok.mp hr)
  refine or_congr_right (forall_congr' fun n => ?_)
  rw [hkeys]
  refine imp_congr_right fun hn => ?_
  obtain ⟨c, hc, rfl⟩ := List.mem_map.mp hn
  rw [mem_childColumns_iff (hwired.name_ne hc), Dataset.mem_known]
  exact and_iff_left (List.mem_map_of_mem (hwired.groups c hc))

theorem read_heard_of {child q : Dataset} {names : List String} {measure : String} {r : Reducer}
    (ha : of child names measure r = .ok a)
    (h : Dataset.AlikeFor (a.childColumns columns) child q) :
    ∃ b, of q names measure r = .ok b ∧ ∀ (policy : Policy) (order : SortOrder) (f : Filter),
      (b.withPolicy policy).read order f columns = (a.withPolicy policy).read order f columns := by
  obtain ⟨-, rfl, -⟩ := wired_of_of ha
  have hrewired := of_rewired h.schema names measure r
  rw [ha] at hrewired
  exact ⟨a.rewired q, hrewired, fun policy order f => read_heard (a := a.withPolicy policy) h⟩

end Aggregation

namespace Dataset

/-- Nothing is handed to datasets but the columns asked for of them and, by an aggregation, the
measure. That covers the keys just if it is nothing, or all keys were asked for. -/
theorem hints_handed (columns : List String) :
    (∀ {kind : JoinKind} {ds : List (String × Dataset)} {names : List String} {j : Join},
      Join.on kind ds names = .ok j →
      (∀ {es : List (String × Dataset)}, List.Forall₂ (Join.Hears columns) ds es →
        ∃ k, Join.on kind es names = .ok k ∧ ∀ (policy : Policy) (order : SortOrder) (f : Filter),
          (k.withPolicy policy).read order f columns =
            (j.withPolicy policy).read order f columns) ∧
      ∀ {order required : SortOrder}, j.requiredOrder order = .ok required → ∀ d ∈ ds,
        (Covers (d.2.known columns) (required.columns ++ d.2.known columns) ↔
          d.2.known columns = [] ∨ ∀ n ∈ names, n ∈ columns)) ∧
    ∀ {child : Dataset} {names : List String} {measure : String} {r : Reducer} {a : Aggregation},
      Aggregation.of child names measure r = .ok a →
      (∀ {q : Dataset}, AlikeFor (a.childColumns columns) child q →
        ∃ b, Aggregation.of q names measure r = .ok b ∧
          ∀ (policy : Policy) (order : SortOrder) (f : Filter),
            (b.withPolicy policy).read order f columns =
              (a.withPolicy policy).read order f columns) ∧
      Covers (a.childColumns columns) (measure :: child.known columns) ∧
      ∀ {order required : SortOrder}, a.requiredOrder order = .ok required →
        (Covers (a.childColumns columns) (required.columns ++ measure :: child.known columns) ↔
          child.known columns = [] ∨ ∀ n ∈ names, n ∈ columns) := by
  refine ⟨fun hj => ⟨fun h => Join.read_heard_on hj h, fun hr d hd => Join.covers_known hj hr hd⟩,
    fun {child names measure r a} ha => ⟨fun h => Aggregation.read_heard_of ha h, ?_,
      fun hr => Aggregation.covers_childColumns ha hr⟩⟩
  obtain ⟨-, rfl, -, rfl, -⟩ := Aggregation.wired_of_of ha
  exact a.covers_measure columns

/-- A source of counts that shows what it is asked for. -/
def source : Replay :=
  ⟨"a", Table.countSchema, Table.countSchema, [], none, none, true, none, none, true⟩

def byId : SortOrder := .ascending Table.countSchema.identifiers

/-- A reader that asks for the key has it in all hints, and the datasets may insist on them. -/
theorem hints_handed_counts :
    let columns := ["id", "n"]
    let twin := source.toDataset.heeding columns
    ∃ j k a, Join.on .inner [("left", source.toDataset), ("right", source.toDataset)] ["id"] =
        .ok j ∧
      Join.on .inner [("left", twin), ("right", twin)] ["id"] = .ok k ∧
      (k.withPolicy .standard).read byId .all columns =
        (j.withPolicy .standard).read byId .all columns ∧
      Covers (source.toDataset.known columns) (byId.columns ++ source.toDataset.known columns) ∧
      Aggregation.of source.toDataset ["id"] "n" .sum = .ok a ∧
      Covers (a.childColumns ["id"])
        (byId.columns ++ "n" :: source.toDataset.known ["id"]) := by
  intro columns twin
  obtain ⟨j, hj, hjr⟩ : ∃ j,
      Join.on .inner [("left", source.toDataset), ("right", source.toDataset)] ["id"] = .ok j ∧
      j.requiredOrder byId = .ok byId := ⟨_, rfl, by with_unfolding_all rfl⟩
  obtain ⟨a, ha, har⟩ : ∃ a, Aggregation.of source.toDataset ["id"] "n" .sum = .ok a ∧
      a.requiredOrder byId = .ok byId := ⟨_, rfl, by with_unfolding_all rfl⟩
  obtain ⟨hread, hjoin⟩ := (hints_handed columns).1 hj
  obtain ⟨-, -, haggregation⟩ := (hints_handed ["id"]).2 ha
  have hknown : source.toDataset.known columns = columns := by decide
  have hears (name : String) : Join.Hears columns (name, source.toDataset) (name, twin) :=
    ⟨rfl, hknown.symm ▸ alikeFor_heeding _ _⟩
  obtain ⟨k, hk, hsame⟩ := hread (.cons (hears "left") (.cons (hears "right") .nil))
  exact ⟨j, k, a, hj, hk, hsame .standard byId .all,
    (hjoin hjr _ (.head _)).mpr (.inr (by decide)), ha,
    (haggregation har).mpr (.inr (by decide))⟩

/-- A reader that asks for the measure only has no key in the hints, of a join or an aggregation,
though both read the key of every row. -/
theorem keys_left_out :
    ∃ j a, Join.on .inner [("left", source.toDataset), ("right", source.toDataset)] ["id"] =
        .ok j ∧
      Aggregation.of source.toDataset ["id"] "n" .sum = .ok a ∧
      j.requiredOrder byId = .ok byId ∧ a.requiredOrder byId = .ok byId ∧
      (j.toDataset.read byId .all ["n"]).log =
        [.opened "a" byId .all ["n"], .opened "a" byId .all ["n"]] ∧
      (a.toDataset.read byId .all ["n"]).log = [.opened "a" byId .all ["n"]] ∧
      ¬ Covers ["n"] byId.columns := by
  refine ⟨_, _, rfl, rfl, by with_unfolding_all rfl, by with_unfolding_all rfl,
    by with_unfolding_all rfl, by with_unfolding_all rfl, ?_⟩
  rintro (h | h)
  · exact absurd h (by decide)
  · exact absurd (h "id" (by decide)) (by decide)

end Dataset
end DatasetAlgebra
