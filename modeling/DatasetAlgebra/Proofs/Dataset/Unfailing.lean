import DatasetAlgebra.Proofs.Aggregation.Reordered
import DatasetAlgebra.Proofs.Dataset.Composed
import DatasetAlgebra.Proofs.Join.Reordered

/-!
Requests of composed datasets, where each of those composed gives all of its rows if all are asked
for. A table is read in any order and through any filter. A join or an aggregation is so by its keys
alone: what else it is asked for it refuses, and no policy makes up for that.
-/
namespace DatasetAlgebra

/-- Datasets composed of tables that close without failure, by joins and aggregations that give all
of their rows. The keys are the identifiers of a join or the grouping columns of an aggregation. -/
inductive Unfailing : Option (List String) → Dataset → Prop
  | table {t : Table} (ht : ∀ r ∈ t.rows, r.conforms) (hc : t.ClosesWell) :
      Unfailing none t.toDataset
  | join {kind : JoinKind} {datasets : List (String × Dataset)} {names : List String} {j : Join}
      (hj : Join.on kind datasets names = .ok j) {policy : Policy} (hp : policy.filters)
      (keys : String × Dataset → Option (List String))
      (h : ∀ d ∈ datasets, Unfailing (keys d) d.2) {rows : List Row}
      (hrows : (j.withPolicy policy).toDataset.Yields rows) :
      Unfailing (some names) (j.withPolicy policy).toDataset
  | aggregation {keys : Option (List String)} {child : Dataset} {names : List String}
      {measure : String} {r : Reducer} {a : Aggregation}
      (ha : Aggregation.of child names measure r = .ok a) {policy : Policy} (hp : policy.filters)
      (h : Unfailing keys child) {rows : List Row}
      (hrows : (a.withPolicy policy).toDataset.Yields rows) :
      Unfailing (some names) (a.withPolicy policy).toDataset

namespace Unfailing

variable {keys : Option (List String)} {d : Dataset} {rows : List Row}

theorem composed (h : Unfailing keys d) : Composed ConformingTable d := by
  induction h with
  | table ht _ => exact .leaf ⟨_, ht, rfl⟩
  | join hj _ _ _ _ ih => exact .join hj _ ih
  | aggregation ha _ _ _ ih => exact .aggregation ha _ ih

theorem exists_table (h : Unfailing keys d) (hrows : d.Yields rows) :
    ∃ t : Table, d.schema = t.schema ∧ t.rows = rows := by
  have hhonest : d.Honest := h.composed.honest fun d hd => by
    obtain ⟨t, ht, rfl⟩ := hd
    exact t.honest ht
  obtain ⟨s, hs, hanswers⟩ := hrows
  have hgiven : rows.map .ok <+: s.drain.2.1 :=
    (RowStream.answers_drain s).unique hanswers ▸ List.prefix_rfl
  have hbound : ∀ r ∈ rows, r.schema = d.schema := fun r hr =>
    (hhonest _ _ _ s hs).rows.bound r ((RowStream.prefix_flow_of_drain hgiven).subset hr)
  exact ⟨{ schema := d.schema, rows := rows, bound := hbound }, rfl, rfl⟩

theorem exists_tables {datasets : List (String × Dataset)}
    (h : ∀ d ∈ datasets, ∃ t, d.2.Offers t) :
    ∃ tables, List.Forall₂ (fun d t => d.2.Offers t) datasets tables := by
  induction datasets with
  | nil => exact ⟨[], .nil⟩
  | cons d rest ih =>
    obtain ⟨⟨t, ht⟩, hrest⟩ := List.forall_mem_cons.mp h
    obtain ⟨tables, htables⟩ := ih hrest
    exact ⟨t :: tables, .cons ht htables⟩

section

variable {names : List String} {policy : Policy} {t : Table}

theorem keyed_join {kind : JoinKind} {datasets : List (String × Dataset)} {j : Join}
    (hj : Join.on kind datasets names = .ok j) (hp : policy.filters)
    (h : ∀ d ∈ datasets, ∃ t, d.2.Offers t) (ht : j.schema = t.schema)
    (hrows : (j.withPolicy policy).toDataset.Yields t.rows) :
    (j.withPolicy policy).toDataset.Keyed names t := by
  obtain ⟨hwired, -, rfl, rfl⟩ := Join.wired_of_on hj
  obtain ⟨tables, htables⟩ := exists_tables h
  exact (hwired.withPolicy policy).keyed hp htables ht hrows

theorem keyed_aggregation {child : Dataset} {measure : String} {r : Reducer} {a : Aggregation}
    (ha : Aggregation.of child names measure r = .ok a) (hp : policy.filters)
    (h : ∃ t, child.Offers t) (ht : a.schema = t.schema)
    (hrows : (a.withPolicy policy).toDataset.Yields t.rows) :
    (a.withPolicy policy).toDataset.Keyed names t := by
  obtain ⟨hwired, rfl, rfl, -⟩ := Aggregation.wired_of_of ha
  obtain ⟨u, hu⟩ := h
  exact (hwired.withPolicy policy).keyed hp hu ht hrows

/-- By induction on how the dataset is composed: what an operation yields, it joins or groups of
what its sources offer, so it is keyed on the rows it yields. -/
theorem offers (h : Unfailing keys d) : ∃ t, d.Offers t := by
  induction h with
  | table ht hc => exact ⟨_, Table.offers ht hc⟩
  | join hj hp keys h hrows ih =>
    obtain ⟨t, ht, rfl⟩ := (Unfailing.join hj hp keys h hrows).exists_table hrows
    exact ⟨t, (keyed_join hj hp ih ht hrows).offers⟩
  | aggregation ha hp h hrows ih =>
    obtain ⟨t, ht, rfl⟩ := (Unfailing.aggregation ha hp h hrows).exists_table hrows
    exact ⟨t, (keyed_aggregation ha hp ih ht hrows).offers⟩

theorem keyed (h : Unfailing (some names) d) (hrows : d.Yields rows) :
    ∃ t, t.rows = rows ∧ d.Keyed names t := by
  obtain ⟨t, ht, rfl⟩ := h.exists_table hrows
  refine ⟨t, rfl, ?_⟩
  cases h with
  | join hj hp keys h => exact keyed_join hj hp (fun d hd => (h d hd).offers) ht hrows
  | aggregation ha hp h => exact keyed_aggregation ha hp h.offers ht hrows

end

/-- An order and a filter that keep to the keys of a dataset, if it has keys. -/
def KeepsTo (keys : Option (List String)) (o : SortOrder) (f : Filter) : Prop :=
  ∀ names ∈ keys, o.columns.Nodup ∧ (∀ n ∈ o.columns, n ∈ names) ∧ f.refersOnlyTo names

variable {o : SortOrder} {f : Filter}

/-- Requested with all fallbacks, such a dataset gives the rows that pass, sorted, if the request
keeps to its keys. Otherwise it cannot be read, and no fallback makes up for that. -/
theorem request_by_keys (h : Unfailing keys d) (hrows : d.Yields rows) (columns : List String) :
    (∀ policy : Policy, policy.sorts → policy.filters → rows.length ≤ policy.capacity →
      (∀ n ∈ o.columns, n ∈ d.schema.names) → f.wellTyped d.schema → KeepsTo keys o f →
      ∃ s out, (d.request o f columns policy).outcome = .ok s ∧ s.Answers (out.map .ok) ∧
        Table.Arranges o (rows.filter f.passes) out) ∧
    (¬KeepsTo keys o f → ∃ why, (d.read o f columns).outcome = .error (.unsupported why) ∧
      ∀ policy, (d.request o f columns policy).outcome = .error (.unsupported why)) := by
  cases keys with
  | none =>
    have hkeeps : KeepsTo none o f := fun _ hnone => by cases hnone
    refine ⟨fun policy hs hp hfits ho hf _ => ?_, fun hnot => absurd hkeeps hnot⟩
    cases h with
    | @table t ht hc =>
      obtain rfl : t.rows = rows := (Table.yields hc).unique hrows
      have hsort : t.Sortable policy := .inr ⟨hs, hfits⟩
      obtain ⟨s, hrequest, hgives, -⟩ := Table.request_ok columns hc (Table.decides ht hf)
        (.inr hp) (.inr (hsort.keep f)) ho
      have hcovers := Table.covers_rows (t := t.keep f) ho
      exact ⟨s, _, hrequest, hgives.answers, Table.arranges_sort hcovers⟩
  | some names =>
    obtain ⟨t, rfl, hkeyed⟩ := h.keyed hrows
    have htaken : KeepsTo (some names) o f ↔
        (d.unsupportedOrder o).isAny ∧ (d.unsupportedFilter f).isAll := by
      simp [KeepsTo, hkeyed.order, hkeyed.filter, and_assoc]
    rw [htaken]
    refine ⟨fun policy _ _ _ ho hf htaken => ?_, hkeyed.request_refused columns⟩
    obtain ⟨s, hrequest, hgives⟩ := hkeyed.request_ok policy columns htaken.1 htaken.2 hf
    have hcovers := Table.covers_rows (t := t.keep f) (hkeyed.laid ▸ ho)
    exact ⟨s, _, hrequest, hgives.answers, Table.arranges_sort hcovers⟩

theorem unfailing_counts (rows : List (Int64 × Int64))
    (h : ∀ r ∈ (Table.counts rows).rows, r.conforms) :
    Unfailing none (Table.counts rows).toDataset :=
  .table h (Table.closesWell_counts rows)

def lenient : Policy := ⟨true, 4, true⟩

def descending (c : Column) : SortOrder := ⟨[⟨c, .descending⟩]⟩

/-- Two tables that have no identifier in common. -/
def apart : List (String × Dataset) :=
  [("a", (Table.counts [(2, 20), (1, 10)]).toDataset), ("b", (Table.counts [(3, 5)]).toDataset)]

def countsApart : List Row := [Table.countRow 1 10, Table.countRow 2 20, Table.countRow 3 5]

theorem unfailing_apart :
    ∃ (j : Join) (a : Aggregation), Join.on .outer apart ["id"] = .ok j ∧
      Aggregation.of (j.withPolicy lenient).toDataset ["id"] "n" .max = .ok a ∧
      a.schema = Table.countSchema ∧ (a.withPolicy lenient).toDataset.Yields countsApart ∧
      Unfailing (some ["id"]) (a.withPolicy lenient).toDataset := by
  obtain ⟨j, s, hj, hs, hdrain⟩ : ∃ j s, Join.on .outer apart ["id"] = .ok j ∧
      (j.withPolicy lenient).toDataset.readAll.outcome = .ok s ∧
      s.drain.2.1 = countsApart.map .ok :=
    ⟨_, _, rfl, by with_unfolding_all rfl, by with_unfolding_all rfl⟩
  have hjoin : Unfailing (some ["id"]) (j.withPolicy lenient).toDataset := by
    refine .join hj rfl (fun _ => none) (fun d hd => ?_) (Dataset.yields_of_drain hs hdrain)
    rcases List.mem_pair.mp hd with rfl | rfl <;> exact unfailing_counts _ (by decide)
  obtain ⟨a, u, ha, hschema, hu, hgroups⟩ : ∃ a u,
      Aggregation.of (j.withPolicy lenient).toDataset ["id"] "n" .max = .ok a ∧
      a.schema = Table.countSchema ∧
      (a.withPolicy lenient).toDataset.readAll.outcome = .ok u ∧
      u.drain.2.1 = countsApart.map .ok := by
    cases hj
    exact ⟨_, _, rfl, rfl, by with_unfolding_all rfl, by with_unfolding_all rfl⟩
  have hyields := Dataset.yields_of_drain hu hgroups
  exact ⟨j, a, hj, ha, hschema, hyields, .aggregation ha rfl hjoin hyields⟩

/-- The greatest counts behind the first identifier are given from the last one downwards. They are
not given in the order of the counts. -/
theorem request_by_keys_counts :
    ∃ (j : Join) (a : Aggregation), Join.on .outer apart ["id"] = .ok j ∧
      Aggregation.of (j.withPolicy lenient).toDataset ["id"] "n" .max = .ok a ∧
      Unfailing (some ["id"]) (a.withPolicy lenient).toDataset ∧
      (a.withPolicy lenient).toDataset.Yields countsApart ∧
      (∃ s out, ((a.withPolicy lenient).toDataset.request
          (descending ⟨"id", .identifier, .integer⟩) (.compare "id" .gt (.ofInt64 1)) []
          lenient).outcome = .ok s ∧ s.Answers (out.map .ok) ∧
        Table.Arranges (descending ⟨"id", .identifier, .integer⟩)
          (countsApart.filter (Filter.compare "id" .gt (.ofInt64 1)).passes) out) ∧
      ∃ why, ((a.withPolicy lenient).toDataset.read (descending ⟨"n", .measure, .integer⟩) .all
          []).outcome = .error (.unsupported why) ∧
        ∀ policy, ((a.withPolicy lenient).toDataset.request (descending ⟨"n", .measure, .integer⟩)
          .all [] policy).outcome = .error (.unsupported why) := by
  obtain ⟨j, a, hj, ha, hschema, hyields, h⟩ := unfailing_apart
  refine ⟨j, a, hj, ha, h, hyields, ?_, ?_⟩
  · have hnames (n : String) (hn : n ∈ Table.countSchema.names) :
        n ∈ (a.withPolicy lenient).toDataset.schema.names := by
      show n ∈ a.schema.names
      rwa [hschema]
    apply (request_by_keys h hyields []).1 lenient rfl rfl (by decide)
    · exact fun n hn => hnames n (by revert n; decide)
    · show Filter.wellTyped a.schema _
      rw [hschema]
      decide
    · rintro _ ⟨⟩
      exact ⟨by decide, by decide, by simp [Filter.refersOnlyTo_iff, Filter.mentions]⟩
  · refine (request_by_keys h hyields []).2 fun hkeeps => ?_
    obtain ⟨-, honly, -⟩ := hkeeps ["id"] rfl
    exact absurd (honly "n" (by decide)) (by decide)

/-- Counts whose sum is out of range for the last identifier. -/
def overflowing : Table := .counts [(1, 1), (2, 2), (3, Int64.maxValue), (3, 1)]

/-- Joins that yield all their rows. One refuses the order of a measure. The other, asked for its
identifiers downwards, comes first to a group that it does not read otherwise, and that fails. -/
theorem unserved :
    (∃ j why, Join.on .outer apart ["id"] = .ok j ∧
      (j.withPolicy lenient).toDataset.Yields countsApart ∧
      ((j.withPolicy lenient).toDataset.request (descending ⟨"n", .measure, .integer⟩) .all []
        lenient).outcome = .error (.unsupported why)) ∧
    ∃ a j s e, Aggregation.of overflowing.toDataset ["id"] "n" .sum = .ok a ∧
      Join.on .inner [("a", (Table.counts [(1, 10)]).toDataset),
        ("b", (a.withPolicy lenient).toDataset)] ["id"] = .ok j ∧
      (j.withPolicy lenient).toDataset.Yields [Table.countRow 1 1] ∧
      ((j.withPolicy lenient).toDataset.request (descending ⟨"id", .identifier, .integer⟩) .all []
        lenient).outcome = .ok s ∧ s.Answers [.error e] := by
  refine ⟨⟨_, _, rfl, ?_, by with_unfolding_all rfl⟩, ?_⟩
  · exact Dataset.yields_of_drain (by with_unfolding_all rfl) (by with_unfolding_all rfl)
  · obtain ⟨a, j, s, u, e, ha, hj, hs, hdrain, hu, herror⟩ : ∃ a j s u e,
        Aggregation.of overflowing.toDataset ["id"] "n" .sum = .ok a ∧
        Join.on .inner [("a", (Table.counts [(1, 10)]).toDataset),
          ("b", (a.withPolicy lenient).toDataset)] ["id"] = .ok j ∧
        (j.withPolicy lenient).toDataset.readAll.outcome = .ok s ∧
        s.drain.2.1 = [Table.countRow 1 1].map .ok ∧
        ((j.withPolicy lenient).toDataset.request (descending ⟨"id", .identifier, .integer⟩) .all []
          lenient).outcome = .ok u ∧ u.drain.2.1 = [.error e] :=
      ⟨_, _, _, _, _, rfl, rfl, by with_unfolding_all rfl, by with_unfolding_all rfl,
        by with_unfolding_all rfl, by with_unfolding_all rfl⟩
    exact ⟨a, j, u, e, ha, hj, Dataset.yields_of_drain hs hdrain, hu, herror ▸ u.answers_drain⟩

end Unfailing
end DatasetAlgebra
