import DatasetAlgebra.Proofs.Join.RowJoin
import DatasetAlgebra.Proofs.Join.Wiring

/-!
Reading a join folds merge joins over its datasets. Wired as it is, no step of the fold fails: what
can fail is the opening of a dataset. After each step the rows so far are those of a merge join,
laid out in the schema of the join.
-/
namespace DatasetAlgebra

namespace Join

variable {j : Join} {q : Request} {d : String × Dataset}

/-- The order of a request goes by identifiers of the join. -/
def Request.Within (q : Request) (j : Join) : Prop := ∀ k ∈ q.order.keys, k.column ∈ j.identifiers

theorem exists_identifier (hq : q.Within j) {n : String} (hn : n ∈ q.order.columns) :
    ∃ c ∈ j.identifiers, c.name = n := by
  obtain ⟨k, hk, rfl⟩ := List.mem_map.mp hn
  exact ⟨k.column, hq k hk, rfl⟩

theorem Wired.mem_names (hj : j.Wired) (hq : q.Within j) (hd : d ∈ j.datasets) :
    ∀ n ∈ q.order.columns, n ∈ d.2.schema.names := by
  intro n hn
  obtain ⟨c, hc, rfl⟩ := exists_identifier hq hn
  exact List.mem_map_of_mem (hj.shared d hd c hc)

theorem Wired.mem_columns (hj : j.Wired) (hd : d ∈ j.datasets) :
    ∀ c ∈ d.2.schema.columns, c ∈ j.schema.columns :=
  fun c hc => (hj.columns c).mpr ⟨d, hd, hc⟩

theorem Wired.mem_schema_names (hj : j.Wired) (hq : q.Within j) :
    ∀ n ∈ q.order.columns, n ∈ j.schema.names := by
  intro n hn
  obtain ⟨c, hc, rfl⟩ := exists_identifier hq hn
  have hfirst : j.first ∈ j.datasets := List.mem_cons_self
  exact List.mem_map_of_mem (hj.mem_columns hfirst c (hj.shared _ hfirst c hc))

theorem Wired.sourceKeys_ok (hj : j.Wired) (hq : q.Within j) (hd : d ∈ j.datasets) :
    ∃ k, j.sourceKeys q d.1 d.2.schema = .ok k ∧ k.Reads d.2.schema q.order := by
  refine KeyReader.resolving_ok (hj.mem_names hq hd) fun n hn => ?_
  obtain ⟨c, hc, rfl⟩ := exists_identifier hq hn
  rw [hj.mapped d hd c hc]
  rfl

/-- Rows that can be joined further: they are laid out as declared, and their keys can be read. -/
structure Joined.Ready (sofar : Joined) (j : Join) (q : Request) : Prop where
  keys : ∃ k, sofar.keys = .ok k ∧ k.Reads sofar.schema q.order
  columns : ∀ c ∈ sofar.schema.columns, c ∈ j.schema.columns
  names : ∀ n ∈ q.order.columns, n ∈ sofar.schema.names
  bound : ∀ r ∈ (sofar.rows ()).flow, r.schema = sofar.schema

/-- The merge join that joins one more dataset. -/
def stepJoin (j : Join) (q : Request) (sofar : Joined) (s : Schema) : MergeJoin :=
  ⟨j.kind, q.order, ⟨sofar.schema, some s, j.schema⟩⟩

theorem Wired.spans (hj : j.Wired) (hq : q.Within j) (hd : d ∈ j.datasets) {sofar : Joined}
    (h : sofar.Ready j q) : (j.stepJoin q sofar d.2.schema).Spans d.2.schema where
  right := rfl
  ofLeft := h.names
  ofRight := hj.mem_names hq hd
  ofOutput := hj.mem_schema_names hq

theorem Wired.mergeWith_ok (hj : j.Wired) (hq : q.Within j) (hd : d ∈ j.datasets)
    {sofar : Joined} (h : sofar.Ready j q) {right : Delayed Rows}
    (hright : ∀ r ∈ (right ()).flow, r.schema = d.2.schema) :
    let m := j.stepJoin q sofar d.2.schema
    ∃ rows, j.mergeWith q sofar d.1 d.2.schema right = .ok rows ∧
      (rows ()).flow <+: m.joined (sofar.rows ()).collect.rows (right ()).collect.rows ∧
        ((sofar.rows ()).collect.failure = none → (right ()).collect.failure = none →
          (rows ()).collect.rows =
              m.joined (sofar.rows ()).collect.rows (right ()).collect.rows ∧
            (rows ()).collect.failure = none) := by
  intro m
  obtain ⟨lk, hlk, hlreads⟩ := h.keys
  obtain ⟨rk, hrk, hrreads⟩ := hj.sourceKeys_ok hq hd
  have hpair : RowMerger.pair sofar.schema d.2.schema j.schema = .ok m.merger :=
    RowMerger.pair_ok h.columns (hj.mem_columns hd)
  refine ⟨fun _ => m.rows lk rk sofar.rows right, ?_,
    MergeJoin.rows_spec hlreads hrreads h.bound hright⟩
  simp only [mergeWith, hlk, hrk, hpair, bind, Except.bind]
  rfl

theorem Wired.ready_step (hj : j.Wired) (hq : q.Within j) {sofar : Joined} {s : Schema}
    {rows : Delayed Rows} {left right : List Row} (held : ReleaseStack)
    (h : (rows ()).flow <+: (j.stepJoin q sofar s).joined left right) :
    Joined.Ready ⟨j.schema, KeyReader.byName j.schema q.order, rows, held⟩ j q where
  keys := KeyReader.byName_ok (hj.mem_schema_names hq)
  columns := fun _ hc => hc
  names := hj.mem_schema_names hq
  bound := by
    intro r hr
    rcases MergeJoin.mem_joined (h.subset hr) with ⟨a, -, rfl⟩ | ⟨b, -, l, -, rfl⟩ <;> rfl

theorem mergeAll_cons_eq_ok {sofar joined : Joined} {rest : List (String × Dataset)} :
    (j.mergeAll q sofar (d :: rest)).outcome = .ok joined ↔
      ∃ s, (j.openSource q d.2).outcome = .ok s ∧
        ∃ rows, j.mergeWith q sofar d.1 d.2.schema s.rows = .ok rows ∧
          (j.mergeAll q ⟨j.schema, KeyReader.byName j.schema q.order, rows,
            sofar.held.register d.1 s⟩ rest).outcome = .ok joined := by
  obtain ⟨name, d⟩ := d
  simp only [mergeAll, Recorded.andThen_eq_ok, ReleaseStack.guarding_eq_ok,
    Recorded.outcome_silent]

/-- The first dataset as what there is to join. -/
def start (j : Join) (q : Request) (s : RowStream) : Joined :=
  ⟨j.first.2.schema, j.sourceKeys q j.first.1 j.first.2.schema, s.rows,
    ReleaseStack.empty.register j.first.1 s⟩

theorem Wired.ready_start (hj : j.Wired) (hq : q.Within j) {s : RowStream}
    (h : ∀ r ∈ (s.rows ()).flow, r.schema = j.first.2.schema) : (j.start q s).Ready j q where
  keys := hj.sourceKeys_ok hq List.mem_cons_self
  columns := hj.mem_columns List.mem_cons_self
  names := hj.mem_names hq List.mem_cons_self
  bound := h

/-- How the only dataset is carried over. -/
def carrier (j : Join) : RowMerger := ⟨j.first.2.schema, none, j.schema⟩

theorem Wired.carry_ok (hj : j.Wired) (s : RowStream) :
    j.carry (j.start q s) = .ok { j.start q s with
      schema := j.schema
      rows := fun _ => (s.rows ()).map fun r => j.carrier.merge (some r) none } := by
  have hsingle : RowMerger.single (j.start q s).schema j.schema = .ok j.carrier :=
    RowMerger.single_ok (hj.mem_columns List.mem_cons_self)
  rw [carry, hsingle]
  rfl

theorem openAll_eq_ok {joined : Joined} :
    (j.openAll q).outcome = .ok joined ↔
      ∃ s, (j.openSource q j.first.2).outcome = .ok s ∧
        (if j.rest.isEmpty then j.carry (j.start q s)
          else (j.mergeAll q (j.start q s) j.rest).outcome) = .ok joined := by
  unfold openAll
  rw [Recorded.andThen_eq_ok]
  refine exists_congr fun s => and_congr_right fun _ => ?_
  cases j.rest with
  | nil => simp [ReleaseStack.guarding_eq_ok, start]
  | cons d rest => simp [start]

/-- The stream of a join that was read. -/
def stream (j : Join) (order required : SortOrder) (f : Filter) (joined : Joined) : RowStream :=
  (((RowStream.ofRows j.schema joined.rows).wanted order f).applied required f).onClose
    joined.held.release

theorem read_eq_ok {order : SortOrder} {f : Filter} {columns : List String} {s : RowStream} :
    (j.read order f columns).outcome = .ok s ↔
      ∃ required, SortOrder.compatible? j.identifiers order = some required ∧
        f.refersOnlyTo j.identifierNames ∧
          ∃ joined, (j.openAll ⟨required, f, columns⟩).outcome = .ok joined ∧
            s = j.stream order required f joined := by
  unfold read requiredOrder
  cases hc : SortOrder.compatible? j.identifiers order with
  | none => simp [Recorded.fail]
  | some required =>
    by_cases hf : f.refersOnlyTo j.identifierNames
    · simp [hf, Recorded.andThen_eq_ok, Recorded.ok, stream, @eq_comm _ s]
    · simp [hf, Recorded.fail]

end Join
end DatasetAlgebra
