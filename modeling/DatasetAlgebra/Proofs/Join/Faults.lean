import DatasetAlgebra.Proofs.Dataset.Faults
import DatasetAlgebra.Proofs.Join.Agreement
import DatasetAlgebra.Proofs.Join.Filtered

/-!
What a join of tables can fail with. Wired as it was built, it has all that merging its datasets
takes: no column is missing, and the key of every row can be read. So it is refused, or a hook fails
that is called when one of the tables is closed.
-/
namespace DatasetAlgebra

namespace ReleaseStack

theorem exists_primary_of_failure {rs : List Release} {e : Error} (h : failure rs = some e) :
    ∃ r ∈ rs, ∃ c, r.failure = some c ∧ e.primary = c.primary := by
  have hfold (p : Error) (es : List Error) :
      ∃ q, es.foldl (fun sofar e => some (sofar.elim e fun primary => primary.absorb e)) (some p) =
        some q ∧ q.primary = p.primary := by
    induction es generalizing p with
    | nil => exact ⟨p, rfl, rfl⟩
    | cons c es ih =>
      obtain ⟨q, hq, hp⟩ := ih (p.absorb c)
      exact ⟨q, hq, hp.trans (Error.primary_absorb p c)⟩
  unfold failure at h
  cases hes : rs.filterMap Release.failure with
  | nil => simp [hes] at h
  | cons c es =>
    obtain ⟨q, hq, hp⟩ := hfold c es
    rw [hes, List.foldl_cons, Option.elim_none, hq] at h
    cases h
    obtain ⟨r, hr, hc⟩ := List.mem_filterMap.mp (hes ▸ List.mem_cons_self : c ∈ rs.filterMap _)
    exact ⟨r, hr, c, hc, hp⟩

end ReleaseStack

namespace Join

variable {j : Join} {q : Request} {hook : Error → Prop}

/-- What merging the datasets of a join takes: every order of identifiers can be asked of them, keys
can be read before and after merging, and the schema has room for all rows. -/
structure Connects (j : Join) (q : Request) : Prop where
  mapped : ∀ d ∈ j.datasets, ∀ n ∈ q.order.columns, ∃ c, j.columnMap.resolve n d.1 = .ok c
  ordered : ∀ d ∈ j.datasets, ∃ o, q.order.onto d.2.schema = .ok o
  keys : ∀ d ∈ j.datasets, ∃ k, j.sourceKeys q d.1 d.2.schema = .ok k ∧
    ∀ r : Row, r.schema = d.2.schema → ∃ key, k.read r = .ok key
  mergedKeys : ∃ k, KeyReader.byName j.schema q.order = .ok k ∧
    ∀ r : Row, r.schema = j.schema → ∃ key, k.read r = .ok key
  carries : ∃ m, RowMerger.single j.first.2.schema j.schema = .ok m
  merges : ∀ d ∈ j.datasets, ∀ s ∈ [j.first.2.schema, j.schema],
    ∃ m, RowMerger.pair s d.2.schema j.schema = .ok m

theorem Wired.connects (hj : j.Wired) (hq : q.Within j) : j.Connects q where
  mapped d hd n hn := by
    obtain ⟨c, hc, rfl⟩ := exists_identifier hq hn
    exact ⟨c, hj.mapped d hd c hc⟩
  ordered _ hd := ⟨_, SortOrder.onto_self fun k hk => hj.shared _ hd _ (hq k hk)⟩
  keys d hd := by
    obtain ⟨k, hk, hreads⟩ := hj.sourceKeys_ok hq hd
    exact ⟨k, hk, fun r hr => ⟨_, hreads r hr⟩⟩
  mergedKeys := by
    obtain ⟨k, hk, hreads⟩ := KeyReader.byName_ok (hj.mem_schema_names hq)
    exact ⟨k, hk, fun r hr => ⟨_, hreads r hr⟩⟩
  carries := ⟨_, RowMerger.single_ok (hj.mem_columns List.mem_cons_self)⟩
  merges d hd s hs := by
    have hsub : ∀ c ∈ s.columns, c ∈ j.schema.columns := by
      rcases List.mem_pair.mp hs with rfl | rfl
      · exact hj.mem_columns List.mem_cons_self
      · exact fun _ hc => hc
    exact ⟨_, RowMerger.pair_ok hsub (hj.mem_columns hd)⟩

/-- A stream of a dataset that can fail only when it is closed. -/
structure Steady (schema : Schema) (hook : Error → Prop) (s : RowStream) : Prop where
  bound : ∀ r ∈ (s.rows ()).flow, r.schema = schema
  failure : (s.rows ()).collect.failure = none
  release : ∀ r, s.release = some r → ∀ e, r.failure = some e → hook e

/-- Rows so far that can fail only when what they come from is closed. -/
structure Joined.Steady (sofar : Joined) (hook : Error → Prop) : Prop where
  failure : (sofar.rows ()).collect.failure = none
  held : ∀ r ∈ sofar.held.held, ∀ e, r.2.failure = some e → hook e

/-- A dataset that gives a steady stream when the join opens it, if it is not refused and no hook
fails. -/
def OpensSteadily (j : Join) (q : Request) (hook : Error → Prop) (d : String × Dataset) : Prop :=
  (j.openSource q d.2).Ends (Steady d.2.schema hook) (Error.Excused hook)

theorem steady_register {held : ReleaseStack}
    (h : ∀ r ∈ held.held, ∀ e, r.2.failure = some e → hook e) {s : RowStream} {schema : Schema}
    (hs : Steady schema hook s) (name : String) :
    ∀ r ∈ (held.register name s).held, ∀ e, r.2.failure = some e → hook e :=
  ReleaseStack.forall_register (p := fun r => ∀ e, r.failure = some e → hook e) h hs.release

theorem Wired.step_steady (hj : j.Wired) (hq : q.Within j) {d : String × Dataset}
    (hd : d ∈ j.datasets) {sofar : Joined} (hready : sofar.Ready j q) (h : sofar.Steady hook)
    {s : RowStream} (hs : Steady d.2.schema hook s) :
    ∃ rows, j.mergeWith q sofar d.1 d.2.schema s.rows = .ok rows ∧
      let next : Joined := ⟨j.schema, KeyReader.byName j.schema q.order, rows,
        sofar.held.register d.1 s⟩
      next.Ready j q ∧ next.Steady hook := by
  obtain ⟨rows, hmerge, hprefix, hall⟩ := hj.mergeWith_ok hq hd hready hs.bound
  refine ⟨rows, hmerge, hj.ready_step hq _ hprefix, ?_, ?_⟩
  · exact (hall h.failure hs.failure).2
  · exact steady_register h.held hs d.1

theorem Wired.mergeAll_steady (hj : j.Wired) (hq : q.Within j) {rest : List (String × Dataset)}
    (hrest : ∀ d ∈ rest, d ∈ j.datasets ∧ j.OpensSteadily q hook d) {sofar : Joined}
    (hready : sofar.Ready j q) (h : sofar.Steady hook) :
    (j.mergeAll q sofar rest).Ends (fun joined => joined.Steady hook) (Error.Excused hook) := by
  induction rest generalizing sofar with
  | nil => exact h
  | cons d rest ih =>
    obtain ⟨⟨hd, hopens⟩, hrest⟩ := List.forall_mem_cons.mp hrest
    have hopened := ReleaseStack.guarding_ends (s := sofar.held) hopens fun _ he => he.onto _
    refine hopened.andThen fun s hs => ?_
    obtain ⟨rows, hmerge, hnext, hsteady⟩ := hj.step_steady hq hd hready h hs
    rw [hmerge]
    exact Recorded.Ends.andThen (Recorded.ends_of_ok rfl rfl) fun _ hrows =>
      hrows ▸ ih hrest hnext hsteady

theorem Wired.openAll_steady (hj : j.Wired) (hq : q.Within j)
    (hopens : ∀ d ∈ j.datasets, j.OpensSteadily q hook d) :
    (j.openAll q).Ends (fun joined => joined.Steady hook) (Error.Excused hook) := by
  have hfirst : j.OpensSteadily q hook j.first := hopens _ List.mem_cons_self
  refine hfirst.andThen fun s hs => ?_
  have hheld : (j.start q s).Steady hook :=
    ⟨hs.failure, steady_register ReleaseStack.held_empty hs j.first.1⟩
  split
  · refine ReleaseStack.guarding_ends (Recorded.ends_of_ok (hj.carry_ok s) ⟨?_, hheld.held⟩)
      fun _ he => he.onto _
    exact ((s.rows ()).collect_map _).2.trans hs.failure
  · exact hj.mergeAll_steady hq (fun d hd => ⟨List.mem_cons_of_mem _ hd,
      hopens d (List.mem_cons_of_mem _ hd)⟩) (hj.ready_start hq hs.bound) hheld

/-- Only at its end, where it is closed, can a join fail whose rows are steady. -/
theorem Joined.Steady.excused {joined : Joined} (h : joined.Steady hook) (j : Join)
    (order required : SortOrder) (f : Filter) {n : Nat} {e : Error}
    (he : ((j.stream order required f joined).after n).next.1.item = some (.error e)) :
    e.Excused hook := by
  let s := j.stream order required f joined
  have hmem : .error e ∈ s.drain.2.1 := List.mem_of_getElem? ((s.answers_drain n).symm.trans he)
  have hdrain : s.drain.2.1 = (joined.rows ()).drain.items ++
      (joined.held.release.failure.map Except.error).toList := rfl
  rw [hdrain, Rows.items_drain_of_failure_eq_none h.failure] at hmem
  cases hfail : joined.held.release.failure with
  | none => simp [hfail] at hmem
  | some c =>
    obtain rfl : e = c := by simpa [hfail] using hmem
    obtain ⟨r, hr, c, hc, hp⟩ := ReleaseStack.exists_primary_of_failure hfail
    obtain ⟨source, hsource, rfl⟩ := List.mem_map.mp hr
    exact .inr ⟨c, h.held source hsource c hc, hp⟩

/-- A join can fail only so if all its datasets open steadily. -/
theorem Wired.read_steady (hj : j.Wired) {order : SortOrder} {f : Filter} {columns : List String}
    (hopens : ∀ required, SortOrder.compatible? j.identifiers order = some required →
      f.refersOnlyTo j.identifierNames →
        ∀ d ∈ j.datasets, j.OpensSteadily ⟨required, f, columns⟩ hook d) :
    (j.read order f columns).Ends
      (fun s => ∀ n e, (s.after n).next.1.item = some (.error e) → e.Excused hook)
      (Error.Excused hook) := by
  unfold read requiredOrder
  cases hr : SortOrder.compatible? j.identifiers order with
  | none => exact Error.excused_unsupported hook _
  | some required =>
    have hq : Request.Within ⟨required, f, columns⟩ j := SortOrder.columns_mem_of_compatible hr
    by_cases hf : f.refersOnlyTo j.identifierNames
    · simp only [if_pos hf]
      refine (hj.openAll_steady hq (hopens required hr hf)).andThen fun joined hjoined => ?_
      exact fun n e he => hjoined.excused j order required f he
    · simp only [if_neg hf]
      exact Error.excused_unsupported hook _

/-- What closing streams of tables may fail with. -/
def ClosingFails (tables : List (String × Table)) (e : Error) : Prop := ∃ t ∈ tables, t.2.Fails e

theorem Wired.table_steady (hj : j.Wired) (hq : q.Within j) {tables : List (String × Table)}
    (hd : j.datasets = named tables) {t : String × Table} (ht : t ∈ tables)
    (hrows : q.filter.Decides t.2.rows) :
    j.OpensSteadily q (ClosingFails tables) (t.1, t.2.toDataset) := by
  have hmem : (t.1, t.2.toDataset) ∈ j.datasets := hd ▸ List.mem_map_of_mem ht
  have hfails (e : Error) (he : t.2.Fails e) : ClosingFails tables e := ⟨t, ht, he⟩
  unfold OpensSteadily
  rw [hj.openSource_eq hq hmem]
  refine (t.2.request_calm hrows (hj.mem_names hq hmem) _ _).mono (fun s hs => ?_)
    fun e he => he.mono hfails
  obtain ⟨rows, hsub, hgives⟩ := hs.rows
  refine ⟨fun r hr => ?_, hgives.failure, fun r hr e he => hfails e (hs.release r e hr he)⟩
  exact t.2.bound r (hsub (hgives.flow ▸ hr))

/-- A join of tables, read through a filter well typed where the join takes it on, reports nothing
but refusals and what closing one of the tables fails with. -/
theorem fails_by_refusal_or_closing {kind : JoinKind} {tables : List (String × Table)}
    {names : List String} {j : Join} (hj : Join.on kind (named tables) names = .ok j)
    (ht : ∀ t ∈ tables, ∀ r ∈ t.2.rows, r.conforms) (policy : Policy) (order : SortOrder)
    {f : Filter} (hf : f.refersOnlyTo j.identifierNames → f.wellTyped j.schema)
    (columns : List String) :
    (∀ required, (j.withPolicy policy).requiredOrder order = .ok required →
      (j.withPolicy policy).Connects ⟨required, f, columns⟩) ∧
    (∀ e, ((j.withPolicy policy).read order f columns).outcome = .error e →
      e.Excused (ClosingFails tables)) ∧
    ∀ s, ((j.withPolicy policy).read order f columns).outcome = .ok s →
      ∀ n e, (s.after n).next.1.item = some (.error e) → e.Excused (ClosingFails tables) := by
  obtain ⟨hwired, -, hdatasets, -⟩ := wired_of_on hj
  have hw := hwired.withPolicy policy
  have hread : ((j.withPolicy policy).read order f columns).Ends
      (fun s => ∀ n e, (s.after n).next.1.item = some (.error e) →
        e.Excused (ClosingFails tables)) (Error.Excused (ClosingFails tables)) := by
    refine hw.read_steady fun required hr hrefers d hd => ?_
    obtain ⟨t, hmem, rfl⟩ := List.mem_map.mp (hdatasets ▸ hd : d ∈ named tables)
    have hq : Request.Within ⟨required, f, columns⟩ (j.withPolicy policy) :=
      SortOrder.columns_mem_of_compatible hr
    refine hw.table_steady hq hdatasets hmem ?_
    exact hw.decides hrefers (hf hrefers) hd t.2.bound (ht t hmem)
  refine ⟨fun required hr => ?_, fun e he => hread.error he, fun s hs => hread.ok hs⟩
  unfold requiredOrder at hr
  split at hr
  · cases hr
    rename_i hcompatible
    exact hw.connects (SortOrder.columns_mem_of_compatible hcompatible)
  · cases hr

/-- Two tables, the second of which fails when it is closed. -/
def leaking (sorts : Bool) : List (String × Table) :=
  [("a", .counts [(1, 10)]), ("b", { Table.counts [(1, 5)] with
    sorts := sorts, release := some ⟨[.released "b"], some (.release "b" "boom")⟩ })]

def positive : Filter := .compare "id" .gt (.ofInt64 0)

/-- If the second table is sorted for the join, it is closed before the join is read, and fails the
request. Otherwise it is closed, and fails, behind the rows. -/
theorem fails_by_refusal_or_closing_leaking :
    (∃ j e, Join.on .inner (named (leaking false)) ["id"] = .ok j ∧
      ((j.withPolicy ⟨true, 1, true⟩).read .any positive []).outcome = .error e ∧
      e.flat = [.release "b" "boom"] ∧ e.Excused (ClosingFails (leaking false))) ∧
    ∃ j s e, Join.on .inner (named (leaking true)) ["id"] = .ok j ∧
      ((j.withPolicy ⟨true, 1, true⟩).read .any positive []).outcome = .ok s ∧
      (s.after 1).next.1.item = some (.error e) ∧ e.flat = [.release "b" "boom"] ∧
      e.Excused (ClosingFails (leaking true)) := by
  have hrows (sorts : Bool) : ∀ t ∈ leaking sorts, ∀ r ∈ t.2.rows, r.conforms := by
    intro t ht
    rcases List.mem_pair.mp ht with rfl | rfl
    · exact (by decide : ∀ r ∈ (Table.counts [(1, 10)]).rows, r.conforms)
    · exact (by decide : ∀ r ∈ (Table.counts [(1, 5)]).rows, r.conforms)
  refine ⟨?_, ?_⟩
  · obtain ⟨j, e, hj, he, hflat, hf⟩ : ∃ j e,
        Join.on .inner (named (leaking false)) ["id"] = .ok j ∧
        ((j.withPolicy ⟨true, 1, true⟩).read .any positive []).outcome = .error e ∧
        e.flat = [.release "b" "boom"] ∧ positive.wellTyped j.schema :=
      ⟨_, _, rfl, by with_unfolding_all rfl, by with_unfolding_all rfl, by with_unfolding_all rfl⟩
    have hexcused := (fails_by_refusal_or_closing hj (hrows false) ⟨true, 1, true⟩ .any
      (fun _ => hf) []).2.1 e he
    exact ⟨j, e, hj, he, hflat, hexcused⟩
  · obtain ⟨j, s, a, e, hj, hs, hdrain, hflat, hf⟩ : ∃ j s a e,
        Join.on .inner (named (leaking true)) ["id"] = .ok j ∧
        ((j.withPolicy ⟨true, 1, true⟩).read .any positive []).outcome = .ok s ∧
        s.drain.2.1 = [.ok a, .error e] ∧
        e.flat = [.release "b" "boom"] ∧ positive.wellTyped j.schema :=
      ⟨_, _, _, _, rfl, by with_unfolding_all rfl, by with_unfolding_all rfl,
        by with_unfolding_all rfl, by with_unfolding_all rfl⟩
    have he : (s.after 1).next.1.item = some (.error e) := by
      rw [s.answers_drain 1, hdrain]
      rfl
    have hexcused := (fails_by_refusal_or_closing hj (hrows true) ⟨true, 1, true⟩ .any
      (fun _ => hf) []).2.2 s hs 1 e he
    exact ⟨j, s, e, hj, hs, he, hflat, hexcused⟩

end Join
end DatasetAlgebra
