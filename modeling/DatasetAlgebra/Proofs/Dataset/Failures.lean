import DatasetAlgebra.Proofs.Dataset.Requests
import DatasetAlgebra.Proofs.Dataset.Tables
import DatasetAlgebra.Proofs.Stream.Releases

/-!
Failed requests. A request that fails with a stream open has released it once, and reports what
fails in that next to the failure that ended it, unless it gave the stream up.
-/
namespace DatasetAlgebra

namespace Rows

/-- No pull releases a source. -/
def Withholds (source : String) : Rows → Prop
  | .ended e => source ∉ releases e.events
  | .poll p rest => source ∉ releases p.events ∧ (rest ()).Withholds source

variable {source : String} {r : Rows}

theorem not_mem_releases_seen {e : Ending} (h : source ∉ releases e.events) :
    source ∉ releases e.seen := by
  unfold Ending.seen
  split
  · exact List.not_mem_nil
  · exact h

theorem Silent.withholds (h : r.Silent) (source : String) : r.Withholds source := by
  induction r with
  | ended e => simp only [Withholds, show e.events = [] from h, releases_nil, List.not_mem_nil,
      not_false_eq_true]
  | poll p rest ih => exact ⟨by simp [h.1], ih () h.2⟩

theorem Withholds.filterAfter (h : r.Withholds source) (f : Filter) {skipped : List Event}
    (hs : source ∉ releases skipped) : (filterAfter f skipped r).Withholds source := by
  induction r generalizing skipped with
  | ended e =>
    refine ⟨?_, h⟩
    simpa [hs] using not_mem_releases_seen h
  | poll p rest ih =>
    obtain ⟨es, item⟩ := p
    have hseen : source ∉ releases (skipped ++ es) := by simpa [hs] using h.1
    have hrest : (Rows.filterAfter f [] (rest ())).Withholds source := ih () h.2 List.not_mem_nil
    match item with
    | none => exact ⟨hseen, hrest⟩
    | some (.error e) => exact ⟨hseen, hrest⟩
    | some (.ok r) =>
      unfold Rows.filterAfter
      simp only
      split
      · exact ⟨hseen, hrest⟩
      · exact ih () h.2 hseen
      · exact ⟨hseen, hrest⟩

theorem Withholds.seen (h : r.Withholds source) (n : Nat) : source ∉ releases (r.seen n) := by
  induction n generalizing r with
  | zero => exact List.not_mem_nil
  | succ n ih =>
    rw [Rows.seen, releases_append, List.mem_append, not_or]
    cases r with
    | ended e => exact ⟨not_mem_releases_seen h, ih h⟩
    | poll p rest => exact ⟨h.1, ih h.2⟩

end Rows

namespace Dataset

/-- The same dataset, whose streams are released without failure. -/
def quiet (d : Dataset) : Dataset :=
  { d with read := fun o f columns => (d.read o f columns).andThen fun s => .ok s.quiet }

variable {α : Type} {source : String} {s : RowStream}

/-- A computation `x` that settles a stream, next to the computation `y` in which its release does
not fail. What the release fails with is the failure of `x`, or behind that of `y`. -/
structure Reports (source : String) (s : RowStream) (x y : Recorded α) : Prop where
  released : ∀ e, x.outcome = .error e → (releases x.log).count source = s.owed.count source
  failure : ∀ e c, x.outcome = .error e → s.pending.failure = some c →
    (e = c ∧ ∃ b, y.outcome = .ok b) ∨ ∃ p, y.outcome = .error p ∧ e.flat = p.flat ++ c.flat

namespace Reports

theorem of_ok (a b : α) : Reports source s (.ok a) (.ok b) where
  released _ h := by cases h
  failure _ _ h := by cases h

theorem abort (e : Error) :
    Reports source s (abort s e : Recorded α) (abort s.quiet e : Recorded α) where
  released _ _ := rfl
  failure := by
    rintro _ c ⟨⟩ hc
    refine .inr ⟨e, ?_, ?_⟩
    · simp [Dataset.abort]
    · simp [Release.onto, hc]

/-- Sorting fails with what a pull fails with, for want of room, or with what the release does. -/
theorem sortStream (hrows : (s.rows ()).Withholds source) (capacity : Nat)
    (wanted order : SortOrder) :
    Reports source s (sortStream capacity wanted order s)
      (sortStream capacity wanted order s.quiet) := by
  have hseen : source ∉ releases ((SortBuffer.empty order capacity).fill (s.rows ())).events :=
    SortBuffer.events_fill order capacity (s.rows ()) ▸ hrows.seen _
  have hquiet : s.quiet.rows () = s.rows () := rfl
  refine ⟨fun e he => ?_, fun e c he hc => ?_⟩
  · have hlog : (Dataset.sortStream capacity wanted order s).log =
        ((SortBuffer.empty order capacity).fill (s.rows ())).events ++ s.pending.events := by
      unfold Dataset.sortStream
      simp only
      split <;> rfl
    rw [hlog, releases_append, List.count_append, List.count_eq_zero.mpr hseen, Nat.zero_add]
    rfl
  · unfold Dataset.sortStream at he ⊢
    simp only [hquiet, RowStream.pending_quiet] at he ⊢
    cases hfill : ((SortBuffer.empty order capacity).fill (s.rows ())).failure with
    | some p =>
      simp only [hfill] at he
      cases he
      exact .inr ⟨p, rfl, by simp [Release.onto, hc]⟩
    | none =>
      simp only [hfill, hc] at he
      cases he
      exact .inl ⟨rfl, _, rfl⟩

end Reports

end Dataset

/-- A stream that is given up by a request: its filter is settled, and its order, which is to be
settled by sorting, is on a column that it lacks. -/
def RowStream.LacksOrder (s : RowStream) (policy : Policy) : Prop :=
  (s.residualFilter.isAll ∨ policy.filters) ∧ policy.sorts ∧
    ∃ n ∈ s.residualOrder.columns, n ∉ s.schema.names

namespace Dataset

variable {d q : Dataset} {source : String} {s : RowStream} {policy : Policy} {o wanted : SortOrder}
  {f : Filter} {columns : List String} {e : Error}

/-- Settling a filter fails or keeps what matters of a stream. -/
theorem settleFilter_cases (policy : Policy) (hq : q.schema = d.schema)
    (hrows : (s.rows ()).Withholds source) :
    (∃ t, d.settleFilter policy s = .ok t ∧ q.settleFilter policy s.quiet = .ok t.quiet ∧
      (s.residualFilter.isAll ∨ policy.filters) ∧ (t.rows ()).Withholds source ∧
      t.pending = s.pending ∧ t.schema = s.schema ∧ t.residualOrder = s.residualOrder) ∨
    ∃ e, d.settleFilter policy s = abort s e ∧ q.settleFilter policy s.quiet = abort s.quiet e ∧
      ¬(s.residualFilter.isAll ∨ policy.filters) := by
  have hres : s.quiet.residualFilter = s.residualFilter := rfl
  unfold settleFilter
  rw [hres, hq]
  by_cases hall : s.residualFilter.isAll
  · rw [if_pos hall, if_pos hall]
    exact .inl ⟨s, rfl, rfl, .inl hall, hrows, rfl, rfl, rfl⟩
  rw [if_neg hall, if_neg hall]
  by_cases hp : policy.filters
  · rw [if_pos hp, if_pos hp, RowStream.applyFilter, if_neg hall, RowStream.applyFilter,
      if_neg hall]
    exact .inl ⟨_, rfl, rfl, .inr hp, hrows.filterAfter _ List.not_mem_nil, rfl, rfl, rfl⟩
  · rw [if_neg hp, if_neg hp]
    exact .inr ⟨_, rfl, rfl, by simp [hall, hp]⟩

theorem settleOrder_reports (wanted : SortOrder) (hq : q.schema = d.schema)
    (hrows : (s.rows ()).Withholds source)
    (hcolumns : policy.sorts → ∀ n ∈ s.residualOrder.columns, n ∈ s.schema.names) :
    Reports source s (d.settleOrder policy wanted s) (q.settleOrder policy wanted s.quiet) := by
  have hres : s.quiet.residualOrder = s.residualOrder := rfl
  by_cases hany : s.residualOrder.isAny
  · rw [settleOrder_of_isAny hany, settleOrder_of_isAny (hres ▸ hany)]
    exact .of_ok s s.quiet
  by_cases hsorts : policy.sorts
  · obtain ⟨p, hp⟩ := SortOrder.onto_ok (hcolumns hsorts)
    have hquiet : s.quiet.residualOrder.onto s.quiet.schema = .ok p := hp
    rw [settleOrder_of_sorts hany hsorts hp, settleOrder_of_sorts (hres ▸ hany) hsorts hquiet]
    exact .sortStream hrows policy.capacity wanted p
  · unfold settleOrder
    rw [hres, hq, if_neg hany, if_neg hsorts, if_neg hany, if_neg hsorts]
    exact .abort _

theorem settleOrder_of_lacks (hsorts : policy.sorts)
    (hlacks : ∃ n ∈ s.residualOrder.columns, n ∉ s.schema.names) :
    ∃ n ∈ s.residualOrder.columns, n ∉ s.schema.names ∧
      d.settleOrder policy wanted s = ⟨s.pending.events, .error (.unknown n)⟩ := by
  obtain ⟨m, hm, hlacks⟩ := hlacks
  have hany : ¬s.residualOrder.isAny := fun hany => by
    simp [SortOrder.columns, SortOrder.isAny_iff.mp hany, SortOrder.any] at hm
  cases honto : s.residualOrder.onto s.schema with
  | ok p =>
    obtain ⟨hdemands, hkeys⟩ := SortOrder.onto_spec honto
    rw [SortOrder.columns_eq, ← hdemands, ← SortOrder.columns_eq] at hm
    exact absurd (names_of_keys hkeys m hm) hlacks
  | error e =>
    obtain ⟨n, hn, hnot, rfl⟩ := SortOrder.onto_eq_error honto
    refine ⟨n, hn, hnot, ?_⟩
    rw [settleOrder, if_neg hany, if_pos hsorts, honto]
    rfl

theorem settle_reports (wanted : SortOrder) (hq : q.schema = d.schema)
    (hrows : (s.rows ()).Withholds source)
    (hlacks : ¬s.LacksOrder policy) :
    Reports source s ((d.settleFilter policy s).andThen (d.settleOrder policy wanted))
      ((q.settleFilter policy s.quiet).andThen (q.settleOrder policy wanted)) := by
  rcases settleFilter_cases policy hq hrows with
    ⟨t, ht, htq, hfiltered, htrows, hpending, hschema, hres⟩ | ⟨p, hp, hpq, -⟩
  · have hcolumns : policy.sorts → ∀ n ∈ t.residualOrder.columns, n ∈ t.schema.names := by
      rw [hres, hschema]
      intro hsorts n hn
      by_contra hnot
      exact hlacks ⟨hfiltered, hsorts, n, hn, hnot⟩
    have hreports := settleOrder_reports wanted hq htrows hcolumns
    rw [ht, htq]
    refine ⟨fun e he => ?_, fun e c he hc => hreports.failure e c he (hpending ▸ hc)⟩
    rw [RowStream.owed, ← hpending]
    exact hreports.released e he
  · rw [hp, hpq]
    exact .abort p

theorem settle_of_lacks (wanted : SortOrder) (hrows : (s.rows ()).Withholds source)
    (hlacks : s.LacksOrder policy) :
    ∃ n ∈ s.residualOrder.columns, n ∉ s.schema.names ∧
      (d.settleFilter policy s).andThen (d.settleOrder policy wanted) =
        ⟨s.pending.events, .error (.unknown n)⟩ := by
  obtain ⟨hfiltered, hsorts, hcolumns⟩ := hlacks
  rcases settleFilter_cases (d := d) (q := d) policy rfl hrows with
    ⟨t, ht, -, -, -, hpending, hschema, hres⟩ | ⟨p, -, -, hnot⟩
  · rw [← hres, ← hschema] at hcolumns ⊢
    rw [← hpending, ht]
    exact settleOrder_of_lacks hsorts hcolumns
  · exact absurd hfiltered hnot

theorem request_eq (hread : (d.read o f columns).outcome = .ok s) :
    d.request o f columns policy =
      .after (d.read o f columns).log
        ((d.settleFilter policy s).andThen (d.settleOrder policy o)) := by
  rw [request, Recorded.andThen_of_ok hread, Recorded.andThen_after]

/-- A request that fails with a stream open has released it once. Unless the stream lacks columns of
the order, a failed release is reported, behind the failure there is without it, if any. -/
theorem request_failure (hread : (d.read o f columns).outcome = .ok s)
    (hopened : source ∉ releases (d.read o f columns).log)
    (hrows : (s.rows ()).Withholds source) (howed : s.owed.count source = 1)
    (he : (d.request o f columns policy).outcome = .error e) :
    (releases (d.request o f columns policy).log).count source = 1 ∧
    ∀ c, s.pending.failure = some c →
      (¬s.LacksOrder policy →
        (e = c ∧ ∃ t, (d.quiet.request o f columns policy).outcome = .ok t) ∨
        ∃ p, (d.quiet.request o f columns policy).outcome = .error p ∧
          e.flat = p.flat ++ c.flat) ∧
      (s.LacksOrder policy →
        ∃ n ∈ s.residualOrder.columns, n ∉ s.schema.names ∧ e = .unknown n) := by
  have hquiet : (d.quiet.read o f columns).outcome = .ok s.quiet := by
    rw [quiet, Recorded.outcome_andThen hread]
    rfl
  rw [request_eq hread, Recorded.outcome_after] at he
  rw [request_eq hread, request_eq hquiet, Recorded.log_after, Recorded.outcome_after,
    releases_append, List.count_append, List.count_eq_zero.mpr hopened, Nat.zero_add]
  by_cases hlacks : s.LacksOrder policy
  · obtain ⟨n, hn, hnot, hsettle⟩ := settle_of_lacks (d := d) o hrows hlacks
    rw [hsettle] at he ⊢
    cases he
    exact ⟨howed, fun c _ => ⟨fun h => absurd hlacks h, fun _ => ⟨n, hn, hnot, rfl⟩⟩⟩
  · have hreports := settle_reports (d := d) (q := d.quiet) o rfl hrows hlacks
    refine ⟨(hreports.released e he).trans howed, fun c hc => ⟨fun _ => ?_, fun h => ?_⟩⟩
    · exact hreports.failure e c he hc
    · exact absurd h hlacks

/-- A table that leaves sorting to the reader, with a release that fails. -/
def leaking : Table :=
  { Table.counts [(2, 20), (1, 10)] with
    release := some ⟨[.released "src"], some (.release "src" "boom")⟩ }

def byColumn (name : String) : SortOrder := .ascending [⟨name, .identifier, .integer⟩]

/-- The release fails behind the refusal to sort, or alone once the rows are sorted. -/
theorem request_failure_counts :
    ∃ e c, (leaking.toDataset.request (byColumn "id") .all [] ⟨false, 2, true⟩).outcome = .error e ∧
      e.flat = [c, .release "src" "boom"] ∧ c.isUnsupported ∧
    ∃ e, (leaking.toDataset.request (byColumn "id") .all [] ⟨true, 2, true⟩).outcome = .error e ∧
      e = .release "src" "boom" ∧
      (releases (leaking.toDataset.request (byColumn "id") .all [] ⟨true, 2, true⟩).log).count
        "src" = 1 := by
  obtain ⟨s, hread, howed, hfailure, hsilent⟩ :
      ∃ s, (leaking.toDataset.read (byColumn "id") .all []).outcome = .ok s ∧
        s.owed.count "src" = 1 ∧ s.pending.failure = some (.release "src" "boom") ∧
        (s.rows ()).Silent :=
    ⟨_, rfl, by decide, rfl, Rows.silent_ofRows _⟩
  have hnames : ∀ n ∈ s.residualOrder.columns, n ∈ s.schema.names := by
    cases hread
    decide
  have hopened : "src" ∉ releases (leaking.toDataset.read (byColumn "id") .all []).log :=
    List.not_mem_nil
  have hrows := hsilent.withholds "src"
  have hsettles {policy : Policy} : ¬s.LacksOrder policy := fun ⟨_, _, n, hn, hnot⟩ =>
    hnot (hnames n hn)
  obtain ⟨e, hrefused⟩ : ∃ e, (leaking.toDataset.request (byColumn "id") .all []
      ⟨false, 2, true⟩).outcome = .error e := ⟨_, rfl⟩
  obtain ⟨u, hunclosed⟩ : ∃ u, (leaking.toDataset.request (byColumn "id") .all []
      ⟨true, 2, true⟩).outcome = .error u := ⟨_, by with_unfolding_all rfl⟩
  have hfirst := request_failure hread hopened hrows howed hrefused
  have hsecond := request_failure hread hopened hrows howed hunclosed
  rcases (hfirst.2 _ hfailure).1 hsettles with ⟨-, t, ht⟩ | ⟨p, hp, hflat⟩
  · cases ht
  rcases (hsecond.2 _ hfailure).1 hsettles with ⟨hclosed, -⟩ | ⟨c, hc, -⟩
  · refine ⟨e, p, hrefused, ?_, ?_, u, hunclosed, hclosed, hsecond.1⟩
    · cases hp
      exact hflat
    · cases hp
      rfl
  · cases hc

/-- A stream that is given up is released, and that its release failed is reported nowhere. -/
theorem release_unreported :
    ∃ s, (leaking.toDataset.read (byColumn "zz") .all []).outcome = .ok s ∧
      s.pending.failure = some (.release "src" "boom") ∧
      leaking.toDataset.request (byColumn "zz") .all [] ⟨true, 2, true⟩ =
        ⟨[.released "src"], .error (.unknown "zz")⟩ ∧
      .release "src" "boom" ∉ (Error.unknown "zz").flat := by
  refine ⟨_, rfl, rfl, rfl, ?_⟩
  simp [Error.flat, Error.primary, Error.others]

end Dataset
end DatasetAlgebra
