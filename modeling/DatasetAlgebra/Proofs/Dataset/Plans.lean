import DatasetAlgebra.Proofs.Aggregation.Releases
import DatasetAlgebra.Proofs.Dataset.Tables
import DatasetAlgebra.Proofs.Join.Releases
import DatasetAlgebra.Proofs.Stream.Uses

/-!
Plans: joins and aggregations of tables, nested in any way, with a release at every table. Whatever
is done with a plan, each release of a table that was opened is made once.
-/
namespace DatasetAlgebra

/-- No release fails with a failure onto which others are suppressed. -/
def Hooks.Plain (hooks : Hooks) : Prop := ∀ source e, hooks source = some e → e.flat = [e]

namespace Table

variable {hooks : Hooks} {t : Table} {o : SortOrder} {f : Filter} {columns : List String}

/-- A table with something to release, which may fail, that shows when a stream of it is opened and
when it is released. -/
def watched (t : Table) (name : String) (failure : Option Error) : Dataset :=
  let held : Table := { t with release := some ⟨[.released name], failure⟩ }
  { held.toDataset with
    read := fun o f columns =>
      (held.read o f columns).andThen fun s => ⟨[.opened name o f columns], .ok s⟩ }

theorem read_watched (t : Table) (name : String) (failure : Option Error) :
    (t.watched name failure).read o f columns =
      (Recorded.silent (t.opened o f)).andThen fun s =>
        ⟨[.opened name o f columns], .ok (s.onClose ⟨[.released name], failure⟩)⟩ := by
  let held : Table := { t with release := some ⟨[.released name], failure⟩ }
  have hopened : held.opened o f = t.opened o f := rfl
  show (held.read o f columns).andThen _ = _
  rw [read_eq, hopened]
  cases t.opened o f <;> rfl

theorem opened_ok (hooks : Hooks) {s : RowStream} (h : t.opened o f = .ok s) :
    s.Sound hooks ∧ s.release = none ∧ s.schema = t.schema ∧ s.wantedOrder = o := by
  obtain ⟨applied, -, h⟩ := bind_eq_ok.mp h
  obtain ⟨rows, -, rfl⟩ := map_eq_ok.mp h
  exact ⟨⟨rfl, Rows.silent_ofRows rows, fun r hr => by cases hr⟩, rfl, rfl, rfl⟩

theorem accounted (hplain : hooks.Plain) (t : Table) (name : String)
    (fatal : List Event → Error → Prop) :
    Dataset.Accounted hooks fatal (t.watched name (hooks name)) (t.watched name none) := by
  refine ⟨rfl, fun o f columns => ?_⟩
  rw [read_watched, read_watched]
  cases hopened : t.opened o f with
  | error e => exact .fail e
  | ok s =>
    obtain ⟨hsound, hrelease, hschema, hwanted⟩ := opened_ok hooks hopened
    have hreports : Release.Reports ⟨[.released name], hooks name⟩ hooks := by
      refine ⟨rfl, ?_⟩
      cases hfails : hooks name with
      | none => simp [Hooks.failures, releases, hfails]
      | some e => simp [Hooks.failures, releases, hfails, hplain name e hfails]
    have hclose (r : Release) : (s.onClose r).release = some r := by
      simp [RowStream.onClose, hrelease]
    have hholds : (s.onClose ⟨[.released name], hooks name⟩).Sound hooks := by
      refine ⟨hsound.unfinished, hsound.silent, fun r hr => ?_⟩
      cases (hclose _).symm.trans hr
      exact hreports
    refine ⟨fun u hu => ?_, fun _ he => by cases he⟩
    cases hu
    refine ⟨rfl, rfl, _, [name], rfl, ⟨⟨hholds, ?_, ?_⟩, hschema, hwanted⟩, .refl _⟩
    · simp [RowStream.quiet, RowStream.onClose, hrelease, Release.quiet]
    · simp [RowStream.owed, RowStream.pending, hclose, releases]

end Table

inductive Plan where
  | table (name : String) (t : Table)
  | join (kind : JoinKind) (sources : List (String × Plan)) (names : List String) (policy : Policy)
  | aggregation (child : Plan) (names : List String) (measure : String) (r : Reducer)
      (policy : Policy)

namespace Plan

mutual

def dataset (hooks : Hooks) : Plan → Except Error Dataset
  | .table name t => .ok (t.watched name (hooks name))
  | .join kind sources names policy =>
    (datasets hooks sources).bind fun ds =>
      (Join.on kind ds names).map fun j => (j.withPolicy policy).toDataset
  | .aggregation child names measure r policy =>
    (dataset hooks child).bind fun d =>
      (Aggregation.of d names measure r).map fun a => (a.withPolicy policy).toDataset

def datasets (hooks : Hooks) : List (String × Plan) → Except Error (List (String × Dataset))
  | [] => .ok []
  | (name, p) :: rest =>
    (dataset hooks p).bind fun d => (datasets hooks rest).map ((name, d) :: ·)

end

/-- A part that an operation makes requests of, under a policy. -/
inductive OperandOf : Plan → Policy → Plan → Prop
  | source {kind : JoinKind} {sources : List (String × Plan)} {names : List String}
      {policy : Policy} {source : String × Plan} (h : source ∈ sources) :
      OperandOf source.2 policy (.join kind sources names policy)
  | child {part : Plan} {names : List String} {measure : String} {r : Reducer} {policy : Policy} :
      OperandOf part policy (.aggregation part names measure r policy)

/-- Somewhere in a plan, a request that an operation makes of a part shows `log` and fails with `c`,
only because releases fail: the same request succeeds if none does. -/
inductive Fatal (hooks : Hooks) : Plan → List Event → Error → Prop
  | operand {p part : Plan} {policy : Policy} {d q : Dataset} {log : List Event} {c : Error}
      (hpart : part.OperandOf policy p) (hd : part.dataset hooks = .ok d)
      (hq : part.dataset .sound = .ok q) (h : Dataset.FailsToRelease policy d q log c) :
      Fatal hooks p log c
  | within {p part : Plan} {policy : Policy} {log : List Event} {c : Error}
      (hpart : part.OperandOf policy p) (h : Fatal hooks part log c) : Fatal hooks p log c

variable {hooks : Hooks}

mutual

theorem accounted (hplain : hooks.Plain) : (p : Plan) → {d : Dataset} → p.dataset hooks = .ok d →
    ∃ q, p.dataset .sound = .ok q ∧ d.Accounted hooks (p.Fatal hooks) q
  | .table name t, _, h => by
    cases h
    exact ⟨_, rfl, t.accounted hplain name _⟩
  | .join kind sources names policy, _, h => by
    obtain ⟨ds, hds, h⟩ := bind_eq_ok.mp h
    obtain ⟨j, hj, rfl⟩ := map_eq_ok.mp h
    have hparts : ∀ source ∈ sources, source.2.OperandOf policy (.join kind sources names policy) :=
      fun _ hsource => .source hsource
    obtain ⟨es, hes, htwins⟩ := accounted_all hplain sources hparts hds
    obtain ⟨first, rest, hq, haccounted⟩ := Join.accounted_on hj htwins
    exact ⟨_, bind_eq_ok.mpr ⟨es, hes, map_eq_ok.mpr ⟨_, hq, rfl⟩⟩, haccounted⟩
  | .aggregation child names measure r policy, _, h => by
    obtain ⟨d, hd, h⟩ := bind_eq_ok.mp h
    obtain ⟨a, ha, rfl⟩ := map_eq_ok.mp h
    obtain ⟨q, hq, hchild⟩ := accounted hplain child hd
    obtain ⟨hwired, rfl, -⟩ := Aggregation.wired_of_of ha
    have hrewired : Aggregation.of q names measure r = .ok (a.rewired q) := by
      rw [Aggregation.of_rewired hchild.schema, ha]
      rfl
    exact ⟨_, bind_eq_ok.mpr ⟨q, hq, map_eq_ok.mpr ⟨_, hrewired, rfl⟩⟩,
      (hwired.withPolicy policy).accounted (hchild.mono fun _ _ => .within .child)
        fun _ _ => .operand .child hd hq⟩

theorem accounted_all (hplain : hooks.Plain) {policy : Policy} {p : Plan} :
    (sources : List (String × Plan)) → (∀ source ∈ sources, source.2.OperandOf policy p) →
    {ds : List (String × Dataset)} → datasets hooks sources = .ok ds →
    ∃ es, datasets .sound sources = .ok es ∧
      List.Forall₂ (Join.Twins hooks (p.Fatal hooks) policy) ds es
  | [], _, _, h => by
    cases h
    exact ⟨[], rfl, .nil⟩
  | (name, part) :: rest, hparts, _, h => by
    obtain ⟨d, hd, h⟩ := bind_eq_ok.mp h
    obtain ⟨ds, hds, rfl⟩ := map_eq_ok.mp h
    obtain ⟨hpart, hrest⟩ := List.forall_mem_cons.mp hparts
    obtain ⟨q, hq, haccounted⟩ := accounted hplain part hd
    obtain ⟨es, hes, htwins⟩ := accounted_all hplain rest hrest hds
    exact ⟨(name, q) :: es, bind_eq_ok.mpr ⟨q, hq, map_eq_ok.mpr ⟨es, hes, rfl⟩⟩,
      .cons ⟨rfl, haccounted.mono fun _ _ => .within hpart, fun _ _ => .operand hpart hd hq⟩ htwins⟩

end

variable {p : Plan} {d : Dataset} {o : SortOrder} {f : Filter} {columns : List String}

/-- Each source that a plan opens is released once, at the latest when reading fails or the stream
ends, is closed or given up. What releases fail with is reported once, behind any other failure. -/
theorem releases_once (hplain : hooks.Plain) (hd : p.dataset hooks = .ok d) :
    let x := d.read o f columns
    (∀ e, x.outcome = .error e →
      Settled x.log ∧ ∃ q, p.dataset .sound = .ok q ∧
        (e.flat = hooks.failures x.log ∧
            EndedByRelease hooks (p.Fatal hooks) x.log (q.read o f columns).log e ∨
          ∃ c, q.read o f columns = ⟨x.log, .error c⟩ ∧
            e.flat = c.flat ++ hooks.failures x.log)) ∧
    ∀ s, x.outcome = .ok s →
      hooks.failures x.log = [] ∧
      ∀ uses,
        let seen := x.log ++ (s.run uses).1.flatMap Shown.events
        openings (seen ++ (s.run uses).2.abandon) = openings x.log ∧
        Settled (seen ++ (s.run uses).2.abandon) ∧
        ((∃ shown ∈ (s.run uses).1, shown.ends) → Settled seen) ∧
        ∀ shown ∈ (s.run uses).1, releases shown.events ≠ [] →
          reported shown.failure = hooks.failures shown.events := by
  intro x
  obtain ⟨q, hq, haccounted⟩ := accounted hplain p hd
  have hread := haccounted.read o f columns
  refine ⟨fun e he => ?_, fun s hs => ?_⟩
  · obtain ⟨hbalances, hended⟩ := hread.error e he
    refine ⟨hbalances.settled, q, hq, hended.imp (fun hended => ⟨hended.flat, hended⟩) ?_⟩
    rintro ⟨c, hc, hlog, hflat⟩
    exact ⟨c, by rw [← hlog, ← hc], hflat⟩
  · obtain ⟨hfailures, -, _, _, _, ⟨⟨hsound, -, rfl⟩, -⟩, hopened⟩ := hread.ok s hs
    refine ⟨hfailures, fun uses => ?_⟩
    intro seen
    have hruns := RowStream.runs (.inl hsound) uses
    have hseen : Balances [] seen (s.run uses).2.owed := hopened.append hruns.balances
    have hreports := RowStream.reports_of_sound_or_spent hruns.open_or_spent
    refine ⟨?_, (hseen.append hreports.balances).settled, fun hends => ?_, hruns.reports⟩
    · rw [RowStream.abandon, openings_append, openings_append, hruns.opens, hreports.opens,
        List.append_nil, List.append_nil]
    · rw [(hruns.ends hends).owed_eq] at hseen
      exact hseen.settled

/-- A plan that joins two tables of counts, the first of which sorts by itself. -/
def counts (sorts : Bool) (capacity : Nat) : Plan :=
  .join .inner [("left", .table "a" { Table.counts [(2, 20), (1, 10)] with sorts := true }),
    ("right", .table "b" { Table.counts [(2, 5)] with sorts := sorts })] ["id"] ⟨true, capacity, true⟩

/-- No release succeeds. -/
def gone : Hooks := fun source => some (.release source "gone")

/-- Without room to sort the second table, both releases fail behind the refusal. With room, its
release ends the reading. If it sorts by itself, both fail when the stream is closed. -/
theorem releases_once_counts :
    gone.Plain ∧
    (∃ d e c, (counts false 0).dataset gone = .ok d ∧ (d.read .any .all []).outcome = .error e ∧
      e.flat = c :: [.release "b" "gone", .release "a" "gone"] ∧ c.isUnsupported ∧
      Settled (d.read .any .all []).log ∧
      ∃ q c', (counts false 0).dataset .sound = .ok q ∧
        q.read .any .all [] = ⟨(d.read .any .all []).log, .error c'⟩ ∧ c'.flat = [c]) ∧
    (∃ d e, (counts false 2).dataset gone = .ok d ∧ (d.read .any .all []).outcome = .error e ∧
      e.flat = [.release "b" "gone", .release "a" "gone"] ∧
      Settled (d.read .any .all []).log ∧
      ∃ q, (counts false 2).dataset .sound = .ok q ∧
        EndedByRelease gone ((counts false 2).Fatal gone) (d.read .any .all []).log
          (q.read .any .all []).log e) ∧
    ∃ d s, (counts true 2).dataset gone = .ok d ∧ (d.read .any .all []).outcome = .ok s ∧
      (s.run [.pull, .close, .pull]).1.map (fun shown => reported shown.failure) =
        [[], [.release "b" "gone", .release "a" "gone"], []] ∧
      Settled ((d.read .any .all []).log ++
        (s.run [.pull, .close, .pull]).1.flatMap Shown.events) := by
  have hplain : gone.Plain := by
    rintro source e ⟨⟩
    rfl
  refine ⟨hplain, ?_, ?_, ?_⟩
  · obtain ⟨d, hd⟩ : ∃ d, (counts false 0).dataset gone = .ok d := ⟨_, rfl⟩
    obtain ⟨e, c, he, hflat, hc, hfailures⟩ : ∃ e c, (d.read .any .all []).outcome = .error e ∧
        e.flat = [c, .release "b" "gone", .release "a" "gone"] ∧ c.isUnsupported ∧
        gone.failures (d.read .any .all []).log = [.release "b" "gone", .release "a" "gone"] := by
      cases hd
      exact ⟨_, _, by with_unfolding_all rfl, by with_unfolding_all rfl, by with_unfolding_all rfl,
        by with_unfolding_all rfl⟩
    obtain ⟨hsettled, q, hq, ⟨hreleased, -⟩ | ⟨c', hread, hbehind⟩⟩ :=
      (releases_once hplain hd).1 e he
    · rw [hflat, hfailures] at hreleased
      cases congrArg List.length hreleased
    · rw [hflat, hfailures] at hbehind
      have halone : [c] = c'.flat := (List.append_left_inj [_, _]).mp hbehind
      exact ⟨d, e, c, hd, he, hflat, hc, hsettled, q, c', hq, hread, halone.symm⟩
  · obtain ⟨d, hd⟩ : ∃ d, (counts false 2).dataset gone = .ok d := ⟨_, rfl⟩
    obtain ⟨e, he, hflat, hfailures⟩ : ∃ e, (d.read .any .all []).outcome = .error e ∧
        e.flat = [.release "b" "gone", .release "a" "gone"] ∧
        gone.failures (d.read .any .all []).log = [.release "b" "gone", .release "a" "gone"] := by
      cases hd
      exact ⟨_, by with_unfolding_all rfl, by with_unfolding_all rfl, by with_unfolding_all rfl⟩
    obtain ⟨hsettled, q, hq, ⟨-, hended⟩ | ⟨c, -, hbehind⟩⟩ := (releases_once hplain hd).1 e he
    · exact ⟨d, e, hd, he, hflat, hsettled, q, hq, hended⟩
    · have hnone : c.flat = [] := by simpa [hflat, hfailures] using hbehind
      cases hnone
  · obtain ⟨d, hd⟩ : ∃ d, (counts true 2).dataset gone = .ok d := ⟨_, rfl⟩
    obtain ⟨s, hs, hreported, hends⟩ : ∃ s, (d.read .any .all []).outcome = .ok s ∧
        (s.run [.pull, .close, .pull]).1.map (fun shown => reported shown.failure) =
          [[], [.release "b" "gone", .release "a" "gone"], []] ∧
        ∃ shown ∈ (s.run [.pull, .close, .pull]).1, shown.ends := by
      cases hd
      exact ⟨_, by with_unfolding_all rfl, by with_unfolding_all rfl, _, .tail _ (.head _), rfl⟩
    exact ⟨d, s, hd, hs, hreported, (((releases_once hplain hd).2 s hs).2 _).2.2.1 hends⟩

end Plan
end DatasetAlgebra
