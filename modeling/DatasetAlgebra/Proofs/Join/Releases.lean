import DatasetAlgebra.Proofs.Dataset.Releases
import DatasetAlgebra.Proofs.Join.Folding
import Mathlib.Data.List.Forall2

/-!
A join accounts for what its datasets open. What it has opened so far is held on its stack, which
a failure of the next step releases and which the stream of the join takes over in the end.
-/
namespace DatasetAlgebra

theorem KeyReader.silent_feed (k : KeyReader) {rows : Rows} (h : rows.Silent) :
    (k.feed rows).Silent := by
  induction rows with
  | ended e => exact Rows.seen_eq_nil h
  | poll p rest ih =>
    obtain ⟨es, item⟩ := p
    obtain ⟨rfl, hrest⟩ := h
    match item with
    | none => rfl
    | some (.error e) => rfl
    | some (.ok r) =>
      rw [feed]
      simp only
      cases k.read r with
      | error e => rfl
      | ok key => exact ⟨rfl, ih () hrest⟩

namespace Matching

theorem silent_join (m : Matching) (run : Option Run) {left right : Feed KeyedRow}
    (hl : left.Silent) (hr : right.Silent) : (m.join run left right).Silent := by
  refine Feed.silent_iff_seen.mpr fun n => ?_
  obtain ⟨i, -, j, -, hpulls, -⟩ := m.join_pulls run left right n
  rw [Feed.silent_iff_seen.mp hl, Feed.silent_iff_seen.mp hr] at hpulls
  exact hpulls.eq_nil

theorem silent_rows (m : Matching) (leftKeys rightKeys : KeyReader) {left right : Delayed Rows}
    (hl : (left ()).Silent) (hr : (right ()).Silent) :
    (m.rows leftKeys rightKeys left right).Silent :=
  (m.silent_join none (leftKeys.silent_feed hl) (rightKeys.silent_feed hr)).toRows

end Matching

namespace Join

open RowStream

variable {hooks : Hooks} {fatal : List Event → Error → Prop} {j : Join} {q : Request}

/-- The same join of other datasets. -/
def rewired (j : Join) (first : String × Dataset) (rest : List (String × Dataset)) : Join :=
  { j with first := first, rest := rest }

/-- Datasets of one name, the first of which accounts for what it opens. If a request of it under
the policy of a join fails only to release, that is fatal to the join. -/
structure Twins (hooks : Hooks) (fatal : List Event → Error → Prop) (policy : Policy)
    (d e : String × Dataset) : Prop where
  name : e.1 = d.1
  accounted : Dataset.Accounted hooks fatal d.2 e.2
  fatal : ∀ l c, Dataset.FailsToRelease policy d.2 e.2 l c → fatal l c

namespace Joined

/-- The same join so far, released without failure. -/
def quiet (sofar : Joined) : Joined := { sofar with held := sofar.held.quiet }

/-- The sources that a join so far holds open. -/
def owed (sofar : Joined) : List String := releases sofar.held.release.events

/-- A join so far that shows nothing before its release, and whose releases report what fails in
them. -/
structure Sound (sofar : Joined) (hooks : Hooks) : Prop where
  silent : (sofar.rows ()).Silent
  held : ∀ r ∈ sofar.held.held, r.2.Reports hooks

/-- A join so far that holds some sources open, next to the same one released without failure. -/
structure Keeps (hooks : Hooks) (a b : Joined) (left : List String) : Prop where
  sound : a.Sound hooks
  twin : b = a.quiet
  left : left.Perm a.owed

end Joined

theorem silent_mergeWith {sofar : Joined} {name : String} {s : Schema} {right rows : Delayed Rows}
    (hl : (sofar.rows ()).Silent) (hr : (right ()).Silent)
    (h : j.mergeWith q sofar name s right = .ok rows) : (rows ()).Silent := by
  obtain ⟨leftKeys, -, h⟩ := bind_eq_ok.mp h
  obtain ⟨rightKeys, -, h⟩ := bind_eq_ok.mp h
  obtain ⟨merger, -, h⟩ := bind_eq_ok.mp h
  cases h
  exact Matching.silent_rows _ leftKeys rightKeys hl hr

variable {first : String × Dataset} {rest : List (String × Dataset)}

theorem accounts_openSource {d e : String × Dataset} (h : Twins hooks fatal j.policy d e) :
    Accounts hooks fatal [] (Holds hooks) (j.openSource q d.2)
      ((j.rewired first rest).openSource q e.2) := by
  unfold openSource
  rw [h.accounted.schema]
  cases honto : q.order.onto d.2.schema with
  | error e => exact .fail e
  | ok order =>
    exact (h.accounted.request h.fatal (SortOrder.onto_spec honto).2 _).imp fun _ _ _ hs => hs.1

theorem accounts_mergeAll {ds es : List (String × Dataset)}
    (hds : List.Forall₂ (Twins hooks fatal j.policy) ds es) {sofar : Joined} (hs : sofar.Sound hooks) :
    Accounts hooks fatal sofar.owed (Joined.Keeps hooks) (j.mergeAll q sofar ds)
      ((j.rewired first rest).mergeAll q sofar.quiet es) := by
  induction hds generalizing sofar with
  | nil => exact .of_ok ⟨hs, rfl, .refl _⟩
  | @cons d e ds es hde _ ih =>
    obtain ⟨_, d⟩ := d
    obtain ⟨name, e⟩ := e
    obtain rfl : name = _ := hde.name
    refine ((accounts_openSource hde).guarding hs.held).andThen ?_
    rintro s _ _ ⟨_, ⟨hsound, rfl, rfl⟩, rfl⟩
    rw [show e.schema = d.schema from hde.accounted.schema]
    have hstep : Accounts hooks fatal []
        (fun rows rows' left => rows' = rows ∧ (rows ()).Silent ∧ left = [])
        (.silent (j.mergeWith q sofar name d.schema s.rows))
        (.silent (j.mergeWith q sofar name d.schema s.rows)) :=
      .silent fun rows hrows => ⟨rfl, silent_mergeWith hs.silent hsound.silent hrows, rfl⟩
    refine (hstep.registered hs.held hsound name).andThen ?_
    rintro _ rows _ ⟨_, ⟨rfl, hsilent, rfl⟩, rfl⟩
    rw [List.append_nil]
    have hnext : Joined.Sound ⟨j.schema, KeyReader.byName j.schema q.order, rows,
        sofar.held.register name s⟩ hooks := ⟨hsilent, hsound.reports_register hs.held name⟩
    have hquiet : sofar.quiet.held.register name s.quiet = (sofar.held.register name s).quiet :=
      register_quiet sofar.held name s
    rw [hquiet]
    exact ih hnext

theorem accounts_carry {sofar : Joined} (hs : (sofar.rows ()).Silent) :
    Accounts hooks fatal []
      (fun a b left => (a.rows ()).Silent ∧ a.held = sofar.held ∧ b = a.quiet ∧ left = [])
      (.silent (j.carry sofar)) (.silent ((j.rewired first rest).carry sofar.quiet)) := by
  have hschema : sofar.quiet.schema = sofar.schema := rfl
  have hout : (j.rewired first rest).schema = j.schema := rfl
  unfold carry
  rw [hschema, hout]
  cases RowMerger.single sofar.schema j.schema with
  | error e => exact .fail e
  | ok m => exact .of_ok ⟨hs.map _, rfl, rfl, rfl⟩

theorem accounts_openAll (hfirst : Twins hooks fatal j.policy j.first first)
    (hrest : List.Forall₂ (Twins hooks fatal j.policy) j.rest rest) :
    Accounts hooks fatal [] (Joined.Keeps hooks) (j.openAll q)
      ((j.rewired first rest).openAll q) := by
  refine (accounts_openSource hfirst).andThen ?_
  rintro s _ _ ⟨hsound, rfl, rfl⟩
  have hempty : ∀ r ∈ ReleaseStack.empty.held, r.2.Reports hooks := ReleaseStack.held_empty
  have hstart : (j.start q s).Sound hooks := ⟨hsound.silent, hsound.reports_register hempty _⟩
  have hquiet : (j.rewired first rest).start q s.quiet = (j.start q s).quiet := by
    have hkeys : (j.rewired first rest).sourceKeys q = j.sourceKeys q := rfl
    have hname : (j.rewired first rest).first.1 = j.first.1 := hfirst.name
    have hschema : (j.rewired first rest).first.2.schema = j.first.2.schema :=
      hfirst.accounted.schema
    have hstack : ReleaseStack.empty.register j.first.1 s.quiet =
        (ReleaseStack.empty.register j.first.1 s).quiet := register_quiet .empty _ s
    rw [start, hkeys, hname, hschema, hstack]
    rfl
  have howed : s.owed = (j.start q s).owed := by
    rw [Joined.owed, start, owed_register]
    simp [ReleaseStack.events_release, ReleaseStack.empty]
  have hlast : rest.isEmpty = j.rest.isEmpty := by
    generalize j.rest = ds at hrest
    cases hrest <;> rfl
  show Accounts hooks fatal s.owed _
    (if j.rest.isEmpty then (j.start q s).held.guarding (.silent (j.carry (j.start q s)))
      else j.mergeAll q (j.start q s) j.rest)
    (if rest.isEmpty then ((j.rewired first rest).start q s.quiet).held.guarding
        (.silent ((j.rewired first rest).carry ((j.rewired first rest).start q s.quiet)))
      else (j.rewired first rest).mergeAll q ((j.rewired first rest).start q s.quiet) rest)
  rw [hquiet, hlast, howed]
  split
  · refine ((accounts_carry hstart.silent).guarding hstart.held).imp ?_
    rintro a _ _ ⟨_, ⟨hsilent, hheld, rfl, rfl⟩, rfl⟩
    refine ⟨⟨hsilent, hheld ▸ hstart.held⟩, rfl, ?_⟩
    rw [List.append_nil, Joined.owed, hheld]
  · exact accounts_mergeAll hrest hstart

/-- A join accounts for what it opens if its datasets do. -/
theorem accounted (hfirst : Twins hooks fatal j.policy j.first first)
    (hrest : List.Forall₂ (Twins hooks fatal j.policy) j.rest rest) :
    Dataset.Accounted hooks fatal j.toDataset (j.rewired first rest).toDataset := by
  refine ⟨rfl, fun order f columns => ?_⟩
  show Accounts hooks fatal [] _ (j.read order f columns)
    ((j.rewired first rest).read order f columns)
  have hrequired : (j.rewired first rest).requiredOrder order = j.requiredOrder order := rfl
  have hnames : (j.rewired first rest).identifierNames = j.identifierNames := rfl
  unfold read
  rw [hrequired, hnames]
  cases j.requiredOrder order with
  | error e => exact .fail e
  | ok required =>
    simp only
    split
    · refine (accounts_openAll hfirst hrest).andThen ?_
      rintro joined _ left ⟨hs, rfl, hleft⟩
      have hrelease : joined.quiet.held.release = joined.held.release.quiet :=
        ReleaseStack.release_quiet joined.held
      rw [hrelease]
      refine Accounts.perm (.of_ok ⟨⟨⟨rfl, hs.silent, ?_⟩, rfl, rfl⟩, rfl, rfl⟩) hleft.symm
      rintro r ⟨⟩
      exact ReleaseStack.reports_release hs.held
    · exact .fail _

/-- Building a join looks at the names and schemas of its datasets only. -/
theorem on_rewired {kind : JoinKind} {d e : String × Dataset} {ds es : List (String × Dataset)}
    (h : List.Forall₂ (fun d e => e.1 = d.1 ∧ e.2.schema = d.2.schema) (d :: ds) (e :: es))
    (names : List String) :
    on kind (e :: es) names = (on kind (d :: ds) names).map (·.rewired e es) := by
  have hboth {β : Type} (f : String → Schema → β) {as bs : List (String × Dataset)}
      (h : List.Forall₂ (fun d e => e.1 = d.1 ∧ e.2.schema = d.2.schema) as bs) :
      bs.map (fun b => f b.1 b.2.schema) = as.map fun a => f a.1 a.2.schema := by
    induction h with
    | nil => rfl
    | cons hab _ ih => rw [List.map_cons, List.map_cons, ih, hab.1, hab.2]
  obtain ⟨⟨-, hschema⟩, hrest⟩ := List.forall₂_cons.mp h
  have hnames := hboth (fun name _ => name) h
  have hsources := hboth Prod.mk h
  have hschemas := hboth (fun _ schema => schema) hrest
  simp only [on, hnames, hsources, hschema, hschemas, bind, Except.bind]
  cases Schema.firstRepeat [] ((d :: ds).map fun d => d.1) with
  | some name => rfl
  | none =>
    simp only
    cases mergeSchemas d.2.schema (ds.map fun d => d.2.schema) with
    | error e => rfl
    | ok schema =>
      simp only
      cases identifiersOf schema names with
      | error e => rfl
      | ok identifiers =>
        have hempty : es.isEmpty = ds.isEmpty := by cases hrest <;> rfl
        simp only [hempty]
        split
        · rfl
        · cases ColumnMap.build identifiers ((d :: ds).map fun d => (d.1, d.2.schema)) <;> rfl

theorem accounted_on {kind : JoinKind} {ds es : List (String × Dataset)} {names : List String}
    {policy : Policy} (hj : on kind ds names = .ok j)
    (h : List.Forall₂ (Twins hooks fatal policy) ds es) :
    ∃ first rest, on kind es names = .ok (j.rewired first rest) ∧
      Dataset.Accounted hooks fatal (j.withPolicy policy).toDataset
        ((j.rewired first rest).withPolicy policy).toDataset := by
  obtain ⟨-, -, hdatasets, -⟩ := wired_of_on hj
  rw [← hdatasets] at h hj
  obtain ⟨first, rest, hfirst, hrest, rfl⟩ := List.forall₂_cons_left_iff.mp h
  have hrewired : on kind (first :: rest) names = (on kind (j.first :: j.rest) names).map _ :=
    on_rewired (h.imp fun _ _ hd => ⟨hd.name, hd.accounted.schema⟩) names
  rw [show on kind (j.first :: j.rest) names = .ok j from hj] at hrewired
  exact ⟨first, rest, hrewired, accounted (j := j.withPolicy policy) hfirst hrest⟩

end Join
end DatasetAlgebra
