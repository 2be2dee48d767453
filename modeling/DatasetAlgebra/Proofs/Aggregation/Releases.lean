import DatasetAlgebra.Proofs.Aggregation.Wiring
import DatasetAlgebra.Proofs.Dataset.Releases

/-!
An aggregation accounts for what its child opens. The groups show nothing that the rows of the
child do not show, and the stream of the aggregation holds open what that of the child does.
-/
namespace DatasetAlgebra

namespace Grouping

theorem events_start {g : Grouping} {es : List Event} {key : List Value} {r : Row}
    {group : OpenGroup} (h : g.start es key r = .ok group) : group.events = es := by
  obtain ⟨_, -, h⟩ := bind_eq_ok.mp h
  obtain ⟨_, -, h⟩ := bind_eq_ok.mp h
  cases h
  rfl

theorem events_extend {g : Grouping} {es : List Event} {r : Row} {group next : OpenGroup}
    (h : group.extend g es r = .ok next) : next.events = group.events ++ es := by
  obtain ⟨_, -, h⟩ := bind_eq_ok.mp h
  obtain ⟨_, -, h⟩ := bind_eq_ok.mp h
  cases h
  rfl

theorem silent_rowsFrom (g : Grouping) {rows : Rows} (h : rows.Silent) :
    (g.rowsFrom none rows).Silent ∧
      ∀ group : OpenGroup, group.events = [] → (g.rowsFrom (some group) rows).Silent := by
  induction rows with
  | ended e =>
    have hseen : e.seen = [] := Rows.seen_eq_nil h
    have hnext : e.next.seen = [] := Rows.seen_eq_nil h
    refine ⟨?_, fun group hgroup => ⟨by simp [hgroup, hseen], ?_⟩⟩
    · rw [rowsFrom, hseen]
      exact Rows.silent_last none
    · rw [hnext]
      exact Rows.silent_last none
  | poll p rest ih =>
    obtain ⟨es, item⟩ := p
    obtain ⟨rfl, hrest⟩ := h
    obtain ⟨hnone, hsome⟩ := ih () hrest
    cases item with
    | none => exact ⟨Rows.silent_last none, fun group hgroup => ⟨by simp [hgroup], hnone⟩⟩
    | some i =>
      cases i with
      | error e =>
        refine ⟨Rows.silent_last _, fun group hgroup => ?_⟩
        rw [rowsFrom, hgroup]
        exact Rows.silent_last _
      | ok r =>
        refine ⟨?_, fun group hgroup => ?_⟩ <;> rw [rowsFrom] <;> simp only
        · cases hkey : g.keys.read r with
          | error e => exact Rows.silent_last _
          | ok key =>
            simp only [Except.bind]
            cases hs : g.start [] key r with
            | error e => exact Rows.silent_last _
            | ok next => exact hsome next (events_start hs)
        · simp only [hgroup, List.append_nil]
          cases hkey : g.keys.read r with
          | error e => exact Rows.silent_last _
          | ok key =>
            simp only
            split
            · cases hext : group.extend g [] r with
              | error e => exact Rows.silent_last _
              | ok next => exact hsome next (by rw [events_extend hext, hgroup, List.append_nil])
            · refine ⟨rfl, ?_⟩
              cases hs : g.start [] key r with
              | error e => exact Rows.silent_last _
              | ok next => exact hsome next (events_start hs)

end Grouping

namespace Aggregation

open RowStream

variable {hooks : Hooks} {fatal : List Event → Error → Prop} {a : Aggregation} {q : Dataset}
  {required order : SortOrder} {f : Filter}

/-- The same aggregation of another dataset. -/
def rewired (a : Aggregation) (child : Dataset) : Aggregation := { a with child := child }

theorem of_rewired {d : Dataset} (hq : q.schema = d.schema) (names : List String) (measure : String)
    (r : Reducer) : of q names measure r = (of d names measure r).map (·.rewired q) := by
  simp only [of, hq, bind, Except.bind]
  cases columnsOf d.schema names with
  | error e => rfl
  | ok groupBy =>
    cases d.schema.column? measure with
    | none => rfl
    | some c =>
      simp only
      split
      · rfl
      · split
        · rfl
        · cases Schema.ofColumns (outputColumns groupBy c r) <;> rfl

theorem accounts_group {s : RowStream} (hs : s.Sound hooks) :
    Accounts hooks fatal s.owed
      (fun u t left => Holds hooks u t left ∧ u.schema = a.schema ∧ u.wantedOrder = order)
      (a.group order required f s) ((a.rewired q).group order required f s.quiet) := by
  have hempty : ∀ r ∈ ReleaseStack.empty.held, r.2.Reports hooks := ReleaseStack.held_empty
  have hstep : Accounts hooks fatal [] (fun (g : Grouping) g' left => g' = g ∧ left = [])
      (.silent (a.grouping required s.schema)) (.silent (a.grouping required s.schema)) :=
    .silent fun g _ => ⟨rfl, rfl⟩
  refine (hstep.registered hempty hs "aggregation input").andThen ?_
  rintro _ g _ ⟨_, ⟨rfl, rfl⟩, rfl⟩
  have hquiet : ReleaseStack.empty.register "aggregation input" s.quiet =
      (ReleaseStack.empty.register "aggregation input" s).quiet := register_quiet .empty _ s
  rw [hquiet, ReleaseStack.release_quiet, List.append_nil]
  refine .of_ok ⟨⟨⟨rfl, (g.silent_rowsFrom hs.silent).1, ?_⟩, rfl, rfl⟩, rfl, rfl⟩
  rintro r ⟨⟩
  exact ReleaseStack.reports_release (hs.reports_register hempty _)

/-- An aggregation accounts for what it opens if its child does. -/
theorem Wired.accounted (ha : a.Wired) (h : Dataset.Accounted hooks fatal a.child q)
    (hfatal : ∀ l c, Dataset.FailsToRelease a.policy a.child q l c → fatal l c) :
    Dataset.Accounted hooks fatal a.toDataset (a.rewired q).toDataset := by
  refine ⟨rfl, fun order f columns => ?_⟩
  show Accounts hooks fatal [] _ (a.read order f columns) ((a.rewired q).read order f columns)
  have hcolumns : (a.rewired q).childColumns columns = a.childColumns columns := by
    simp [childColumns, rewired, h.schema]
  have hrequired : (a.rewired q).requiredOrder order = a.requiredOrder order := rfl
  have hnames : (a.rewired q).groupNames = a.groupNames := rfl
  have hschema : (a.rewired q).child.schema = a.child.schema := h.schema
  unfold read
  rw [hrequired, hnames, hcolumns, hschema]
  unfold requiredOrder
  cases hreq : SortOrder.compatible? a.groupBy order with
  | none => exact .fail _
  | some required =>
    have ho := orders_of_compatible hreq
    simp only [SortOrder.onto_self (ha.key_mem ho)]
    split
    · refine (h.request hfatal (ha.key_mem ho) _).andThen ?_
      rintro s _ _ ⟨⟨hsound, rfl, rfl⟩, -⟩
      exact accounts_group hsound
    · exact .fail _

end Aggregation
end DatasetAlgebra
