import DatasetAlgebra.Proofs.Aggregation.Interrupted
import DatasetAlgebra.Proofs.Dataset.Tables

/-!
The pulls that a grouping makes. It pulls one row after the other and none behind a failure. The
end that completes a group is not kept, though: the row of the group is given, and the next pull
comes to the sequence once more. What the sequence gives behind its end is grouped as well.
-/
namespace DatasetAlgebra

namespace Rows

/-- What is seen of pulls on a sequence that is pulled on behind a row, and behind an end if a group
is open there. -/
inductive Drawn : Bool → Rows → List Event → Prop
  | unpulled (opened : Bool) (r : Rows) : Drawn opened r []
  | once (opened : Bool) (r : Rows) : Drawn opened r r.next.1.events
  | row (opened : Bool) {r : Rows} {row : Row} {events : List Event}
      (hrow : r.next.1.item = some (.ok row)) (h : Drawn true (r.next.2 ()) events) :
      Drawn opened r (r.next.1.events ++ events)
  | nothing {r : Rows} {events : List Event} (hend : r.next.1.item = none)
      (h : Drawn false (r.next.2 ()) events) : Drawn true r (r.next.1.events ++ events)

theorem Drawn.last {opened : Bool} {r : Rows} {p : Poll} (h : p.events = r.next.1.events) (n : Nat) :
    Drawn opened r ((Rows.last p).seen n) := by
  cases n with
  | zero => exact .unpulled opened r
  | succ n =>
    rw [seen_last, h]
    exact .once opened r

/-- A pull gives a row, or it gives nothing right behind a row. -/
def GoesOn (r : Rows) (n : Nat) : Prop :=
  (∃ row, r.item n = some (.ok row)) ∨
    r.item n = none ∧ ∃ k row, n = k + 1 ∧ r.item k = some (.ok row)

theorem GoesOn.behind {r : Rows} {n : Nat} (h : (r.next.2 ()).GoesOn n) : r.GoesOn (n + 1) := by
  rcases h with hrow | ⟨hnone, k, row, rfl, hrow⟩
  · exact .inl hrow
  · exact .inr ⟨hnone, k + 1, row, rfl, hrow⟩

/-- All pulls but the last go on, where the first may also come upon the end of an open group. -/
theorem Drawn.goesOn {opened : Bool} {r : Rows} {events : List Event} (h : Drawn opened r events) :
    ∃ k, events = r.seen k ∧
      ∀ i, i + 1 < k → r.GoesOn i ∨ opened = true ∧ i = 0 ∧ r.item 0 = none := by
  induction h with
  | unpulled => exact ⟨0, rfl, fun i hi => by omega⟩
  | once opened r => exact ⟨1, (List.append_nil _).symm, fun i hi => by omega⟩
  | @row opened r row events hrow _ ih =>
    obtain ⟨k, rfl, hk⟩ := ih
    refine ⟨k + 1, rfl, fun i hi => .inl ?_⟩
    cases i with
    | zero => exact .inl ⟨row, hrow⟩
    | succ i =>
      rcases hk i (by omega) with hgoes | ⟨-, rfl, hnone⟩
      · exact hgoes.behind
      · exact .inr ⟨hnone, 0, row, rfl, hrow⟩
  | nothing hend _ ih =>
    obtain ⟨k, rfl, hk⟩ := ih
    refine ⟨k + 1, rfl, fun i hi => ?_⟩
    cases i with
    | zero => exact .inr ⟨rfl, rfl, hend⟩
    | succ i =>
      rcases hk i (by omega) with hgoes | ⟨hfalse, -⟩
      · exact .inl hgoes.behind
      · cases hfalse

end Rows

namespace Grouping

/-- The pulls that groups take, the first of which may be open already. -/
theorem drawn_rowsFrom (g : Grouping) (input : Rows) :
    (∀ n, Rows.Drawn false input ((g.rowsFrom none input).seen n)) ∧
      ∀ group n, ∃ events, (g.rowsFrom (some group) input).seen (n + 1) = group.events ++ events ∧
        Rows.Drawn true input events := by
  induction input with
  | ended e =>
    refine ⟨fun n => .last rfl n, fun group n => ⟨_, List.append_assoc _ _ _, ?_⟩⟩
    exact .nothing (r := .ended e) rfl (.last rfl n)
  | poll p rest ih =>
    obtain ⟨es, item⟩ := p
    obtain ⟨hfresh, hopen⟩ := ih ()
    rcases item with _ | e | r
    · refine ⟨fun n => .last rfl n, fun group n => ⟨_, List.append_assoc _ _ _, ?_⟩⟩
      exact .nothing (r := .poll ⟨es, none⟩ rest) rfl (hfresh n)
    · exact ⟨fun n => .last rfl n, fun group n => ⟨es, Rows.seen_last _ n, .once true (.poll _ rest)⟩⟩
    · have honce : Rows.Drawn true (.poll ⟨es, some (.ok r)⟩ rest) es := .once true (.poll _ rest)
      have hrow (opened : Bool) {events : List Event} (h : Rows.Drawn true (rest ()) events) :
          Rows.Drawn opened (.poll ⟨es, some (.ok r)⟩ rest) (es ++ events) :=
        .row (r := .poll ⟨es, some (.ok r)⟩ rest) opened rfl h
      have hstop (e : Error) (n : Nat) :
          Rows.Drawn false (.poll ⟨es, some (.ok r)⟩ rest) ((stop es e).seen n) :=
        .last (p := ⟨es, some (.error e)⟩) rfl n
      refine ⟨fun n => ?_, fun group n => ?_⟩ <;> rw [rowsFrom] <;> simp only
      · cases g.keys.read r with
        | error e => exact hstop e n
        | ok key =>
          simp only [Except.bind]
          cases hstart : g.start es key r with
          | error e => exact hstop e n
          | ok next =>
            cases n with
            | zero => exact .unpulled _ _
            | succ n =>
              obtain ⟨events, hseen, hdrawn⟩ := hopen next n
              rw [hseen, events_start hstart]
              exact hrow false hdrawn
      · cases g.keys.read r with
        | error e => exact ⟨es, Rows.seen_last _ n, honce⟩
        | ok key =>
          simp only
          split
          · cases hext : group.extend g es r with
            | error e => exact ⟨es, Rows.seen_last _ n, honce⟩
            | ok next =>
              obtain ⟨events, hseen, hdrawn⟩ := hopen next n
              refine ⟨es ++ events, ?_, hrow true hdrawn⟩
              rw [hseen, events_extend hext, List.append_assoc]
          · -- the row of the group is given ahead of what its successor is pulled for
            simp only [Rows.seen_poll]
            cases n with
            | zero => exact ⟨es, List.append_nil _, honce⟩
            | succ n =>
              cases hstart : g.start [] key r with
              | error e => exact ⟨es, by simp [stop], honce⟩
              | ok next =>
                obtain ⟨events, hseen, hdrawn⟩ := hopen next n
                refine ⟨es ++ events, ?_, hrow true hdrawn⟩
                simp only
                rw [hseen, events_start hstart, List.nil_append, List.append_assoc]

theorem leadsTo_rows_behind_end {g : Grouping} {source : Schema} (hg : g.Reads source)
    {input last : Rows} {r : Row} {rows xs : List Row} (hi : input.LeadsTo last (r :: rows))
    (hlast : last.next.1.item = none) (hrows : ∀ q ∈ r :: rows, q.schema = source)
    (h : g.grouped (r :: rows) = xs.map .ok) :
    (g.rows input).LeadsTo (g.rows (last.next.2 ())) xs := by
  obtain ⟨ys, next, rfl, hgiven⟩ := leadsTo_rows hg hi hrows h
  refine hgiven.append ?_
  cases last with
  | ended e => exact .row _ _ (.here _)
  | poll p rest =>
    obtain ⟨es, item⟩ := p
    cases hlast
    exact .row _ _ (.here _)

/-- However many groups are asked for, a sequence is pulled on behind a row, and behind an end right
behind a row. What it gives there is grouped like a sequence of its own. -/
theorem pulls_behind_rows (g : Grouping) (input : Rows) :
    (∀ n, ∃ k, (g.rows input).seen n = input.seen k ∧ ∀ i, i + 1 < k → input.GoesOn i) ∧
      ∀ source last r rows xs, g.Reads source → input.LeadsTo last (r :: rows) →
        last.next.1.item = none → (∀ q ∈ r :: rows, q.schema = source) →
        g.grouped (r :: rows) = xs.map .ok → (g.rows input).LeadsTo (g.rows (last.next.2 ())) xs := by
  refine ⟨fun n => ?_, fun source last r rows xs hg hi hlast hrows h =>
    leadsTo_rows_behind_end hg hi hlast hrows h⟩
  obtain ⟨k, hseen, hk⟩ := ((g.drawn_rowsFrom input).1 n).goesOn
  refine ⟨k, hseen, fun i hi => (hk i hi).resolve_right ?_⟩
  rintro ⟨hfalse, -⟩
  cases hfalse

/-- The sums of counts by identifier. -/
def countSums : Grouping :=
  ⟨⟨[("id", 0)]⟩, .ascending Table.countSchema.identifiers, ("n", 1), .integer, .sum,
    Table.countSchema⟩

theorem reads_countSums : countSums.Reads Table.countSchema where
  keys := by
    obtain ⟨k, hk, hreads⟩ := KeyReader.byName_ok (s := Table.countSchema)
      (o := .ascending Table.countSchema.identifiers) (by decide)
    cases hk
    exact hreads
  measure r hr := Aggregation.measureOf_ok (c := ⟨"n", .measure, .integer⟩) rfl rfl hr

/-- A count, an end, and a count behind that end. -/
def resumingCounts : Rows :=
  .poll ⟨[.pulled "a"], some (.ok (Table.countRow 1 10))⟩ fun _ =>
    .poll ⟨[.ended "a"], none⟩ fun _ => .traced "a" [.ok (Table.countRow 2 5)]

/-- The first group takes the first two pulls, and the second starts behind the end. -/
theorem pulls_behind_rows_counts :
    (∃ k, (countSums.rows resumingCounts).seen 1 = resumingCounts.seen k ∧
        resumingCounts.seen k = [.pulled "a", .ended "a"] ∧
        ∀ i, i + 1 < k → resumingCounts.GoesOn i) ∧
      (countSums.rows resumingCounts).LeadsTo
        (countSums.rows (.traced "a" [.ok (Table.countRow 2 5)])) [Table.countRow 1 10] := by
  obtain ⟨hseen, hgroups⟩ := pulls_behind_rows countSums resumingCounts
  obtain ⟨k, hk, hgoes⟩ := hseen 1
  have hgrouped : countSums.grouped [Table.countRow 1 10] = [.ok (Table.countRow 1 10)] := by
    rw [grouped_cons]
    exact resumed_nil _ _
  refine ⟨⟨k, hk, hk.symm, hgoes⟩, ?_⟩
  exact hgroups _ (.poll ⟨[.ended "a"], none⟩ fun _ => .traced "a" [.ok (Table.countRow 2 5)]) _ []
    _ reads_countSums (.row [.pulled "a"] _ (.here _)) rfl (by decide) hgrouped

/-- A source of one row is seen to end twice when two groups are asked for. If it gives a row behind
its end, that row is counted in. -/
theorem pulled_behind_end :
    let input := Rows.traced "a" [.ok (Table.countRow 1 10)]
    ∃ (a : Aggregation) (required : SortOrder),
      Aggregation.of (Table.counts []).toDataset ["id"] "n" .sum = .ok a ∧
      SortOrder.compatible? a.groupBy .any = some required ∧
      a.grouping required Table.countSchema = .ok countSums ∧
      input.item 1 = none ∧
      (countSums.rows input).seen 2 = [.pulled "a", .ended "a", .ended "a"] ∧
      resumingCounts.item 1 = none ∧
      (countSums.rows resumingCounts).item 1 = some (.ok (Table.countRow 2 5)) :=
  ⟨_, _, rfl, rfl, rfl, rfl, rfl, rfl, rfl⟩

end Grouping
end DatasetAlgebra
