import DatasetAlgebra.Proofs.Filter.Deciding
import DatasetAlgebra.Proofs.Stream.Sequences

/-!
Sequences that give some rows and nothing else: no pull fails, and once one gives nothing, none
behind it gives anything. Filtering such a sequence gives those of its rows that pass, if the
filter decides them.
-/
namespace DatasetAlgebra
namespace Rows

inductive Gives : Rows → List Row → Prop
  | ended (e : Ending) : Gives (.ended e) []
  | nothing (es : List Event) {rest : Unit → Rows} (h : Gives (rest ()) []) :
      Gives (.poll ⟨es, none⟩ rest) []
  | row (es : List Event) (r : Row) {rest : Unit → Rows} {rows : List Row}
      (h : Gives (rest ()) rows) : Gives (.poll ⟨es, some (.ok r)⟩ rest) (r :: rows)

variable {r : Rows} {rows : List Row} {f : Filter}

theorem gives_ofRows (rows : List Row) : (ofRows rows).Gives rows := by
  induction rows with
  | nil => exact .ended .silent
  | cons r rows ih => exact .row [] r ih

theorem Gives.flow (h : r.Gives rows) : r.flow = rows := by
  induction h with
  | ended e => rfl
  | nothing es _ ih => exact ih
  | row es r _ ih => rw [flow_poll_ok, ih]

theorem Gives.collected (h : r.Gives rows) : r.collect.rows = rows := by
  induction h with
  | ended e => rfl
  | nothing es _ _ => rfl
  | row es r _ ih => exact congrArg (r :: ·) ih

theorem Gives.failure (h : r.Gives rows) : r.collect.failure = none := by
  induction h with
  | ended e => rfl
  | nothing es _ _ => rfl
  | row es r _ ih => exact ih

theorem filterAfter_poll_ok {row : Row} {keep : Bool} (hk : f.keeps row = .ok keep)
    (skipped es : List Event) (rest : Unit → Rows) :
    filterAfter f skipped (.poll ⟨es, some (.ok row)⟩ rest) =
      if keep then .poll ⟨skipped ++ es, some (.ok row)⟩ fun _ => filterAfter f [] (rest ())
      else filterAfter f (skipped ++ es) (rest ()) := by
  cases keep <;> simp only [filterAfter, hk] <;> rfl

theorem Gives.filterAfter (h : r.Gives rows) (hf : f.Decides rows) (skipped : List Event) :
    (filterAfter f skipped r).Gives (rows.filter f.passes) := by
  induction h generalizing skipped with
  | ended e => exact .nothing _ (.ended e.next)
  | nothing es _ ih => exact .nothing _ (ih hf [])
  | row es r h ih =>
    have hrest := hf.subset (List.subset_cons_self r _)
    rw [filterAfter_poll_ok (hf.keeps_eq List.mem_cons_self)]
    cases hp : f.passes r with
    | true =>
      rw [if_pos rfl, List.filter_cons_of_pos hp]
      exact .row _ r (ih hrest [])
    | false =>
      rw [if_neg Bool.false_ne_true, List.filter_cons_of_neg (by simp [hp])]
      exact ih hrest _

theorem Gives.filter (h : r.Gives rows) (hf : f.Decides rows) :
    (r.filter f).Gives (rows.filter f.passes) := h.filterAfter hf []

/-- Once nothing is given, nothing is given any more. -/
def Rests : Rows → Prop
  | .ended _ => True
  | .poll p rest =>
    match p.item with
    | none => (rest ()).Gives []
    | some _ => (rest ()).Rests

theorem rests_last (p : Poll) : (last p).Rests := by
  obtain ⟨es, item⟩ := p
  cases item with
  | none => exact .ended .silent
  | some i => exact trivial

theorem Gives.rests (h : r.Gives rows) : r.Rests := by
  induction h with
  | ended e => exact trivial
  | nothing es h _ => exact h
  | row es r _ ih => exact ih

theorem Rests.map (h : r.Rests) (f : Row → Row) : (r.map f).Rests := by
  have hnil {rest : Rows} (hrest : rest.Gives []) : (rest.map f).Gives [] := by
    generalize hrows : ([] : List Row) = rows at hrest
    induction hrest with
    | ended e => exact .ended e
    | nothing es _ ih => exact .nothing es (ih hrows)
    | row => cases hrows
  induction r with
  | ended e => exact trivial
  | poll p rest ih =>
    obtain ⟨es, item⟩ := p
    cases item with
    | none => exact hnil h
    | some i => exact ih () h

theorem rests_prepend {r : Delayed Rows} (h : (r ()).Rests) (rows : List Row) :
    (prepend (rows.map fun r => ⟨[], some (.ok r)⟩) r).Rests := by
  induction rows with
  | nil => exact h
  | cons r rows ih => exact ih

theorem items_drain_prepend (rows : List Row) (rest : Delayed Rows) :
    (prepend (rows.map fun r => ⟨[], some (.ok r)⟩) rest).drain.items =
      rows.map .ok ++ (rest ()).drain.items := by
  induction rows with
  | nil => rfl
  | cons r rows ih => simp [prepend, drain, ih]

theorem Rests.gives (h : r.Rests) (hitems : r.drain.items = rows.map .ok) : r.Gives rows := by
  induction r generalizing rows with
  | ended e =>
    obtain rfl : rows = [] := List.map_eq_nil_iff.mp hitems.symm
    exact .ended e
  | poll p rest ih =>
    obtain ⟨es, item⟩ := p
    cases item with
    | none =>
      obtain rfl : rows = [] := List.map_eq_nil_iff.mp hitems.symm
      exact .nothing es h
    | some i =>
      obtain ⟨row, more, rfl, hrow, hmore⟩ := List.map_eq_cons_iff.mp hitems.symm
      rw [← hrow]
      exact .row es row (ih () h hmore.symm)

end Rows

theorem Feed.rests_rowsAfter (seen : List Event) (f : Feed (List Row)) :
    (f.rowsAfter seen).Rests := by
  induction f generalizing seen with
  | stop es failure => cases failure <;> exact Rows.rests_last _
  | item es batch rest ih =>
    cases batch with
    | nil => exact ih () _
    | cons r rows => exact Rows.rests_prepend (ih () []) rows

/-- A feed of batches is drained to all its rows, and to its failure if it has one. -/
theorem Feed.items_drain_rowsAfter (seen : List Event) (f : Feed (List Row)) :
    (f.rowsAfter seen).drain.items =
      f.items.flatten.map .ok ++ (f.failure.map .error).toList := by
  induction f generalizing seen with
  | stop es failure => cases failure <;> rfl
  | item es batch rest ih =>
    cases batch with
    | nil => simpa [rowsAfter, failure] using ih () _
    | cons r rows => simp [rowsAfter, Rows.drain, Rows.items_drain_prepend, ih, failure]

theorem RowStream.answers_of_gives {s : RowStream} {rows : List Row} (hs : s.finished = false)
    (h : (s.rows ()).Gives rows) (hc : s.pending.failure = none) : s.Answers (rows.map .ok) := by
  have hanswers := s.answers_drain
  rwa [drain_eq hs h.failure hc, h.collected] at hanswers

end DatasetAlgebra
