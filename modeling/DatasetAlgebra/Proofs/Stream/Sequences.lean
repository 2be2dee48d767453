import DatasetAlgebra.Stream.Basic
import DatasetAlgebra.Stream.Feed
import Mathlib.Data.List.Forall2

/-!
What a sequence gives. `collect` reads it to its first end or failure; `flow` reads on behind an
end, so that what holds of the flow holds of all that is given before a failure, however the
sequence is polled.
-/
namespace DatasetAlgebra

namespace Rows

/-- The rows given before the first failure, also those behind an end. -/
def flow : Rows → List Row
  | .ended _ => []
  | .poll p rest =>
    match p.item with
    | none => (rest ()).flow
    | some (.error _) => []
    | some (.ok r) => r :: (rest ()).flow

@[simp] theorem flow_ended (e : Ending) : (ended e).flow = [] := rfl
@[simp] theorem flow_poll_none (es : List Event) (rest : Unit → Rows) :
    (poll ⟨es, none⟩ rest).flow = (rest ()).flow := rfl
@[simp] theorem flow_poll_error (es : List Event) (e : Error) (rest : Unit → Rows) :
    (poll ⟨es, some (.error e)⟩ rest).flow = [] := rfl
@[simp] theorem flow_poll_ok (es : List Event) (r : Row) (rest : Unit → Rows) :
    (poll ⟨es, some (.ok r)⟩ rest).flow = r :: (rest ()).flow := rfl

@[simp] theorem flow_prepend (rows : List Row) (rest : Delayed Rows) :
    (prepend (rows.map fun r => ⟨[], some (.ok r)⟩) rest).flow = rows ++ (rest ()).flow := by
  induction rows with
  | nil => rfl
  | cons r rows ih => simp [prepend, ih]

@[simp] theorem flow_ofRows (rows : List Row) : (ofRows rows).flow = rows := by
  simp [ofRows, ofItems, empty, Function.comp_def]

theorem collect_rows_prefix_flow (r : Rows) : r.collect.rows <+: r.flow := by
  induction r with
  | ended e => exact List.nil_prefix
  | poll p rest ih =>
    obtain ⟨es, item⟩ := p
    match item with
    | none => exact List.nil_prefix
    | some (.error e) => exact List.nil_prefix
    | some (.ok r) => exact List.prefix_cons_inj r |>.mpr (ih ())

theorem collect_prepend (rows : List Row) (rest : Delayed Rows) :
    (prepend (rows.map fun r => ⟨[], some (.ok r)⟩) rest).collect.rows =
        rows ++ (rest ()).collect.rows ∧
      (prepend (rows.map fun r => ⟨[], some (.ok r)⟩) rest).collect.failure =
        (rest ()).collect.failure := by
  induction rows with
  | nil => exact ⟨rfl, rfl⟩
  | cons r rows ih => simp [prepend, collect, ih.1, ih.2]

theorem flow_map (f : Row → Row) (r : Rows) : (r.map f).flow = r.flow.map f := by
  induction r with
  | ended e => rfl
  | poll p rest ih =>
    obtain ⟨es, item⟩ := p
    match item with
    | none => exact ih ()
    | some (.error e) => rfl
    | some (.ok r) => exact congrArg (f r :: ·) (ih ())

theorem collect_map (f : Row → Row) (r : Rows) :
    (r.map f).collect.rows = r.collect.rows.map f ∧
      (r.map f).collect.failure = r.collect.failure := by
  induction r with
  | ended e => exact ⟨rfl, rfl⟩
  | poll p rest ih =>
    obtain ⟨es, item⟩ := p
    match item with
    | none => exact ⟨rfl, rfl⟩
    | some (.error e) => exact ⟨rfl, rfl⟩
    | some (.ok r) => exact ⟨congrArg (f r :: ·) (ih ()).1, (ih ()).2⟩

theorem items_drain_of_failure_eq_none {r : Rows} (h : r.collect.failure = none) :
    r.drain.items = r.collect.rows.map .ok := by
  induction r with
  | ended e => rfl
  | poll p rest ih =>
    obtain ⟨es, item⟩ := p
    match item with
    | none => rfl
    | some (.error e) => simp [collect] at h
    | some (.ok r) => simpa [drain, collect] using ih () h

/-- Draining begins with the rows up to the first failure, which comes next. -/
theorem items_drain_of_failure_eq_some {r : Rows} {e : Error} (h : r.collect.failure = some e) :
    ∃ more, r.drain.items = r.collect.rows.map .ok ++ .error e :: more := by
  induction r with
  | ended e => simp [collect] at h
  | poll p rest ih =>
    obtain ⟨es, item⟩ := p
    match item with
    | none => simp [collect] at h
    | some (.error e') =>
      simp only [collect, Option.some.injEq] at h
      exact ⟨(rest ()).drain.items, by simp [drain, collect, h]⟩
    | some (.ok r) =>
      obtain ⟨more, hm⟩ := ih () h
      exact ⟨more, by simp [drain, collect, hm]⟩

theorem exists_items_drain (r : Rows) :
    ∃ later, r.drain.items = r.collect.rows.map .ok ++ later ∧
      later.head? = r.collect.failure.map .error := by
  cases hfailure : r.collect.failure with
  | none => exact ⟨[], by simpa using items_drain_of_failure_eq_none hfailure, rfl⟩
  | some e =>
    obtain ⟨more, hitems⟩ := items_drain_of_failure_eq_some hfailure
    exact ⟨_, hitems, rfl⟩

end Rows

theorem exists_left_of_forall₂ {α β : Type} {rel : α → β → Prop} {as : List α} {bs : List β}
    (h : List.Forall₂ rel as bs) {b : β} (hb : b ∈ bs) : ∃ a ∈ as, rel a b := by
  induction h with
  | nil => simp at hb
  | cons hab _ ih =>
    rcases List.mem_cons.mp hb with rfl | hb
    · exact ⟨_, List.mem_cons_self, hab⟩
    · obtain ⟨c, hc, hcb⟩ := ih hb
      exact ⟨c, List.mem_cons_of_mem _ hc, hcb⟩

theorem prefix_of_map_ok_prefix {rows lead : List Row} {more : List (Except Error Row)}
    (hm : ∀ r, more.head? ≠ some (.ok r)) (h : rows.map .ok <+: lead.map .ok ++ more) :
    rows <+: lead := by
  induction rows generalizing lead with
  | nil => exact List.nil_prefix
  | cons r rows ih =>
    cases lead with
    | nil =>
      obtain ⟨t, ht⟩ := h
      have hmore : more = .ok r :: (rows.map .ok ++ t) := ht.symm
      exact absurd (by rw [hmore]; rfl) (hm r)
    | cons l lead =>
      simp only [List.map_cons, List.cons_append, List.cons_prefix_cons, Except.ok.injEq] at h
      exact List.cons_prefix_cons.mpr ⟨h.1, ih h.2⟩

/-- The rows a stream gives before its first failure are rows of its flow. -/
theorem RowStream.prefix_flow_of_drain {s : RowStream} {rows : List Row}
    (h : rows.map .ok <+: s.drain.2.1) : rows <+: (s.rows ()).flow := by
  unfold drain at h
  split at h
  · cases rows with
    | nil => exact List.nil_prefix
    | cons r rows => simp at h
  · refine List.IsPrefix.trans ?_ (s.rows ()).collect_rows_prefix_flow
    simp only at h
    cases hf : (s.rows ()).collect.failure with
    | some e =>
      obtain ⟨more, hm⟩ := Rows.items_drain_of_failure_eq_some hf
      rw [hm, List.append_assoc, List.cons_append] at h
      exact prefix_of_map_ok_prefix (by simp) h
    | none =>
      rw [Rows.items_drain_of_failure_eq_none hf] at h
      refine prefix_of_map_ok_prefix (fun r => ?_) h
      cases s.pending.failure <;> simp

theorem RowStream.pending_of_closes {s : RowStream}
    (h : ∀ r, s.release = some r → r.failure = none) : s.pending.failure = none := by
  unfold pending
  cases hr : s.release with
  | none => rfl
  | some r => exact h r hr

theorem RowStream.drain_eq_items {s : RowStream} (hf : s.finished = false)
    (hp : s.pending.failure = none) : s.drain.2.1 = (s.rows ()).drain.items := by
  simp [drain, hf, hp]

theorem RowStream.drain_eq {s : RowStream} (hf : s.finished = false)
    (hc : (s.rows ()).collect.failure = none) (hp : s.pending.failure = none) :
    s.drain.2.1 = (s.rows ()).collect.rows.map .ok := by
  rw [drain_eq_items hf hp, Rows.items_drain_of_failure_eq_none hc]

/-- The stream after some pulls. -/
def RowStream.after (s : RowStream) : Nat → RowStream
  | 0 => s
  | n + 1 => s.next.2.after n

/-- Pulls give some items, one after the other, and nothing ever after. -/
def RowStream.Answers (s : RowStream) (items : List (Except Error Row)) : Prop :=
  ∀ n, (s.after n).next.1.item = items[n]?

theorem RowStream.Answers.unique {s : RowStream} {items more : List (Except Error Row)}
    (h : s.Answers items) (h' : s.Answers more) : items = more :=
  List.ext_getElem? fun n => (h n).symm.trans (h' n)

theorem RowStream.Answers.rows_unique {s : RowStream} {rows more : List Row}
    (h : s.Answers (rows.map .ok)) (h' : s.Answers (more.map .ok)) : rows = more :=
  List.map_injective_iff.mpr (fun _ _ => Except.ok.inj) (h.unique h')

theorem RowStream.answers_of_finished {s : RowStream} (h : s.finished = true) : s.Answers [] := by
  have hnext := next_of_finished h
  have hafter : ∀ n, s.after n = s := fun n => by
    induction n with
    | zero => rfl
    | succ n ih => rw [after, hnext, ih]
  intro n
  rw [hafter, hnext, List.getElem?_nil]

theorem RowStream.answers_of_end {s : RowStream} (hs : s.finished = false)
    (h : (s.rows ()).next.1.item = none) : s.Answers (s.pending.failure.map .error).toList := by
  have hstep := next_of_end hs h
  rintro (_ | n)
  · rw [after, hstep]
    cases s.pending.failure <;> rfl
  · rw [after, hstep, answers_of_finished (s := s.closed) rfl n]
    cases s.pending.failure <;> rfl

theorem RowStream.answers_drain (s : RowStream) : s.Answers s.drain.2.1 := by
  by_cases hf : s.finished = true
  · rw [drain, if_pos hf]
    exact answers_of_finished hf
  rw [Bool.not_eq_true] at hf
  rw [drain, hf, if_neg Bool.false_ne_true]
  generalize hrows : s.rows () = r
  induction r generalizing s with
  | ended e => exact answers_of_end hf (by rw [hrows]; rfl)
  | poll p rest ih =>
    obtain ⟨es, item⟩ := p
    cases item with
    | none => exact answers_of_end hf (by rw [hrows]; rfl)
    | some i =>
      have hitem : (s.rows ()).next.1.item = some i := by rw [hrows]; rfl
      have hstep := next_of_item hf hitem
      rw [hrows] at hstep
      rintro (_ | n)
      · rw [after, hstep]
        rfl
      · rw [after, hstep]
        exact ih () { s with rows := rest } hf rfl n

namespace Feed

theorem flow_rowsAfter (seen : List Event) (f : Feed (List Row)) :
    (f.rowsAfter seen).flow = f.items.flatten := by
  induction f generalizing seen with
  | stop es failure => cases failure <;> rfl
  | item es batch rest ih =>
    cases batch with
    | nil => simpa [rowsAfter] using ih () _
    | cons r rows => simp [rowsAfter, ih]

theorem collect_rowsAfter (seen : List Event) (f : Feed (List Row)) :
    (f.rowsAfter seen).collect.rows = f.items.flatten ∧
      (f.rowsAfter seen).collect.failure = f.failure := by
  induction f generalizing seen with
  | stop es failure => cases failure <;> exact ⟨rfl, rfl⟩
  | item es batch rest ih =>
    cases batch with
    | nil => simpa [rowsAfter, failure] using ih () _
    | cons r rows =>
      have hp := Rows.collect_prepend rows fun _ => rowsAfter [] (rest ())
      simp [rowsAfter, Rows.collect, hp, ih, failure]

variable {α : Type}

@[simp] theorem lead_split (p : α → Bool) (f : Feed α) :
    (f.split p).lead = f.items.takeWhile p := by
  induction f with
  | item es a rest ih => by_cases h : p a <;> simp [split, h, ih]
  | stop es e => rfl

end Feed
end DatasetAlgebra
