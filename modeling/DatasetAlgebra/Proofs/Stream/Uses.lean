import DatasetAlgebra.Proofs.Stream.Releases

/-!
What is done with a stream: it is pulled from and closed, in any order and any number of times.
Its release is made once, whatever is done, and what fails in it is reported by the use that makes
it.
-/
namespace DatasetAlgebra

inductive Use where
  | pull
  | close
  deriving DecidableEq, Repr

/-- What a use shows: events, the failure it reports, and whether the stream ends with it. -/
structure Shown where
  events : List Event
  failure : Option Error
  ends : Bool

/-- A pull that gives nothing ends the stream, and so does one whose failure is that of the
release: no row can come after it. -/
def Poll.shown (p : Poll) (rest : RowStream) : Shown :=
  match p.item with
  | none => ⟨p.events, none, true⟩
  | some (.error e) => ⟨p.events, some e, rest.finished⟩
  | some (.ok _) => ⟨p.events, none, rest.finished⟩

namespace RowStream

def use (s : RowStream) : Use → Shown × RowStream
  | .pull => (s.next.1.shown s.next.2, s.next.2)
  | .close => (⟨s.close.1.events, s.close.1.failure, true⟩, s.close.2)

/-- One use after the other, and the stream after them. -/
def run (s : RowStream) : List Use → List Shown × RowStream
  | [] => ([], s)
  | u :: uses =>
    let (shown, rest) := s.use u
    let (more, last) := rest.run uses
    (shown :: more, last)

variable {hooks : Hooks} {s : RowStream}

theorem run_cons (s : RowStream) (u : Use) (uses : List Use) :
    s.run (u :: uses) =
      ((s.use u).1 :: ((s.use u).2.run uses).1, ((s.use u).2.run uses).2) := rfl

/-- A stream that was released. -/
structure Spent (s : RowStream) : Prop where
  finished : s.finished = true
  release : s.release = none

theorem spent_closed (s : RowStream) : s.closed.Spent := ⟨rfl, rfl⟩

theorem Spent.pending_eq (h : s.Spent) : s.pending = .nothing := by
  simp [pending, h.release]

theorem Spent.owed_eq (h : s.Spent) : s.owed = [] := by
  rw [owed, h.pending_eq]
  rfl

theorem reports_of_sound_or_spent (h : s.Sound hooks ∨ s.Spent) : s.pending.Reports hooks :=
  h.elim Sound.reports fun h => h.pending_eq ▸ Release.reports_nothing hooks

/-- A use that does not release the stream shows nothing, and the stream is open still. -/
structure Waits (s : RowStream) (hooks : Hooks) (used : Shown × RowStream) : Prop where
  silent : used.1.events = []
  goes : used.1.ends = false
  sound : used.2.Sound hooks
  owed : used.2.owed = s.owed

/-- A use that releases the stream, if it was open, and reports what fails in that. -/
structure Ends (s : RowStream) (hooks : Hooks) (used : Shown × RowStream) : Prop where
  events : used.1.events = s.pending.events
  failure : reported used.1.failure = hooks.failures used.1.events
  spent : used.2.Spent

theorem Sound.use (h : s.Sound hooks) (u : Use) :
    s.Waits hooks (s.use u) ∨ s.Ends hooks (s.use u) := by
  have hfailure : reported s.pending.failure = hooks.failures s.pending.events := h.reports.failure
  cases u with
  | close => exact .inr ⟨rfl, hfailure, s.spent_closed⟩
  | pull =>
    obtain ⟨hevents, hrest⟩ := h.silent.next
    cases hitem : (s.rows ()).next.1.item with
    | some i =>
      have hnext : s.next = (⟨[], some i⟩, { s with rows := (s.rows ()).next.2 }) := by
        rw [next_of_item h.unfinished hitem, hevents]
      refine .inl ⟨?_, ?_, ?_, ?_⟩ <;> simp only [RowStream.use, hnext]
      · cases i <;> rfl
      · cases i <;> exact h.unfinished
      · exact ⟨h.unfinished, hrest, h.release⟩
      · rfl
    | none =>
      have hnext : s.next = (⟨s.pending.events, s.pending.failure.map .error⟩, s.closed) := by
        rw [next_of_end h.unfinished hitem, hevents, List.nil_append]
      refine .inr ⟨?_, ?_, ?_⟩ <;> simp only [RowStream.use, hnext]
      · cases s.pending.failure <;> rfl
      · cases hp : s.pending.failure <;> simpa [Poll.shown, hp] using hfailure
      · exact s.spent_closed

theorem Spent.use (h : s.Spent) (u : Use) (hooks : Hooks) : s.Ends hooks (s.use u) := by
  cases u with
  | close =>
    refine ⟨rfl, ?_, s.spent_closed⟩
    simp [RowStream.use, close, h.pending_eq, Release.nothing]
  | pull =>
    have hnext := next_of_finished h.finished
    refine ⟨?_, ?_, ?_⟩ <;> simp only [RowStream.use, hnext]
    · rw [h.pending_eq]
      rfl
    · rfl
    · exact h

theorem Spent.run (h : s.Spent) (uses : List Use) : (s.run uses).2.Spent := by
  induction uses generalizing s with
  | nil => exact h
  | cons u uses ih => exact ih (h.use u .sound).spent

/-- A run of uses opens nothing and releases what the stream holds once: all of it once the stream
has ended. Every use that releases something reports what fails in that. -/
structure Runs (s : RowStream) (hooks : Hooks) (ran : List Shown × RowStream) : Prop where
  open_or_spent : ran.2.Sound hooks ∨ ran.2.Spent
  opens : openings (ran.1.flatMap Shown.events) = []
  balances : Balances s.owed (ran.1.flatMap Shown.events) ran.2.owed
  ends : (∃ shown ∈ ran.1, shown.ends) → ran.2.Spent
  reports : ∀ shown ∈ ran.1, releases shown.events ≠ [] →
    reported shown.failure = hooks.failures shown.events

theorem runs (h : s.Sound hooks ∨ s.Spent) (uses : List Use) : s.Runs hooks (s.run uses) := by
  induction uses generalizing s with
  | nil => exact ⟨h, rfl, .nil _, by simp [run], by simp [run]⟩
  | cons u uses ih =>
    have hused : s.Waits hooks (s.use u) ∨ s.Ends hooks (s.use u) :=
      h.elim (·.use u) fun h => .inr (h.use u hooks)
    rw [run_cons]
    rcases hused with hwaits | hends
    · have hruns := ih (.inl hwaits.sound)
      refine ⟨hruns.open_or_spent, ?_, ?_, ?_, ?_⟩
      · rw [List.flatMap_cons, hwaits.silent, List.nil_append]
        exact hruns.opens
      · rw [List.flatMap_cons, hwaits.silent, List.nil_append, ← hwaits.owed]
        exact hruns.balances
      · rintro ⟨shown, hmem, hlast⟩
        rcases List.mem_cons.mp hmem with rfl | hmem
        · rw [hwaits.goes] at hlast
          cases hlast
        · exact hruns.ends ⟨shown, hmem, hlast⟩
      · refine List.forall_mem_cons.mpr ⟨fun hne => ?_, hruns.reports⟩
        rw [hwaits.silent] at hne
        exact absurd rfl hne
    · have hruns := ih (.inr hends.spent)
      have hreports := reports_of_sound_or_spent h
      refine ⟨hruns.open_or_spent, ?_, ?_, fun _ => hends.spent.run uses, ?_⟩
      · rw [List.flatMap_cons, openings_append, hends.events, hreports.opens, hruns.opens,
          List.nil_append]
      · have hbalances : Balances s.owed (s.use u).1.events (s.use u).2.owed := by
          rw [hends.events, hends.spent.owed_eq]
          exact hreports.balances
        exact hbalances.append hruns.balances
      · exact List.forall_mem_cons.mpr ⟨fun _ => hends.failure, hruns.reports⟩

end RowStream
end DatasetAlgebra
