import DatasetAlgebra.Proofs.SortOrder.Sorting
import DatasetAlgebra.Proofs.Stream.Pulls
import DatasetAlgebra.SortOrder.Buffer

/-!
Sort buffers. Filling one takes the rows in front of the first failure as far as they fit, and no
pull more than it takes to meet what stops it: a failure, a row too many, or the end. The rows held
by then come out sorted stably.
-/
namespace DatasetAlgebra

namespace SortBuffer

variable {b : SortBuffer} {o : SortOrder} {capacity : Nat}

/-- How many more rows a buffer takes. -/
def room (b : SortBuffer) : Nat := b.capacity - b.size

theorem push_of_lt (h : b.size < b.capacity) (r : Row) :
    b.push r = .ok { b with rows := b.rows ++ [r] } := if_neg (Nat.not_le_of_lt h)

theorem push_of_le (h : b.capacity ≤ b.size) (r : Row) :
    b.push r = .error (.unsupported (.buffer b.order b.capacity)) := if_pos h

theorem size_le_of_push {b' : SortBuffer} {r : Row} (h : b.push r = .ok b') :
    b'.size ≤ b'.capacity := by
  by_cases hb : b.size < b.capacity
  · rw [push_of_lt hb] at h
    cases h
    simpa [size, Nat.add_one_le_iff] using hb
  · rw [push_of_le (Nat.le_of_not_lt hb)] at h
    cases h

theorem fill_eq (hb : b.size ≤ b.capacity) (source : Rows) :
    b.fill source =
      { buffer := { b with rows := b.rows ++ source.collect.rows.take b.room }
        events := source.seen (min source.collect.rows.length b.room + 1)
        failure :=
          if source.collect.rows.length ≤ b.room then source.collect.failure
          else some (.unsupported (.buffer b.order b.capacity)) } := by
  induction source generalizing b with
  | ended e => simp [fill, Rows.collect, Rows.seen, Rows.next]
  | poll p rest ih =>
    obtain ⟨es, item⟩ := p
    rcases item with _ | e | r
    · simp [fill, Rows.collect]
    · simp [fill, Rows.collect]
    · by_cases hfull : b.capacity ≤ b.size
      · have hroom : b.room = 0 := Nat.sub_eq_zero_of_le hfull
        simp [fill, push_of_le hfull, Rows.collect, hroom]
      · -- the rest goes into a buffer with room for one row less
        have hlt : b.size < b.capacity := Nat.lt_of_not_le hfull
        let next : SortBuffer := { b with rows := b.rows ++ [r] }
        have hsize : next.size = b.size + 1 := by simp [next, size]
        have hroom : b.room = next.room + 1 := by
          have hcapacity : next.capacity = b.capacity := rfl
          simp only [room, hsize, hcapacity]
          omega
        have hrest := ih () (b := next) (hsize ▸ hlt)
        simp [fill, push_of_lt hlt, Rows.collect, hroom, Nat.add_min_add_right, next, hrest]

section

variable {source : Rows}

theorem fill_of_le (h : source.collect.rows.length ≤ capacity) :
    (empty o capacity).fill source =
      { buffer := ⟨o, capacity, source.collect.rows⟩
        events := source.seen (source.collect.rows.length + 1)
        failure := source.collect.failure } := by
  have hroom : (empty o capacity).room = capacity := rfl
  rw [fill_eq (Nat.zero_le _), hroom, List.take_of_length_le h, Nat.min_eq_left h, if_pos h]
  rfl

theorem fill_of_lt (h : capacity < source.collect.rows.length) :
    (empty o capacity).fill source =
      { buffer := ⟨o, capacity, source.collect.rows.take capacity⟩
        events := source.seen (capacity + 1)
        failure := some (.unsupported (.buffer o capacity)) } := by
  have hroom : (empty o capacity).room = capacity := rfl
  rw [fill_eq (Nat.zero_le _), hroom, Nat.min_eq_right (Nat.le_of_lt h),
    if_neg (Nat.not_le_of_lt h)]
  rfl

theorem buffer_of_failure_eq_none (h : ((empty o capacity).fill source).failure = none) :
    ((empty o capacity).fill source).buffer = ⟨o, capacity, source.collect.rows⟩ := by
  by_cases hfits : source.collect.rows.length ≤ capacity
  · rw [fill_of_le hfits]
  · rw [fill_of_lt (Nat.lt_of_not_le hfits)] at h
    cases h

end

theorem buffer_fill (o : SortOrder) (capacity : Nat) (source : Rows) :
    ((empty o capacity).fill source).buffer =
      ⟨o, capacity, source.collect.rows.take capacity⟩ := by
  rw [fill_eq (Nat.zero_le _)]
  rfl

theorem events_fill (o : SortOrder) (capacity : Nat) (source : Rows) :
    ((empty o capacity).fill source).events =
      source.seen (((empty o capacity).fill source).buffer.rows.length + 1) := by
  rw [buffer_fill, List.length_take, Nat.min_comm, fill_eq (Nat.zero_le _)]
  rfl

/-- What stops the filling of a buffer that holds so many rows, in front of the items that are
left. -/
inductive Stops (o : SortOrder) (capacity : Nat) :
    Nat → List (Except Error Row) → Option Error → Prop
  | ended (held : Nat) : Stops o capacity held [] none
  | failed (held : Nat) (e : Error) (later : List (Except Error Row)) :
      Stops o capacity held (.error e :: later) (some e)
  | full (r : Row) (later : List (Except Error Row)) :
      Stops o capacity capacity (.ok r :: later) (some (.unsupported (.buffer o capacity)))

theorem Stops.eq_none_iff {items left : List (Except Error Row)} {held : List Row}
    {failure : Option Error} (h : Stops o capacity held.length left failure)
    (hitems : items = held.map .ok ++ left) (hheld : held.length ≤ capacity) :
    failure = none ↔ (∀ e, .error e ∉ items) ∧ items.length ≤ capacity := by
  subst hitems
  generalize hn : held.length = n at h
  cases h with
  | ended => simpa using hheld
  | failed _ e later => exact iff_of_false (by simp) fun hall => hall.1 e (by simp)
  | full r later => simp [hn]

/-- Filling stops behind the rows that are held then. -/
theorem stops_fill (o : SortOrder) (capacity : Nat) (source : Rows) :
    ∃ left, source.drain.items = ((empty o capacity).fill source).buffer.rows.map .ok ++ left ∧
      Stops o capacity ((empty o capacity).fill source).buffer.rows.length left
        ((empty o capacity).fill source).failure := by
  obtain ⟨later, hitems, hlater⟩ := source.exists_items_drain
  by_cases hfits : source.collect.rows.length ≤ capacity
  · rw [fill_of_le hfits]
    refine ⟨later, hitems, ?_⟩
    cases hfailure : source.collect.failure with
    | none =>
      rw [hfailure] at hlater
      rw [List.head?_eq_none_iff.mp hlater]
      exact .ended _
    | some e =>
      rw [hfailure] at hlater
      obtain ⟨more, rfl⟩ := List.head?_eq_some_iff.mp hlater
      exact .failed _ e more
  · have hlt : capacity < source.collect.rows.length := Nat.lt_of_not_le hfits
    have hheld : (source.collect.rows.take capacity).length = capacity := by
      rw [List.length_take, Nat.min_eq_left (Nat.le_of_lt hlt)]
    obtain ⟨r, more, hmore⟩ : ∃ r more, source.collect.rows.drop capacity = r :: more :=
      List.exists_cons_of_length_pos (by rw [List.length_drop]; omega)
    rw [fill_of_lt hlt, hheld]
    refine ⟨.ok r :: (more.map .ok ++ later), ?_, .full r _⟩
    calc source.drain.items
        = (source.collect.rows.take capacity ++ r :: more).map .ok ++ later := by
          rw [hitems, ← hmore, List.take_append_drop]
      _ = (source.collect.rows.take capacity).map .ok ++ .ok r :: (more.map .ok ++ later) := by
          rw [List.map_append, List.map_cons, List.append_assoc, List.cons_append]

/-- Filling a buffer succeeds exactly if all items are rows and fit. Otherwise it stops at the first
failure or the first row too many. The rows held come out stably sorted. -/
theorem fill_to_capacity (o : SortOrder) (capacity : Nat) (source : Rows) :
    let filled := (empty o capacity).fill source
    let held := filled.buffer.rows
    (filled.failure = none ↔
      (∀ e, .error e ∉ source.drain.items) ∧ source.drain.items.length ≤ capacity) ∧
    (∃ left, source.drain.items = held.map .ok ++ left ∧
      Stops o capacity held.length left filled.failure) ∧
    filled.events = source.seen (held.length + 1) ∧
    held.length ≤ capacity ∧
    (∀ (b b' : SortBuffer) (r : Row), b.push r = .ok b' → b'.size ≤ b'.capacity) ∧
    filled.buffer.sorted.Perm held ∧
    ∀ schema, (∀ r ∈ held, r.schema = schema) →
      (filled.buffer.sorted.Pairwise fun a b => o.compare a b ≠ .gt) ∧
      ∀ r, r.schema = schema →
        filled.buffer.sorted.filter (o.compare · r == .eq) =
          held.filter (o.compare · r == .eq) := by
  intro filled held
  have hbuffer : filled.buffer = ⟨o, capacity, held⟩ := by
    simp only [held, filled, buffer_fill]
  have hcapacity : held.length ≤ capacity := by
    simp only [held, filled, buffer_fill]
    exact List.length_take_le _ _
  have hsorted : filled.buffer.sorted = o.sort held := by rw [hbuffer, sorted]
  obtain ⟨left, hitems, hstops⟩ := stops_fill o capacity source
  rw [hsorted]
  exact ⟨hstops.eq_none_iff hitems hcapacity, ⟨left, hitems, hstops⟩,
    events_fill o capacity source, hcapacity, fun _ _ _ => size_le_of_push, o.sort_perm held,
    fun _ => SortOrder.sort_stable_of_schema⟩

namespace Crowded

def sales : Schema := ⟨[⟨"id", .identifier, .integer⟩], by decide⟩

def sale (id : Int64) : Row := ⟨sales, [.ofInt64 id], rfl⟩

/-- Three sales and a failure behind them. -/
def source : Rows :=
  .traced "sales" [.ok (sale 2), .ok (sale 1), .ok (sale 3), .error (.unknown "id")]

/-- By the sales themselves, then by a column that they lack. -/
def byId : SortOrder := ⟨[⟨⟨"id", .identifier, .integer⟩, .ascending⟩,
  ⟨⟨"region", .attribute, .string⟩, .descending⟩]⟩

/-- Two sales fit, and the third one is pulled to see that it does not. -/
theorem third_sale_refused :
    let filled := (empty byId 2).fill source
    filled.failure = some (.unsupported (.buffer byId 2)) ∧
    filled.events = [.pulled "sales", .pulled "sales", .pulled "sales"] ∧
    (∀ r ∈ filled.buffer.rows, r.schema = sales) ∧
    filled.buffer.sorted = [sale 1, sale 2] ∧
    filled.buffer.sorted.Pairwise fun a b => byId.compare a b ≠ .gt := by
  have hspec := fill_to_capacity byId 2 source
  have hschema : ∀ r ∈ ((empty byId 2).fill source).buffer.rows, r.schema = sales := by
    simp [source, Rows.traced, Rows.prepend, empty, fill, push, size, sale]
  exact ⟨rfl, hspec.2.2.1, hschema, by rfl, (hspec.2.2.2.2.2.2 sales hschema).1⟩

end Crowded

end SortBuffer
end DatasetAlgebra
