import DatasetAlgebra.Proofs.Stream.Given
import DatasetAlgebra.Proofs.Stream.Silence

/-!
Sequences pull by pull: what is left after some pulls, what each of them gives and what is seen of
them. A feed of batches shows no more pulls to its rows than it has items, and one for its end.
-/
namespace DatasetAlgebra

/-- A list merged of two others, each of which keeps its order. -/
inductive Interleaves {α : Type} : List α → List α → List α → Prop
  | nil : Interleaves [] [] []
  | left (a : α) {l r m : List α} (h : Interleaves l r m) : Interleaves (a :: l) r (a :: m)
  | right (b : α) {l r m : List α} (h : Interleaves l r m) : Interleaves l (b :: r) (b :: m)

namespace Interleaves

variable {α : Type} {l r m : List α}

theorem eq_nil (h : Interleaves [] [] m) : m = [] := by
  cases h
  rfl

theorem append_left (h : Interleaves l r m) (lead : List α) :
    Interleaves (lead ++ l) r (lead ++ m) := by
  induction lead with
  | nil => exact h
  | cons a lead ih => exact .left a ih

theorem append_right (h : Interleaves l r m) (lead : List α) :
    Interleaves l (lead ++ r) (lead ++ m) := by
  induction lead with
  | nil => exact h
  | cons b lead ih => exact .right b ih

end Interleaves

namespace Rows

/-- The sequence after some pulls. -/
def after (r : Rows) : Nat → Rows
  | 0 => r
  | n + 1 => (r.next.2 ()).after n

/-- What the pull behind the first `n` gives. -/
def item (r : Rows) (n : Nat) : Option (Except Error Row) := (r.after n).next.1.item

/-- What is seen of the first pulls. -/
def seen (r : Rows) : Nat → List Event
  | 0 => []
  | n + 1 => r.next.1.events ++ (r.next.2 ()).seen n

/-- Pulls give some items, one after the other, and nothing ever after. -/
def Answers (r : Rows) (items : List (Except Error Row)) : Prop := ∀ n, r.item n = items[n]?

@[simp] theorem seen_zero (r : Rows) : r.seen 0 = [] := rfl
@[simp] theorem seen_poll (p : Poll) (rest : Unit → Rows) (n : Nat) :
    (poll p rest).seen (n + 1) = p.events ++ (rest ()).seen n := rfl
@[simp] theorem item_poll_zero (p : Poll) (rest : Unit → Rows) : (poll p rest).item 0 = p.item := rfl
@[simp] theorem item_poll (p : Poll) (rest : Unit → Rows) (n : Nat) :
    (poll p rest).item (n + 1) = (rest ()).item n := rfl

@[simp] theorem item_ended (e : Ending) (n : Nat) : (ended e).item n = none := by
  induction n generalizing e with
  | zero => rfl
  | succ n ih => exact ih e.next

theorem Silent.seen {r : Rows} (h : r.Silent) (n : Nat) : r.seen n = [] := by
  induction n generalizing r with
  | zero => rfl
  | succ n ih => rw [Rows.seen, h.next.1, ih h.next.2, List.nil_append]

@[simp] theorem seen_last (p : Poll) (n : Nat) : (last p).seen (n + 1) = p.events := by
  have hsilent : empty.Silent := rfl
  rw [last, seen_poll, hsilent.seen, List.append_nil]

theorem seen_prepend (rows : List Row) (rest : Delayed Rows) (n : Nat) :
    (prepend (rows.map fun r => ⟨[], some (.ok r)⟩) rest).seen n =
      (rest ()).seen (n - rows.length) := by
  induction rows generalizing n with
  | nil => rfl
  | cons r rows ih =>
    cases n with
    | zero => simp
    | succ n => simpa [prepend] using ih n

variable {r : Rows} {rows : List Row}

theorem Answers.poll {es : List Event} {i : Except Error Row} {rest : Unit → Rows}
    {items : List (Except Error Row)} (h : (rest ()).Answers items) :
    (poll ⟨es, some i⟩ rest).Answers (i :: items) := by
  rintro (_ | n)
  · rfl
  · simpa using h n

theorem answers_ofItems (items : List (Except Error Row)) : (ofItems items).Answers items := by
  induction items with
  | nil => exact item_ended .silent
  | cons i items ih => exact ih.poll

theorem Gives.answers (h : r.Gives rows) : r.Answers (rows.map .ok) := by
  induction h with
  | ended e => simp [Answers]
  | nothing es h ih =>
    rintro (_ | n)
    · rfl
    · simpa using ih n
  | row es r h ih =>
    rintro (_ | n)
    · rfl
    · simpa using ih n

theorem Rests.answers (h : r.Rests) : r.Answers r.drain.items := by
  induction r with
  | ended e => simp [Answers, drain]
  | poll p rest ih =>
    obtain ⟨es, item⟩ := p
    rintro (_ | n)
    · cases item <;> rfl
    · cases item with
      | none => simpa [drain] using Gives.answers h n
      | some i => simpa [drain] using ih () h n

theorem gives_of_answers (h : r.Answers (rows.map .ok)) : r.Gives rows := by
  induction r generalizing rows with
  | ended e =>
    have hhead := h 0
    cases rows with
    | nil => exact .ended e
    | cons row rows => cases hhead
  | poll p rest ih =>
    obtain ⟨es, item⟩ := p
    have hhead : item = (rows.map Except.ok)[0]? := h 0
    subst hhead
    cases rows with
    | nil => exact .nothing es (ih () fun n => h (n + 1))
    | cons row rows => exact .row es row (ih () fun n => h (n + 1))

/-- A sequence that gives some rows and then goes on as another. -/
inductive LeadsTo : Rows → Rows → List Row → Prop
  | here (last : Rows) : LeadsTo last last []
  | row (es : List Event) (r : Row) {rest : Unit → Rows} {last : Rows} {rows : List Row}
      (h : LeadsTo (rest ()) last rows) :
      LeadsTo (.poll ⟨es, some (.ok r)⟩ rest) last (r :: rows)

theorem LeadsTo.answers {last : Rows} {items : List (Except Error Row)} (h : r.LeadsTo last rows)
    (hlast : last.Answers items) : r.Answers (rows.map .ok ++ items) := by
  induction h with
  | here => exact hlast
  | row es r _ ih => exact .poll (ih hlast)

theorem LeadsTo.append {r last final : Rows} {rows more : List Row} (h : r.LeadsTo last rows)
    (hlast : last.LeadsTo final more) : r.LeadsTo final (rows ++ more) := by
  induction h with
  | here => exact hlast
  | row es r _ ih => exact .row es r (ih hlast)

theorem exists_leadsTo {items : List (Except Error Row)} (h : r.Answers (rows.map .ok ++ items)) :
    ∃ last, r.LeadsTo last rows ∧ last.Answers items := by
  induction rows generalizing r with
  | nil => exact ⟨r, .here r, h⟩
  | cons row rows ih =>
    cases r with
    | ended e => cases h 0
    | poll p rest =>
      obtain ⟨es, item⟩ := p
      have hhead : item = some (.ok row) := h 0
      subst hhead
      obtain ⟨last, hleads, hlast⟩ := ih fun n => h (n + 1)
      exact ⟨last, .row es row hleads, hlast⟩

end Rows

namespace Feed

variable {α : Type}

/-- What is seen of the first pulls. Behind its end a feed is not pulled. -/
def seen : Feed α → Nat → List Event
  | _, 0 => []
  | .item es _ rest, n + 1 => es ++ (rest ()).seen n
  | .stop es _, _ + 1 => es

/-- What the first pulls fail with. -/
def failed : Feed α → Nat → Option Error
  | _, 0 => none
  | .item _ _ rest, n + 1 => (rest ()).failed n
  | .stop _ failure, _ + 1 => failure

@[simp] theorem seen_zero (f : Feed α) : f.seen 0 = [] := by cases f <;> rfl
@[simp] theorem seen_item (es : List Event) (a : α) (rest : Unit → Feed α) (n : Nat) :
    (item es a rest).seen (n + 1) = es ++ (rest ()).seen n := rfl
@[simp] theorem seen_stop (es : List Event) (e : Option Error) (n : Nat) :
    (stop es e : Feed α).seen (n + 1) = es := rfl
@[simp] theorem failed_zero (f : Feed α) : f.failed 0 = none := by cases f <;> rfl
@[simp] theorem failed_item (es : List Event) (a : α) (rest : Unit → Feed α) (n : Nat) :
    (item es a rest).failed (n + 1) = (rest ()).failed n := rfl
@[simp] theorem failed_stop (es : List Event) (e : Option Error) (n : Nat) :
    (stop es e : Feed α).failed (n + 1) = e := rfl

theorem silent_iff_seen {f : Feed α} : f.Silent ↔ ∀ n, f.seen n = [] := by
  induction f with
  | item es a rest ih =>
    rw [silent_item, ih]
    constructor
    · rintro ⟨rfl, hrest⟩ (_ | n)
      · rfl
      · exact hrest n
    · intro h
      have hes : es = [] := by simpa using h 1
      exact ⟨hes, fun n => by simpa [hes] using h (n + 1)⟩
  | stop es e =>
    refine ⟨fun h n => ?_, fun h => h 1⟩
    cases n with
    | zero => rfl
    | succ n => exact h

theorem failed_eq (f : Feed α) (n : Nat) : f.failed n = if f.size < n then f.failure else none := by
  induction f generalizing n with
  | item es a rest ih =>
    cases n with
    | zero => simp
    | succ n => simp [ih, failure]
  | stop es e => cases n <;> simp [failure]

/-- Pulls on the rows of a feed of batches: each row of a batch is there once its batch is pulled,
and the end once the feed has been pulled to its end. -/
theorem seen_rowsAfter (es : List Event) (f : Feed (List Row)) (n : Nat) :
    ∃ k, (f.rowsAfter es).seen (n + 1) = es ++ f.seen k ∧
      if n < f.items.flatten.length then k ≤ f.size else k = f.size + 1 := by
  induction f generalizing es n with
  | stop fs failure =>
    refine ⟨1, ?_, rfl⟩
    cases failure <;> exact Rows.seen_last _ n
  | item fs batch rest ih =>
    cases batch with
    | nil =>
      obtain ⟨k, hseen, hk⟩ := ih () (es ++ fs) n
      refine ⟨k + 1, by rw [rowsAfter, hseen, seen_item, List.append_assoc], ?_⟩
      simpa using hk
    | cons r rows =>
      simp only [rowsAfter, Rows.seen_poll, Rows.seen_prepend, List.append_assoc]
      by_cases hn : n ≤ rows.length
      · refine ⟨1, by simp [Nat.sub_eq_zero_of_le hn], ?_⟩
        rw [if_pos (by simp; omega)]
        simp
      · obtain ⟨j, hj⟩ := Nat.exists_eq_add_of_lt (Nat.lt_of_not_le hn)
        obtain ⟨k, hseen, hk⟩ := ih () [] j
        have hrest : n - rows.length = j + 1 := by omega
        refine ⟨k + 1, by rw [hrest, hseen, seen_item, List.nil_append], ?_⟩
        have hiff : n < ((r :: rows) :: (rest ()).items).flatten.length ↔
            j < (rest ()).items.flatten.length := by
          simp only [List.flatten_cons, List.length_append, List.length_cons]
          omega
        rw [items_item, if_congr hiff rfl rfl, size_item, Nat.add_le_add_iff_right,
          Nat.add_right_cancel_iff]
        exact hk

theorem answers_toRows (f : Feed (List Row)) :
    f.toRows.Answers (f.items.flatten.map .ok ++ (f.failure.map .error).toList) := by
  have h := (rests_rowsAfter [] f).answers
  rwa [items_drain_rowsAfter] at h

/-- However many of its rows are pulled, a feed of batches has been pulled so far, and it has failed
if its rows are behind. -/
theorem seen_toRows (f : Feed (List Row)) (n : Nat) :
    ∃ k, f.toRows.seen n = f.seen k ∧
      f.failed k = if f.items.flatten.length < n then f.failure else none := by
  cases n with
  | zero => exact ⟨0, by simp, by simp⟩
  | succ n =>
    obtain ⟨k, hseen, hk⟩ := f.seen_rowsAfter [] n
    refine ⟨k, hseen, ?_⟩
    rw [failed_eq]
    split at hk <;> rename_i hn
    · rw [if_neg (by omega), if_neg (by omega)]
    · rw [if_pos (by omega), if_pos (by omega)]

theorem seen_toRows_behind (f : Feed (List Row)) (n : Nat) :
    f.toRows.seen (f.items.flatten.length + 1 + n) =
      f.toRows.seen (f.items.flatten.length + 1) := by
  obtain ⟨k, hseen, hk⟩ := f.seen_rowsAfter [] (f.items.flatten.length + n)
  obtain ⟨j, hend, hj⟩ := f.seen_rowsAfter [] f.items.flatten.length
  rw [if_neg (by omega)] at hk hj
  rw [Nat.add_right_comm, toRows, hseen, hend, hk, hj]

end Feed
end DatasetAlgebra
