import DatasetAlgebra.Proofs.Join.Reference

/-!
Merge joins of sequences that may fail, at any row and on either side. What such a join gives is a
beginning of what it would give of any sides that go on where its own fail, and then the first
failure that it comes to. Neither side is pulled behind its end, and none behind the failure.
-/
namespace DatasetAlgebra

namespace KeyReader

/-- What is read of a sequence up to its end or its first failure: its rows, each with its key. A
row whose key cannot be read is a failure. -/
inductive Takes (k : KeyReader) : Rows → List KeyedRow → Option Error → Prop
  | ended (e : Ending) : Takes k (.ended e) [] none
  | nothing (es : List Event) (rest : Unit → Rows) : Takes k (.poll ⟨es, none⟩ rest) [] none
  | failure (es : List Event) (e : Error) (rest : Unit → Rows) :
      Takes k (.poll ⟨es, some (.error e)⟩ rest) [] (some e)
  | unread (es : List Event) {r : Row} {e : Error} (rest : Unit → Rows) (h : k.read r = .error e) :
      Takes k (.poll ⟨es, some (.ok r)⟩ rest) [] (some e)
  | row (es : List Event) {r : Row} {key : List Value} {rest : Unit → Rows}
      {given : List KeyedRow} {failure : Option Error} (hkey : k.read r = .ok key)
      (h : Takes k (rest ()) given failure) :
      Takes k (.poll ⟨es, some (.ok r)⟩ rest) (⟨key, r⟩ :: given) failure

variable {k : KeyReader} {rows : Rows} {given : List KeyedRow} {failure : Option Error}

theorem Takes.feed (h : k.Takes rows given failure) :
    (k.feed rows).items = given ∧ (k.feed rows).failure = failure := by
  induction h with
  | ended | nothing | failure => exact ⟨rfl, rfl⟩
  | unread es rest h => simp [KeyReader.feed, h, Feed.failure]
  | row es hkey _ ih => simp [KeyReader.feed, hkey, ih, Feed.failure]

/-- Reading keys shows the pulls on the sequence, up to its end or its first failure. -/
theorem Takes.seen (h : k.Takes rows given failure) {n : Nat} (hn : n ≤ given.length + 1) :
    (k.feed rows).seen n = rows.seen n := by
  induction h generalizing n with
  | ended | nothing | failure =>
    obtain rfl | rfl : n = 0 ∨ n = 1 := by simp at hn; omega
    · simp
    · exact (List.append_nil _).symm
  | unread es rest h =>
    obtain rfl | rfl : n = 0 ∨ n = 1 := by simp at hn; omega
    · simp
    · simp [KeyReader.feed, h]
  | row es hkey _ ih =>
    cases n with
    | zero => simp
    | succ n => simpa [KeyReader.feed, hkey] using ih (by simpa using hn)

end KeyReader

/-- What the first pulls fail with on a sequence that gives some items ahead of its failure. -/
def failureWithin {α : Type} (given : List α) (failure : Option Error) (pulls : Nat) :
    Option Error :=
  if given.length < pulls then failure else none

namespace Matching

/-- Rows that a side might go on with where it fails, in the order of their keys. A side that does
not fail has nothing behind its rows. -/
structure Continues (m : Matching) (k : KeyReader) (given : List KeyedRow)
    (failure : Option Error) (whole : List KeyedRow) : Prop where
  presented : ∃ rows, m.Presents k rows whole
  begins : given <+: whole
  ends : failure = none → whole = given

variable {m : Matching} {k : KeyReader} {given whole : List KeyedRow} {failure : Option Error}

theorem Continues.feed {rows : Rows} (h : m.Continues k given failure whole)
    (ht : k.Takes rows given failure) : (k.feed rows).Continues whole := by
  obtain ⟨hitems, hfailure⟩ := ht.feed
  exact ⟨hitems ▸ h.begins, fun hnone => (h.ends (hfailure ▸ hnone)).trans hitems.symm⟩

/-- A merge join fails exactly if a side that it has pulled does, and is over then. Its rows begin
the join of any sides that go on where its own fail. -/
theorem rows_until_failure {m : Matching} {lk rk : KeyReader} {l r : Delayed Rows}
    {left right : List KeyedRow} {leftFailure rightFailure : Option Error}
    (hl : lk.Takes (l ()) left leftFailure) (hr : rk.Takes (r ()) right rightFailure) :
    ∃ rows failure,
      (m.rows lk rk l r).Answers (rows.map .ok ++ (failure.map .error).toList) ∧
      (∀ n, ∃ i ≤ left.length + 1, ∃ j ≤ right.length + 1,
        Interleaves ((l ()).seen i) ((r ()).seen j) ((m.rows lk rk l r).seen n) ∧
        failureWithin rows failure n =
          (failureWithin left leftFailure i).or (failureWithin right rightFailure j) ∧
        (failureWithin left leftFailure i = none ∨
          failureWithin right rightFailure j = none)) ∧
      (∀ n, (m.rows lk rk l r).seen (rows.length + 1 + n) =
        (m.rows lk rk l r).seen (rows.length + 1)) ∧
      ∀ left' right', m.Continues lk left leftFailure left' →
        m.Continues rk right rightFailure right' →
        ∃ keys, m.order.Enumerates keys
            (fun key => m.withKey key left' ≠ [] ∨ m.withKey key right' ≠ []) ∧
          let reference := keys.flatMap fun key =>
            m.block (m.withKey key left') (m.withKey key right')
          rows <+: reference ∧ (failure = none → rows = reference) := by
  obtain ⟨hli, hlf⟩ := hl.feed
  obtain ⟨hri, hrf⟩ := hr.feed
  let joined := m.join none (lk.feed (l ())) (rk.feed (r ()))
  refine ⟨joined.items.flatten, joined.failure, joined.answers_toRows, fun n => ?_,
    joined.seen_toRows_behind, fun left' right' hleft hright => ?_⟩
  · obtain ⟨k, hseen, hfailed⟩ := joined.seen_toRows n
    obtain ⟨i, hi, j, hj, hpulls, hsides, hone⟩ :=
      m.join_pulls none (lk.feed (l ())) (rk.feed (r ())) k
    rw [Feed.size, hli] at hi
    rw [Feed.size, hri] at hj
    have hfailures : (lk.feed (l ())).failed i = failureWithin left leftFailure i ∧
        (rk.feed (r ())).failed j = failureWithin right rightFailure j := by
      simp only [Feed.failed_eq, Feed.size, hli, hlf, hri, hrf, failureWithin, and_self]
    rw [hl.seen hi, hr.seen hj, ← hseen] at hpulls
    rw [hfailures.1, hfailures.2] at hsides hone
    exact ⟨i, hi, j, hj, hpulls, hfailed.symm.trans hsides, hone⟩
  · obtain ⟨lrows, hlp⟩ := hleft.presented
    obtain ⟨rrows, hrp⟩ := hright.presented
    obtain ⟨rest, hrows, hend⟩ :=
      m.join_leads _ _ (hleft.feed hl) (hright.feed hr) hlp.fit hrp.fit
    have hreference := map_row_classwise hlp.sorted hrp.sorted hlp.fit hrp.fit
    refine ⟨m.keys left' right', enumerates_keys hlp.sorted hrp.sorted hlp.fit hrp.fit, ?_, ?_⟩
    · exact ⟨rest, hrows.symm.trans hreference⟩
    · intro hnone
      rw [hend hnone, List.append_nil] at hrows
      exact hrows.symm.trans hreference

/-- A row of no columns, which has no key. -/
def blank : Row := .nulls .empty

/-- The left side fails behind two rows. A right row without key is come to while the rows of the
first common key are read, and so none of them is given. -/
theorem rows_until_failure_counts :
    let id : KeyReader := ⟨[("id", 0)]⟩
    let lost : Error := .unknown "lost"
    let l := Rows.traced "left" [.ok (Table.countRow 1 10), .ok (Table.countRow 2 20), .error lost]
    let r := Rows.traced "right" [.ok (Table.countRow 0 7), .ok (Table.countRow 1 5), .ok blank]
    let left := countRows [(1, 10), (2, 20), (4, 40)]
    let right := countRows [(0, 7), (1, 5), (1, 6)]
    ∃ (rows : List Row) (failure : Option Error) (keys : List (List Value)),
      (rightOnly.rows id id (fun _ => l) fun _ => r).Answers
        (rows.map .ok ++ (failure.map .error).toList) ∧
      rightOnly.order.Enumerates keys
        (fun key => rightOnly.withKey key left ≠ [] ∨ rightOnly.withKey key right ≠ []) ∧
      rows <+: keys.flatMap fun key =>
        rightOnly.block (rightOnly.withKey key left) (rightOnly.withKey key right) := by
  intro id lost l r left right
  have hl : id.Takes l (countRows [(1, 10), (2, 20)]) (some lost) :=
    .row _ rfl (.row _ rfl (.failure _ lost _))
  have hr : id.Takes r (countRows [(0, 7), (1, 5)]) (some (.breach (.key blank "id" 0))) :=
    .row _ rfl (.row _ rfl (.unread _ _ rfl))
  obtain ⟨rows, failure, hanswers, -, -, hreference⟩ :=
    rows_until_failure (m := rightOnly) (l := fun _ => l) (r := fun _ => r) hl hr
  obtain ⟨keys, hkeys, hbegins, -⟩ := hreference left right
    ⟨⟨_, presents_counts (by decide)⟩, by simp [left, countRows], fun h => by cases h⟩
    ⟨⟨_, presents_counts (by decide)⟩, by simp [right, countRows], fun h => by cases h⟩
  exact ⟨rows, failure, keys, hanswers, hkeys, hbegins⟩

end Matching
end DatasetAlgebra
