import DatasetAlgebra.Join.MergeJoin
import DatasetAlgebra.Proofs.Stream.Pulls

/-!
The pulls that a merge join makes. What it shows is an interleaving of what is seen of the pulls on
its sides, each of which is pulled up to its first end or failure at most. A pull that fails ends
the join, and the join fails with nothing else.
-/
namespace DatasetAlgebra

namespace Feed

variable {α : Type}

theorem failed_one {f : Feed α} (h : ∀ es e, f = .stop es (some e) → False) : f.failed 1 = none := by
  match f with
  | .item es a rest => simp
  | .stop es none => rfl
  | .stop es (some e) => exact (h es e rfl).elim

theorem seen_peeked (f : Feed α) (n : Nat) :
    f.seen (max n 1) = f.firstEvents ++ f.peeked.seen n := by
  cases f <;> cases n <;> simp [firstEvents, peeked]

theorem failed_peeked {f : Feed α} (h : f.failed 1 = none) (n : Nat) :
    f.failed (max n 1) = f.peeked.failed n := by
  cases f <;> cases n <;> simp_all [peeked]

theorem pulls_split (p : α → Bool) (f : Feed α) (n : Nat) :
    ∃ k, (n ≤ (f.split p).beyond.size + 1 → k ≤ f.size + 1) ∧
      f.seen k = (f.split p).events ++ (f.split p).beyond.seen n ∧
      f.failed k = (f.split p).beyond.failed n := by
  induction f with
  | stop es e => exact ⟨n, id, rfl, rfl⟩
  | item es a rest ih =>
    by_cases h : p a
    · obtain ⟨k, hk, hseen, hfailed⟩ := ih ()
      refine ⟨k + 1, fun hn => ?_, ?_, ?_⟩
      · simp only [split, h] at hn
        simpa using hk hn
      · simp [split, h, hseen]
      · simp [split, h, hfailed]
    · exact ⟨n, by simp [split, h], by simp [split, h], by simp [split, h]⟩

end Feed

namespace Matching

/-- What is seen of pulls on two feeds, and what they fail with: at most one of them fails. -/
def Pulls (left right : Feed KeyedRow) (events : List Event) (failure : Option Error) : Prop :=
  ∃ i ≤ left.size + 1, ∃ j ≤ right.size + 1,
    Interleaves (left.seen i) (right.seen j) events ∧
    failure = (left.failed i).or (right.failed j) ∧
    (left.failed i = none ∨ right.failed j = none)

namespace Pulls

variable {left right : Feed KeyedRow} {es : List Event} {e : Option Error} {events : List Event}
  {failure : Option Error}

theorem nil (left right : Feed KeyedRow) : Pulls left right [] none :=
  ⟨0, Nat.zero_le _, 0, Nat.zero_le _, by simpa using .nil, by simp, by simp⟩

theorem stop (left : Feed KeyedRow) (es : List Event) (e : Option Error) :
    Pulls left (.stop es e) es e := by
  refine ⟨0, Nat.zero_le _, 1, Nat.le_add_left 1 _, ?_, by simp, by simp⟩
  simpa using Interleaves.nil.append_right es

theorem item_left {rest : Unit → Feed KeyedRow} (a : KeyedRow) (es : List Event)
    (h : Pulls (rest ()) right events failure) :
    Pulls (.item es a rest) right (es ++ events) failure := by
  obtain ⟨i, hi, j, hj, hseen, hfailure, hone⟩ := h
  exact ⟨i + 1, by simpa using hi, j, hj, hseen.append_left es, hfailure, hone⟩

theorem item_right {rest : Unit → Feed KeyedRow} (b : KeyedRow) (es : List Event)
    (h : Pulls left (rest ()) events failure) :
    Pulls left (.item es b rest) (es ++ events) failure := by
  obtain ⟨i, hi, j, hj, hseen, hfailure, hone⟩ := h
  exact ⟨i, hi, j + 1, by simpa using hj, hseen.append_right es, hfailure, hone⟩

theorem peeked_left (hleft : left.failed 1 = none)
    (h : Pulls left.peeked right events failure) :
    Pulls left right (left.firstEvents ++ events) failure := by
  obtain ⟨i, hi, j, hj, hseen, hfailure, hone⟩ := h
  rw [Feed.size_peeked] at hi
  refine ⟨max i 1, by omega, j, hj, ?_, ?_, ?_⟩
  · rw [Feed.seen_peeked]
    exact hseen.append_left _
  · rwa [Feed.failed_peeked hleft]
  · rwa [Feed.failed_peeked hleft]

theorem peeked_right (hright : right.failed 1 = none)
    (h : Pulls left right.peeked events failure) :
    Pulls left right (right.firstEvents ++ events) failure := by
  obtain ⟨i, hi, j, hj, hseen, hfailure, hone⟩ := h
  rw [Feed.size_peeked] at hj
  refine ⟨i, hi, max j 1, by omega, ?_, ?_, ?_⟩
  · rw [Feed.seen_peeked]
    exact hseen.append_right _
  · rwa [Feed.failed_peeked hright]
  · rwa [Feed.failed_peeked hright]

theorem split_right (p : KeyedRow → Bool) (h : Pulls left (right.split p).beyond events failure) :
    Pulls left right ((right.split p).events ++ events) failure := by
  obtain ⟨i, hi, j, hj, hseen, hfailure, hone⟩ := h
  obtain ⟨k, hk, hright, hfailed⟩ := right.pulls_split p j
  rw [← hfailed] at hfailure hone
  exact ⟨i, hi, k, hk hj, hright ▸ hseen.append_right _, hfailure, hone⟩

end Pulls

theorem Pulls.of_item {left right : Feed KeyedRow} {es : List Event} {batch : List Row}
    {rest : Unit → Feed (List Row)}
    (h : ∀ n, Pulls left right (es ++ (rest ()).seen n) ((rest ()).failed n)) (n : Nat) :
    Pulls left right ((Feed.item es batch rest).seen n) ((Feed.item es batch rest).failed n) := by
  cases n with
  | zero => simpa using Pulls.nil left right
  | succ n => exact h n

theorem Pulls.of_stop {left right : Feed KeyedRow} {es : List Event} {e : Option Error}
    (h : Pulls left right es e) (n : Nat) :
    Pulls left right ((Feed.stop es e : Feed (List Row)).seen n)
      ((Feed.stop es e : Feed (List Row)).failed n) := by
  cases n with
  | zero => simpa using Pulls.nil left right
  | succ n => exact h

/-- However far a join is pulled, what it shows is seen of pulls on its sides, and it has failed
exactly if one of these has. -/
theorem join_pulls (m : Matching) (run : Option Run) (left right : Feed KeyedRow) :
    ∀ n, Pulls left right ((m.join run left right).seen n) ((m.join run left right).failed n) := by
  fun_induction join m run left right with
  | case1 run es e right =>
    refine Pulls.of_stop ⟨1, by simp, 0, by simp, ?_, by simp, by simp⟩
    simpa using Interleaves.nil.append_left es
  | case2 run es fs failure => exact Pulls.of_stop (.peeked_left rfl (.stop _ fs failure))
  | case3 run es fs b right hkeeps ih =>
    refine Pulls.of_item fun n => ?_
    rw [List.append_assoc]
    exact .peeked_left rfl (.item_right b fs (ih n))
  | case4 run es fs b right hkeeps =>
    have hfirst := Pulls.item_right b fs (.nil (.stop [] none) (right ()))
    rw [List.append_nil] at hfirst
    exact Pulls.of_stop (.peeked_left rfl hfirst)
  | case5 run es a left right r hheld ih => exact Pulls.of_item fun n => .item_left a es (ih n)
  | case6 run es a left hfree fs e =>
    exact Pulls.of_stop (.item_left a es (.stop (left ()) fs (some e)))
  | case7 run es a left hfree fs hkeeps ih =>
    refine Pulls.of_item fun n => ?_
    rw [List.append_assoc]
    exact .item_left a es (.peeked_right rfl (ih n))
  | case8 run es a left hfree fs hkeeps =>
    exact Pulls.of_stop (.item_left a es (.stop (left ()) fs none))
  | case9 run es a left hfree fs b right hlt ih =>
    have hright : (Feed.item fs b right).failed 1 = none := by simp
    refine Pulls.of_item fun n => ?_
    rw [List.append_assoc]
    exact .item_left a es (.peeked_right hright (ih n))
  | case10 run es a left hfree fs b right hgt ih =>
    have hleft : (Feed.item es a left).failed 1 = none := by simp
    refine Pulls.of_item fun n => ?_
    rw [List.append_assoc]
    exact .peeked_left hleft (.item_right b fs (ih n))
  | case11 run es a left hfree fs b right heq s seen gs e hs =>
    -- the run is read before any of its rows are given, so its failure comes in their place
    have hbeyond : Pulls (left ()) s.beyond s.beyond.firstEvents (some e) := by
      rw [hs]
      exact .stop (left ()) gs (some e)
    have hsides := Pulls.item_left a es (.item_right b fs (.split_right _ hbeyond))
    simp only [← List.append_assoc] at hsides
    exact Pulls.of_stop hsides
  | case12 run es a left hfree fs b right heq s seen held hgoes ih =>
    have hbeyond : s.beyond.failed 1 = none := Feed.failed_one hgoes
    refine Pulls.of_item fun n => ?_
    have hsides := Pulls.item_left a es (.item_right b fs
      (.split_right _ (.peeked_right hbeyond (ih n))))
    simp only [← List.append_assoc] at hsides
    exact hsides

theorem failure_of_join {m : Matching} {run : Option Run} {left right : Feed KeyedRow} {e : Error}
    (h : (m.join run left right).failure = some e) :
    left.failure = some e ∨ right.failure = some e := by
  obtain ⟨i, -, j, -, -, hfailure, -⟩ :=
    m.join_pulls run left right ((m.join run left right).size + 1)
  simp only [Feed.failed_eq, Nat.lt_add_one, if_true, h] at hfailure
  rcases Option.or_eq_some_iff.mp hfailure.symm with hleft | ⟨-, hright⟩
  · exact .inl (Option.ite_none_right_eq_some.mp hleft).2
  · exact .inr (Option.ite_none_right_eq_some.mp hright).2

end Matching
end DatasetAlgebra
