import DatasetAlgebra.Proofs.Stream.Calls
import DatasetAlgebra.Proofs.Stream.Composition
import DatasetAlgebra.Proofs.Stream.Pulls
import Mathlib.Data.List.Induction
import Mathlib.Data.List.TakeWhile

/-!
The life of a stream over any run of calls: hooks are added, rows are pulled and the stream is
closed, in any order and as often as wanted, and it is dropped in the end. While it is open a pull
gives what its sequence gives; the first end of the sequence closes it, and what fails then comes as
one last item. A stream that was closed never pulls again, whatever its sequence would give behind
the end; hooks that are added to it are made by the next closing, or by the drop.
-/
namespace DatasetAlgebra

namespace Rows

theorem after_add_one (r : Rows) (n : Nat) : r.after (n + 1) = (r.after n).next.2 () := by
  induction n generalizing r with
  | zero => rfl
  | succ n ih => exact ih (r.next.2 ())

theorem seen_add_one (r : Rows) (n : Nat) :
    r.seen (n + 1) = r.seen n ++ (r.after n).next.1.events := by
  induction n generalizing r with
  | zero => simp [seen, after]
  | succ n ih => rw [seen, ih, seen, List.append_assoc, after]

/-- How many items a sequence gives before its first end. -/
def length (r : Rows) : Nat := r.drain.items.length

theorem item_eq_getElem?_drain (r : Rows) {n : Nat} (h : n ≤ r.length) :
    r.item n = r.drain.items[n]? := by
  induction r generalizing n with
  | ended e => simp [drain]
  | poll p rest ih =>
    obtain ⟨es, item⟩ := p
    cases item with
    | none =>
      obtain rfl : n = 0 := by simpa [length, drain] using h
      rfl
    | some i =>
      cases n with
      | zero => rfl
      | succ n => simpa [drain] using ih () (by simpa [length, drain] using h)

end Rows

namespace RowStream

inductive Call where
  | onClose (hook : Release)
  | next
  | close

namespace Call

def hook? : Call → Option Release
  | .onClose hook => some hook
  | .next | .close => none

def isNext : Call → Bool
  | .next => true
  | .onClose _ | .close => false

def isClose : Call → Bool
  | .close => true
  | .onClose _ | .next => false

end Call

inductive Reply where
  | added
  | pulled (p : Poll)
  | closed (made : Release)

namespace Reply

def events : Reply → List Event
  | .added => []
  | .pulled p => p.events
  | .closed made => made.events

/-- What is delivered. -/
def item? : Reply → Option (Except Error Row)
  | .pulled p => p.item
  | .added | .closed _ => none

end Reply

def call (s : RowStream) : Call → Reply × RowStream
  | .onClose hook => (.added, s.onClose hook)
  | .next => (.pulled s.next.1, s.next.2)
  | .close => (.closed s.close.1, s.close.2)

/-! What calls come to on a stream whose sequence gives `n` items before its first end. -/
section

variable (n : Nat)

/-- How often the sequence is pulled: once for each item, once for its end, and not behind a
closing. -/
def polls (past : List Call) : Nat :=
  min ((past.takeWhile fun c => !c.isClose).countP Call.isNext) (n + 1)

/-- Whether the stream is open still: it was not closed, and the end was not met. -/
def isOpen (past : List Call) : Bool := !past.any Call.isClose && polls n past ≤ n

/-- The pull that meets the end releases, as closing does. -/
def meetsEnd (past : List Call) (c : Call) : Bool :=
  c.isNext && isOpen n past && polls n past == n

/-- The releases are the closings and the pull that meets the end. -/
def custody : Custody Call where
  hook? := Call.hook?
  releases past c := c.isClose || meetsEnd n past c
  apart past c h := by
    cases c with
    | onClose => simp [Call.isClose, meetsEnd, Call.isNext] at h
    | next => rfl
    | close => rfl

variable {n : Nat} {past : List Call}

theorem polls_concat (past : List Call) (c : Call) :
    polls n (past ++ [c]) =
      if isOpen n past && c.isNext then polls n past + 1 else polls n past := by
  unfold isOpen
  cases hclosed : past.any Call.isClose with
  | true =>
    have hstops : ((past ++ [c]).takeWhile fun c => !c.isClose) =
        past.takeWhile fun c => !c.isClose := by
      refine (List.takeWhile_append ..).trans (if_neg fun hlength => ?_)
      have hself := (List.takeWhile_sublist _).eq_of_length hlength
      obtain ⟨x, hx, hclose⟩ := List.any_eq_true.mp hclosed
      simpa [hclose] using List.takeWhile_eq_self_iff.mp hself x hx
    simp [polls, hstops]
  | false =>
    have hgoes : ∀ c ∈ past, !c.isClose := by simpa using hclosed
    rw [polls, polls, List.takeWhile_append_of_pos hgoes, List.takeWhile_eq_self_iff.mpr hgoes,
      List.countP_append]
    cases c with
    | onClose => simp [Call.isNext, Call.isClose]
    | close => simp [Call.isNext, Call.isClose]
    | next =>
      have hone : ([Call.next].takeWhile fun c => !c.isClose).countP Call.isNext = 1 := rfl
      simp only [hone, Call.isNext, Bool.not_false, Bool.true_and, Bool.and_true,
        decide_eq_true_eq]
      split <;> omega

theorem isOpen_concat (past : List Call) (c : Call) :
    isOpen n (past ++ [c]) = (isOpen n past && !(custody n).releases past c) := by
  cases hopen : isOpen n past with
  | false =>
    have hpolls : polls n (past ++ [c]) = polls n past := by rw [polls_concat, hopen]; rfl
    unfold isOpen at hopen ⊢
    rw [hpolls, List.any_append, Bool.not_or, Bool.and_right_comm, hopen]
    rfl
  | true =>
    have hpolls := polls_concat (n := n) past c
    simp only [hopen, Bool.true_and] at hpolls
    obtain ⟨hclosed, hle⟩ : past.any Call.isClose = false ∧ polls n past ≤ n := by
      simpa [isOpen] using hopen
    rw [isOpen, hpolls, List.any_append, hclosed]
    cases c with
    | onClose => simpa [custody, meetsEnd, Call.isClose, Call.isNext] using hle
    | close => rfl
    | next =>
      have hstep : decide (polls n past + 1 ≤ n) = !(polls n past == n) := by
        rw [Bool.eq_iff_iff]
        simp
        omega
      simpa [custody, meetsEnd, hopen, Call.isClose, Call.isNext] using hstep

theorem polls_le_of_open (h : isOpen n past) : polls n past ≤ n := by
  rw [isOpen, Bool.and_eq_true, decide_eq_true_eq] at h
  exact h.2

theorem isOpen_of_append {more : List Call} (h : isOpen n (past ++ more)) : isOpen n past := by
  induction more using List.reverseRecOn with
  | nil => simpa using h
  | append_singleton more c ih =>
    rw [← List.append_assoc, isOpen_concat, Bool.and_eq_true] at h
    exact ih h.1

end

/-- How a call is answered behind others. While the stream is open the sequence is pulled, and the
pull that meets its end makes the hooks that are due. Else nothing is pulled. -/
def Call.answer (r : Rows) (past : List Call) : Call → Reply
  | .onClose _ => .added
  | .close => .closed (.chain ((custody r.length).due past))
  | .next =>
    if isOpen r.length past then
      let seen := (r.after (polls r.length past)).next.1.events
      match r.drain.items[polls r.length past]? with
      | some i => .pulled ⟨seen, some i⟩
      | none =>
        let made := Release.chain ((custody r.length).due past)
        .pulled ⟨seen ++ made.events, made.failure.map .error⟩
    else .pulled ⟨[], none⟩

/-- A stream of some sequence behind some calls. -/
structure Behind (r : Rows) (past : List Call) (s : RowStream) : Prop where
  finished : s.finished = !isOpen r.length past
  rows_of_open : isOpen r.length past → s.rows () = r.after (polls r.length past)
  rows_of_closed : isOpen r.length past = false → s.rows = fun _ => .empty
  pending : s.pending = .chain ((custody r.length).due past)
  idle : (custody r.length).due past = [] → s.release = none

variable {r : Rows} {past : List Call} {s : RowStream}

theorem behind_nil (schema : Schema) (rows : Delayed Rows) :
    Behind (rows ()) [] (ofRows schema rows) where
  finished := by simp [isOpen, polls, ofRows]
  rows_of_open _ := rfl
  rows_of_closed h := by simp [isOpen, polls] at h
  pending := rfl
  idle _ := rfl

theorem behind_closed {c : Call} (h : (custody r.length).releases past c) (s : RowStream) :
    Behind r (past ++ [c]) s.closed := by
  have hopen : isOpen r.length (past ++ [c]) = false := by rw [isOpen_concat, h]; simp
  have hdue : (custody r.length).due (past ++ [c]) = [] := by rw [Custody.due_concat, if_pos h]
  refine ⟨?_, fun ho => ?_, fun _ => rfl, ?_, fun _ => rfl⟩
  · rw [hopen]
    rfl
  · rw [hopen] at ho
    cases ho
  · rw [hdue]
    rfl

theorem Behind.onClose (h : Behind r past s) (hook : Release) :
    Behind r (past ++ [.onClose hook]) (s.onClose hook) := by
  have hreleases : (custody r.length).releases past (.onClose hook) = false := rfl
  have hopen : isOpen r.length (past ++ [.onClose hook]) = isOpen r.length past := by
    rw [isOpen_concat, hreleases, Bool.not_false, Bool.and_true]
  have hpolls : polls r.length (past ++ [.onClose hook]) = polls r.length past := by
    simp [polls_concat, Call.isNext]
  have hdue : (custody r.length).due (past ++ [.onClose hook]) =
      hook :: (custody r.length).due past := by
    rw [Custody.due_concat, hreleases]
    rfl
  refine ⟨?_, ?_, ?_, ?_, fun hidle => ?_⟩
  · rw [hopen]
    exact h.finished
  · rw [hopen, hpolls]
    exact h.rows_of_open
  · rw [hopen]
    exact h.rows_of_closed
  · rw [hdue, pending_onClose, h.pending]
    rfl
  · rw [hdue] at hidle
    cases hidle

theorem Behind.pulled (h : Behind r past s) (hend : meetsEnd r.length past .next = false)
    {rest : Delayed Rows}
    (hplace : isOpen r.length past → rest () = r.after (polls r.length past + 1))
    (hclosed : isOpen r.length past = false → rest = s.rows) :
    Behind r (past ++ [.next]) { s with rows := rest } := by
  have hreleases : (custody r.length).releases past .next = false := hend
  have hopen : isOpen r.length (past ++ [.next]) = isOpen r.length past := by
    rw [isOpen_concat, hreleases, Bool.not_false, Bool.and_true]
  have hdue : (custody r.length).due (past ++ [.next]) = (custody r.length).due past := by
    rw [Custody.due_concat, hreleases]
    rfl
  refine ⟨?_, fun ho => ?_, fun ho => ?_, ?_, ?_⟩
  · rw [hopen]
    exact h.finished
  · rw [hopen] at ho
    rw [polls_concat, ho]
    exact hplace ho
  · rw [hopen] at ho
    exact (hclosed ho).trans (h.rows_of_closed ho)
  · rw [hdue]
    exact h.pending
  · rw [hdue]
    exact h.idle

theorem meetsEnd_eq (ho : isOpen r.length past) :
    meetsEnd r.length past .next = r.drain.items[polls r.length past]?.isNone := by
  have hle := polls_le_of_open ho
  have hlength : r.drain.items.length = r.length := rfl
  rw [meetsEnd, ho, Bool.eq_iff_iff]
  simp only [Call.isNext, Bool.true_and, beq_iff_eq, Option.isNone_iff_eq_none,
    List.getElem?_eq_none_iff, hlength]
  omega

theorem Behind.next (h : Behind r past s) :
    Reply.pulled s.next.1 = Call.next.answer r past ∧ Behind r (past ++ [.next]) s.next.2 := by
  cases ho : isOpen r.length past with
  | false =>
    have hend : meetsEnd r.length past .next = false := by simp [meetsEnd, ho]
    rw [next_of_finished (by rw [h.finished, ho]; rfl)]
    refine ⟨by simp [Call.answer, ho], h.pulled hend (fun hopen => ?_) fun _ => rfl⟩
    rw [ho] at hopen
    cases hopen
  | true =>
    have hs : s.finished = false := by rw [h.finished, ho]; rfl
    have hend := meetsEnd_eq ho
    have hrows := h.rows_of_open ho
    have hitem : (s.rows ()).next.1.item = r.drain.items[polls r.length past]? := by
      rw [hrows]
      exact r.item_eq_getElem?_drain (polls_le_of_open ho)
    cases hi : r.drain.items[polls r.length past]? with
    | some i =>
      rw [hi] at hend hitem
      rw [next_of_item hs hitem]
      refine ⟨by simp [Call.answer, ho, hi, hrows], h.pulled hend (fun _ => ?_) fun hclosed => ?_⟩
      · rw [hrows, Rows.after_add_one]
      · rw [ho] at hclosed
        cases hclosed
    | none =>
      rw [hi] at hend hitem
      have hreleases : (custody r.length).releases past .next = true := hend
      rw [next_of_end hs hitem]
      exact ⟨by simp [Call.answer, ho, hi, hrows, h.pending], behind_closed hreleases s⟩

theorem Behind.call (h : Behind r past s) (c : Call) :
    (s.call c).1 = c.answer r past ∧ Behind r (past ++ [c]) (s.call c).2 := by
  cases c with
  | onClose hook => exact ⟨rfl, h.onClose hook⟩
  | next => exact h.next
  | close => exact ⟨congrArg Reply.closed h.pending, behind_closed rfl s⟩

theorem behind_callAll (schema : Schema) (rows : Delayed Rows) (calls : List Call) :
    Behind (rows ()) calls (callAll RowStream.call (ofRows schema rows) calls).2 := by
  induction calls using List.reverseRecOn with
  | nil => exact behind_nil schema rows
  | append_singleton calls c ih =>
    rw [callAll_concat]
    exact (ih.call c).2

theorem answer_callAll (schema : Schema) (rows : Delayed Rows) (calls : List Call)
    (i : Fin calls.length) :
    (callAll RowStream.call (ofRows schema rows) calls).1[i.val]? =
      some (calls[i].answer (rows ()) (calls.take i)) := by
  rw [getElem?_callAll _ _ _ i.val i.isLt, (behind_callAll schema rows (calls.take i)).call _ |>.1]
  rfl

/-! What the answers come to. -/

/-- What is seen of the sequence at a call. -/
def pullEvents (r : Rows) (past : List Call) (c : Call) : List Event :=
  if isOpen r.length past && c.isNext then (r.after (polls r.length past)).next.1.events else []

theorem seen_polls_concat (r : Rows) (past : List Call) (c : Call) :
    r.seen (polls r.length (past ++ [c])) =
      r.seen (polls r.length past) ++ pullEvents r past c := by
  rw [polls_concat, pullEvents]
  split
  · exact r.seen_add_one _
  · exact (List.append_nil _).symm

/-- What is seen of a call: of the sequence, if it is pulled, and of the hooks that are made. -/
theorem events_answer (r : Rows) (past : List Call) (c : Call) :
    (c.answer r past).events =
      pullEvents r past c ++ ((custody r.length).made past c).flatMap Release.events := by
  cases c with
  | onClose => simp [Call.answer, Reply.events, pullEvents, Custody.made, custody, Call.isNext,
      Call.isClose, meetsEnd]
  | close =>
    simp [Call.answer, Reply.events, Release.events_chain, pullEvents, Custody.made, custody,
      Call.isClose, Call.isNext]
  | next =>
    have hmade : (custody r.length).made past .next =
      if meetsEnd r.length past .next then (custody r.length).due past else [] := rfl
    rw [hmade, pullEvents]
    cases ho : isOpen r.length past with
    | false => simp [Call.answer, Reply.events, ho, meetsEnd]
    | true =>
      rw [meetsEnd_eq ho]
      cases hi : r.drain.items[polls r.length past]? with
      | some i => simp [Call.answer, Reply.events, ho, hi, Call.isNext]
      | none => simp [Call.answer, Reply.events, ho, hi, Call.isNext, Release.events_chain]

/-- What a call delivers: the next item of the sequence, or behind the last what fails at the
end. -/
theorem item?_answer (r : Rows) (past : List Call) (c : Call) :
    (c.answer r past).item? =
      if isOpen r.length past && c.isNext then
        r.drain.items[polls r.length past]?.or
          ((Release.chain ((custody r.length).due past)).failure.map .error)
      else none := by
  cases c with
  | onClose => simp [Call.answer, Reply.item?, Call.isNext]
  | close => simp [Call.answer, Reply.item?, Call.isNext]
  | next =>
    cases ho : isOpen r.length past with
    | false => simp [Call.answer, Reply.item?, ho]
    | true =>
      cases hi : r.drain.items[polls r.length past]? <;>
        simp [Call.answer, Reply.item?, ho, hi, Call.isNext]

theorem not_open_of_meetsEnd {future : List Call} (h : meetsEnd r.length past .next) :
    isOpen r.length (past ++ .next :: future) = false := by
  have hreleases : (custody r.length).releases past .next = true := h
  rw [← List.singleton_append, ← List.append_assoc, ← Bool.not_eq_true]
  intro hopen
  have hclosed := isOpen_of_append hopen
  rw [isOpen_concat, hreleases, Bool.not_true, Bool.and_false] at hclosed
  cases hclosed

/-- Calls deliver items of the sequence, as many as were pulled, and if the end was met all of them
and behind them what the hooks fail with that were due then. -/
def Delivers (r : Rows) (calls : List Call) (delivered : List (Except Error Row)) : Prop :=
  polls r.length calls ≤ r.length ∧ delivered = r.drain.items.take (polls r.length calls) ∨
    ∃ past future, calls = past ++ .next :: future ∧ meetsEnd r.length past .next ∧
      delivered = r.drain.items ++
        ((Release.chain ((custody r.length).due past)).failure.map .error).toList

theorem Delivers.concat {calls : List Call} {delivered : List (Except Error Row)}
    (h : Delivers r calls delivered) (c : Call) :
    Delivers r (calls ++ [c]) (delivered ++ (c.answer r calls).item?.toList) := by
  rw [item?_answer]
  rcases h with ⟨hle, rfl⟩ | ⟨past, future, rfl, hend, rfl⟩
  · have hpolls := polls_concat (n := r.length) calls c
    cases hpulls : isOpen r.length calls && c.isNext with
    | false =>
      rw [hpulls, if_neg Bool.false_ne_true] at hpolls
      refine .inl ⟨hpolls ▸ hle, ?_⟩
      rw [hpolls]
      simp
    | true =>
      obtain ⟨hopen, hnext⟩ := Bool.and_eq_true_iff.mp hpulls
      obtain rfl : c = .next := by cases c <;> first | rfl | cases hnext
      have hend := meetsEnd_eq hopen
      rw [hpulls, if_pos rfl] at hpolls
      cases hi : r.drain.items[polls r.length calls]? with
      | some i =>
        have hlt : polls r.length calls < r.length := (List.getElem?_eq_some_iff.mp hi).1
        refine .inl ⟨hpolls ▸ hlt, ?_⟩
        rw [hpolls, List.take_add_one, hi]
        rfl
      | none =>
        rw [hi] at hend
        refine .inr ⟨calls, [], rfl, hend, ?_⟩
        rw [List.take_of_length_le (List.getElem?_eq_none_iff.mp hi)]
        rfl
  · rw [not_open_of_meetsEnd hend]
    exact .inr ⟨past, future ++ [c], by simp, hend, by simp⟩

theorem delivers_callAll (schema : Schema) (rows : Delayed Rows) (calls : List Call) :
    Delivers (rows ()) calls
      ((callAll RowStream.call (ofRows schema rows) calls).1.filterMap Reply.item?) := by
  induction calls using List.reverseRecOn with
  | nil => exact .inl ⟨Nat.zero_le _, rfl⟩
  | append_singleton calls c ih =>
    have hc := ((behind_callAll schema rows calls).call c).1
    have hitem : [c.answer (rows ()) calls].filterMap Reply.item? =
        (c.answer (rows ()) calls).item?.toList := by
      cases h : (c.answer (rows ()) calls).item? <;> simp [h]
    rw [callAll_concat, List.filterMap_append, hc, hitem]
    exact ih.concat c

theorem tallies_callAll (schema : Schema) (rows : Delayed Rows) (calls : List Call) :
    (custody (rows ()).length).Tallies calls
      ((callAll RowStream.call (ofRows schema rows) calls).1.flatMap Reply.events)
      ((rows ()).seen (polls (rows ()).length calls)) := by
  induction calls using List.reverseRecOn with
  | nil => exact Custody.tallies_nil _
  | append_singleton calls c ih =>
    have hc := ((behind_callAll schema rows calls).call c).1
    rw [callAll_concat, List.flatMap_append, List.flatMap_singleton, hc, events_answer,
      seen_polls_concat]
    exact ih.concat c _

theorem not_open_of_answer {c : Call}
    (h : (custody r.length).releases past c ∨
      ∃ p, c.answer r past = .pulled p ∧ p.item = none) :
    isOpen r.length (past ++ [c]) = false := by
  rw [isOpen_concat]
  rcases h with h | ⟨p, hanswer, hitem⟩
  · rw [h, Bool.not_true, Bool.and_false]
  · obtain rfl : c = .next := by cases c <;> first | rfl | cases hanswer
    have hnone := item?_answer r past .next
    rw [hanswer, Reply.item?, hitem] at hnone
    cases ho : isOpen r.length past with
    | false => rfl
    | true =>
      rw [ho, Call.isNext, Bool.and_self, if_pos rfl, eq_comm, Option.or_eq_none_iff] at hnone
      have hreleases : (custody r.length).releases past .next = true :=
        (meetsEnd_eq ho).trans (by rw [hnone.1]; rfl)
      rw [hreleases]
      rfl

/-- A stream that has finished gives nothing and pulls nothing, whatever calls come. -/
theorem pulled_of_finished {calls : List Call} (h : s.finished = true) {p : Poll}
    (hp : .pulled p ∈ (callAll RowStream.call s calls).1) : p = ⟨[], none⟩ := by
  induction calls generalizing s with
  | nil => cases hp
  | cons c calls ih =>
    rcases List.mem_cons.mp hp with heq | hlater
    · cases c with
      | onClose => cases heq
      | close => cases heq
      | next =>
        have hnext : p = s.next.1 := Reply.pulled.inj heq
        rw [hnext, next_of_finished h]
    · refine ih ?_ hlater
      cases c with
      | onClose => exact h
      | close => rfl
      | next =>
        show s.next.2.finished = true
        rw [next_of_finished h]
        exact h

theorem rests_callAll (schema : Schema) (rows : Delayed Rows) (calls : List Call)
    (i : Fin calls.length)
    (h : (custody (rows ()).length).releases (calls.take i) calls[i] ∨
      ∃ p, (callAll RowStream.call (ofRows schema rows) calls).1[i.val]? = some (.pulled p) ∧
        p.item = none)
    (p : Poll) (hp : .pulled p ∈ (callAll RowStream.call (ofRows schema rows) calls).1.drop (i + 1)) :
    p = ⟨[], none⟩ := by
  rw [answer_callAll] at h
  have hclosed : isOpen (rows ()).length (calls.take (i + 1)) = false := by
    rw [List.take_succ_eq_append_getElem i.isLt]
    exact not_open_of_answer (h.imp_right fun ⟨p, hp, hitem⟩ => ⟨p, Option.some.inj hp, hitem⟩)
  have hfinished := (behind_callAll schema rows (calls.take (i + 1))).finished
  rw [hclosed] at hfinished
  rw [drop_callAll] at hp
  exact pulled_of_finished hfinished hp

theorem Behind.close_idle (h : Behind r past s) (hclosed : isOpen r.length past = false)
    (hdue : (custody r.length).due past = []) : s.close = (.nothing, s) := by
  have hfinished := h.finished
  have hrows := h.rows_of_closed hclosed
  have hrelease := h.idle hdue
  have hpending := h.pending
  rw [hclosed] at hfinished
  rw [hdue] at hpending
  rw [close, hpending, closed]
  cases s
  simp_all [Release.chain]

/-- What calls on a stream deliver are items of its sequence, none behind its end or closing. Each
hook is made as often as it was added, the last one first. -/
theorem life_cycle (schema : Schema) (rows : Delayed Rows) (calls : List Call) :
    let n := (rows ()).length
    let hooks := custody n
    let ran := callAll call (ofRows schema rows) calls
    (∀ i : Fin calls.length, ∃ reply, ran.1[i.val]? = some reply ∧
      reply = calls[i].answer (rows ()) (calls.take i) ∧
      reply.events = pullEvents (rows ()) (calls.take i) calls[i] ++
        (hooks.made (calls.take i) calls[i]).flatMap Release.events) ∧
    Delivers (rows ()) calls (ran.1.filterMap Reply.item?) ∧
    (∀ i : Fin calls.length,
      (hooks.releases (calls.take i) calls[i] ∨
        ∃ p, ran.1[i.val]? = some (.pulled p) ∧ p.item = none) →
      ∀ p, .pulled p ∈ ran.1.drop (i + 1) → p = ⟨[], none⟩) ∧
    (isOpen n calls = false → hooks.due calls = [] → ran.2.close = (.nothing, ran.2)) ∧
    ran.2.abandon = (hooks.due calls).flatMap Release.events ∧
    (ran.1.flatMap Reply.events ++ ran.2.abandon).Perm
      ((rows ()).seen (polls n calls) ++ (hooks.hooks calls).flatMap Release.events) := by
  intro n hooks ran
  have hbehind := behind_callAll schema rows calls
  have habandon : ran.2.abandon = (hooks.due calls).flatMap Release.events := by
    rw [abandon, hbehind.pending, Release.events_chain]
  refine ⟨fun i => ?_, delivers_callAll schema rows calls, rests_callAll schema rows calls,
    hbehind.close_idle, habandon, ?_⟩
  · exact ⟨_, answer_callAll schema rows calls i, rfl, events_answer _ _ _⟩
  · rw [habandon]
    exact tallies_callAll schema rows calls

end RowStream
end DatasetAlgebra
