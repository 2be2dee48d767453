import DatasetAlgebra.Join.KeyReader
import DatasetAlgebra.Join.Kind
import DatasetAlgebra.Join.RowMerger
import DatasetAlgebra.Stream.Feed

/-!
Merge joins of two sequences of rows that are both ordered by their keys. Rows are pulled as late
as possible. A key found on both sides gives all pairs of its rows: the right ones are held while
the left ones pass, and nothing else is held. The first failure of either side ends the join.
-/
namespace DatasetAlgebra

structure KeyedRow where
  key : List Value
  row : Row

/-- Reads the key of every row pulled, up to the end or the first failure. -/
def KeyReader.feed (k : KeyReader) : Rows → Feed KeyedRow
  | .ended e => .stop e.seen none
  | .poll p rest =>
    match p.item with
    | none => .stop p.events none
    | some (.error e) => .stop p.events (some e)
    | some (.ok r) =>
      match k.read r with
      | .error e => .stop p.events (some e)
      | .ok key => .item p.events ⟨key, r⟩ fun _ => k.feed (rest ())

/-- What is made of two sides: the order of their keys, whether rows of either side are kept without
a match, and the row that rows of them are merged to. -/
structure Matching where
  order : SortOrder
  keepsLeft : Bool
  keepsRight : Bool
  merge : Option Row → Option Row → Row

namespace Matching

/-- What a left row gives without a match. -/
def onlyLeft (m : Matching) (a : KeyedRow) : List Row :=
  if m.keepsLeft then [m.merge (some a.row) none] else []

/-- What a right row gives without a match. -/
def onlyRight (m : Matching) (b : KeyedRow) : List Row :=
  if m.keepsRight then [m.merge none (some b.row)] else []

/-- The right rows of one key, held while left rows of that key pass. -/
structure Run where
  key : List Value
  rows : List KeyedRow

/-- What a left row gives with the right rows of its key. -/
def matched (m : Matching) (run : Run) (a : KeyedRow) : List Row :=
  run.rows.map fun b => m.merge (some a.row) (some b.row)

/-- The run that is held, if it has the key of a left row. -/
def runFor (m : Matching) (run : Option Run) (a : KeyedRow) : Option Run :=
  run.filter fun r => m.order.sameKey a.key r.key

/-- The join of two feeds, as one batch of rows for each row that is passed. -/
def join (m : Matching) (run : Option Run) :
    Feed KeyedRow → Feed KeyedRow → Feed (List Row)
  | .stop es (some e), _ => .stop es (some e)
  | .stop es none, .stop fs failure => .stop (es ++ fs) failure
  | .stop es none, .item fs b right =>
    if m.keepsRight then
      .item (es ++ fs) (m.onlyRight b) fun _ => m.join none (.stop [] none) (right ())
    else .stop (es ++ fs) none
  | .item es a left, right =>
    match m.runFor run a with
    | some r => .item es (m.matched r a) fun _ => m.join run (left ()) right
    | none =>
      match right with
      | .stop fs (some e) => .stop (es ++ fs) (some e)
      | .stop fs none =>
        if m.keepsLeft then
          .item (es ++ fs) (m.onlyLeft a) fun _ => m.join none (left ()) (.stop [] none)
        else .stop (es ++ fs) none
      | .item fs b right =>
        match m.order.compareKeys a.key b.key with
        | .lt =>
          .item (es ++ fs) (m.onlyLeft a) fun _ => m.join none (left ()) (.item [] b right)
        | .gt =>
          .item (es ++ fs) (m.onlyRight b) fun _ => m.join none (.item [] a left) (right ())
        | .eq =>
          let s := (right ()).split fun c => m.order.sameKey c.key a.key
          let seen := es ++ fs ++ s.events ++ s.beyond.firstEvents
          match s.beyond with
          | .stop _ (some e) => .stop seen (some e)
          | _ =>
            let run : Run := ⟨a.key, b :: s.lead⟩
            .item seen (m.matched run a) fun _ => m.join (some run) (left ()) s.beyond.peeked
termination_by l r => l.size + r.size
decreasing_by
  · simp
  · simp
  · simp
  · simp
  · simp
  all_goals
    have h := Feed.size_beyond_le (fun c => m.order.sameKey c.key a.key) (right ())
    simp only [Feed.size_item, Feed.size_peeked]
    omega

/-- The join of two sequences of rows. -/
def rows (m : Matching) (leftKeys rightKeys : KeyReader) (left right : Delayed Rows) : Rows :=
  (m.join none (leftKeys.feed (left ())) (rightKeys.feed (right ()))).toRows

end Matching

/-- The matching of a kind of join, with a merger of the rows of its sides. -/
structure MergeJoin where
  kind : JoinKind
  order : SortOrder
  merger : RowMerger

namespace MergeJoin

def matching (j : MergeJoin) : Matching :=
  ⟨j.order, j.kind.keepsLeft, j.kind.keepsRight, j.merger.merge⟩

@[simp] theorem order_matching (j : MergeJoin) : j.matching.order = j.order := rfl
@[simp] theorem keepsLeft_matching (j : MergeJoin) : j.matching.keepsLeft = j.kind.keepsLeft := rfl
@[simp] theorem keepsRight_matching (j : MergeJoin) :
    j.matching.keepsRight = j.kind.keepsRight := rfl
@[simp] theorem merge_matching (j : MergeJoin) : j.matching.merge = j.merger.merge := rfl

/-- The join of two sequences of rows. -/
def rows (j : MergeJoin) (leftKeys rightKeys : KeyReader) (left right : Delayed Rows) : Rows :=
  j.matching.rows leftKeys rightKeys left right

end MergeJoin
end DatasetAlgebra
