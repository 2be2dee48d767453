import DatasetAlgebra.Proofs.Dataset.Origins
import DatasetAlgebra.Proofs.Join.Releases
import DatasetAlgebra.Proofs.Join.Sides
import DatasetAlgebra.Proofs.Schema.Merging

/-!
Joins of rows whose columns stand elsewhere than their side declares. A row is refused if that
concerns its key. Nothing else of its layout is looked at: what a joined row has under a name is
what stands at the declared position, which is the value under that name if the name stands there.
-/
namespace DatasetAlgebra

/-- A name stands in a row where a schema has it, or in neither. -/
def Row.Places (s : Schema) (name : String) (r : Row) : Prop :=
  r.schema.position? name = s.position? name

/-- The value that two rows, either of which may be missing, have for a column by its name: that of
the right row, or else of the left, or else null. -/
def Row.either (left right : Option Row) (c : Column) : Value :=
  ((right.bind (·.value? c.name)).or (left.bind (·.value? c.name))).getD c.null

namespace RowMerger

variable {s : Schema} {r : Row} {name : String}

theorem sideValue?_of_places (h : r.Places s name) :
    sideValue? (some s) (some r) name = r.value? name := by
  unfold Row.Places at h
  simp only [sideValue?, Option.bind_some, Row.value?, h]

theorem value?_merge_of_places {m : RowMerger} {left right : Option Row} {c : Column}
    (hc : c ∈ m.output.columns) (hl : ∀ a ∈ left, a.Places m.left c.name)
    (hr : ∀ b ∈ right, ∃ s ∈ m.right, b.Places s c.name) :
    (m.merge left right).value? c.name = some (Row.either left right c) := by
  have hleft : sideValue? (some m.left) left c.name = left.bind (·.value? c.name) := by
    cases left with
    | none => rfl
    | some a => exact sideValue?_of_places (hl a rfl)
  have hright : sideValue? m.right right c.name = right.bind (·.value? c.name) := by
    cases right with
    | none => cases m.right <;> rfl
    | some b =>
      obtain ⟨s, hs, hb⟩ := hr b rfl
      rw [hs]
      exact sideValue?_of_places hb
  rw [merge_eq, Row.value?_byColumn_of_mem _ hc, value, hleft, hright]
  rfl

theorem eq_of_pair {left right out : Schema} {m : RowMerger} (h : pair left right out = .ok m) :
    m = ⟨left, some right, out⟩ := by
  obtain ⟨-, -, h⟩ := bind_eq_ok.mp h
  obtain ⟨-, -, h⟩ := bind_eq_ok.mp h
  cases h
  rfl

theorem eq_of_single {source out : Schema} {m : RowMerger} (h : single source out = .ok m) :
    m = ⟨source, none, out⟩ := by
  obtain ⟨-, -, h⟩ := bind_eq_ok.mp h
  cases h
  rfl

end RowMerger

namespace KeyReader

variable {s : Schema} {o : SortOrder} {resolve : String → Except Error String} {k : KeyReader}
  {r : Row} {key : List Value}

theorem locate_eq_ok {name : String} {column : String × Nat} (h : locate s name = .ok column) :
    ∃ i, s.position? name = some i ∧ column = (name, i) := by
  unfold locate at h
  split at h
  · rename_i i hi
    cases h
    exact ⟨i, hi, rfl⟩
  · cases h

theorem component_cases (r : Row) (name : String) (i : Nat) :
    (∃ v, component r name i = .ok v ∧ r.value? name = some v ∧ r.schema.position? name = some i) ∨
      component r name i = .error (.breach (.key r name i)) ∧ r.schema.position? name ≠ some i := by
  unfold component
  by_cases h : (r.schema.columns[i]?).map Column.name = some name
  · rw [if_pos h]
    obtain ⟨c, hc, rfl⟩ := Option.map_eq_some_iff.mp h
    have hlen : i < r.values.length := by
      rw [r.arity]
      exact (List.getElem?_eq_some_iff.mp hc).1
    refine .inl ⟨r.values[i], ?_, ?_, Schema.position?_of_getElem hc⟩
    · rw [List.getElem?_eq_getElem hlen]
    · rw [Row.value?_eq_getElem hc, List.getElem?_eq_getElem hlen]
  · rw [if_neg h]
    refine .inr ⟨rfl, fun hposition => h ?_⟩
    obtain ⟨hlt, hname, -⟩ := List.findIdx?_eq_some_iff_getElem.mp hposition
    simpa [List.getElem?_eq_getElem hlt] using hname

/-- A key is only read of a row in which all its columns stand as declared. -/
theorem places_of_read (hk : resolving s o resolve = .ok k) (h : k.read r = .ok key) :
    ∀ n ∈ o.columns, ∀ column, resolve n = .ok column → r.Places s column := by
  obtain ⟨columns, hcolumns, rfl⟩ := map_eq_ok.mp hk
  unfold read at h
  generalize o.columns = names at hcolumns
  clear hk
  induction names generalizing columns key with
  | nil => simp
  | cons n names ih =>
    obtain ⟨column, hcolumn, hcolumns⟩ := bind_eq_ok.mp hcolumns
    obtain ⟨_, hlocate, hcolumns⟩ := bind_eq_ok.mp hcolumns
    obtain ⟨rest, hrest, hcolumns⟩ := bind_eq_ok.mp hcolumns
    cases hcolumns
    obtain ⟨i, hi, rfl⟩ := locate_eq_ok hlocate
    obtain ⟨v, hv, h⟩ := bind_eq_ok.mp h
    obtain ⟨values, hvalues, -⟩ := bind_eq_ok.mp h
    refine List.forall_mem_cons.mpr ⟨fun c hc => ?_, ih rest hvalues hrest⟩
    cases hcolumn.symm.trans hc
    rcases component_cases r column i with ⟨-, -, -, hplaced⟩ | ⟨hbreach, -⟩
    · exact hplaced.trans hi.symm
    · rw [hbreach] at hv
      cases hv

/-- Reading a key fails only of a row in which a column of it stands elsewhere. -/
theorem breach_of_read {e : Error} (h : k.read r = .error e) :
    ∃ name i, e = .breach (.key r name i) := by
  obtain ⟨columns⟩ := k
  unfold read at h
  induction columns generalizing e with
  | nil => cases h
  | cons column columns ih =>
    obtain ⟨name, i⟩ := column
    rcases component_cases r name i with ⟨v, hv, -⟩ | ⟨hbreach, -⟩
    · simp only [components, hv, bind, Except.bind] at h
      cases hrest : components r columns with
      | ok values => simp [hrest] at h
      | error f =>
        obtain ⟨name, i, rfl⟩ := ih hrest
        rw [hrest] at h
        cases h
        exact ⟨name, i, rfl⟩
    · simp only [components, hbreach, bind, Except.bind] at h
      cases h
      exact ⟨name, i, rfl⟩

theorem feed_spec (k : KeyReader) (rows : Rows) :
    (∀ x ∈ (k.feed rows).items, x.row ∈ rows.collect.rows ∧ k.read x.row = .ok x.key) ∧
      ∀ e, (k.feed rows).failure = some e →
        rows.collect.failure = some e ∨ ∃ r ∈ rows.collect.rows, k.read r = .error e := by
  induction rows with
  | ended e => simp [feed, Feed.failure]
  | poll p rest ih =>
    obtain ⟨es, item⟩ := p
    rcases item with _ | e | r
    · simp [feed, Feed.failure]
    · simp [feed, Feed.failure, Rows.collect]
    · obtain ⟨hitems, hfailure⟩ := ih ()
      cases hr : k.read r with
      | error e => simp [feed, hr, Feed.failure, Rows.collect]
      | ok key =>
        have hmore : (rest ()).collect.rows ⊆ r :: (rest ()).collect.rows :=
          List.subset_cons_self r _
        simp only [feed, hr, Feed.items_item, Feed.failure, Rows.collect]
        refine ⟨List.forall_mem_cons.mpr ⟨⟨List.mem_cons_self, hr⟩, fun x hx => ?_⟩, fun e he => ?_⟩
        · exact ⟨hmore (hitems x hx).1, (hitems x hx).2⟩
        · rcases hfailure e he with hfails | ⟨q, hq, hread⟩
          · exact .inl hfails
          · exact .inr ⟨q, hmore hq, hread⟩

end KeyReader

theorem Rows.items_drain_map (f : Row → Row) (r : Rows) :
    (r.map f).drain.items = r.drain.items.map fun i => i.map f := by
  induction r with
  | ended e => rfl
  | poll p rest ih =>
    obtain ⟨es, item⟩ := p
    cases item with
    | none => rfl
    | some i => exact congrArg (i.map f :: ·) (ih ())

namespace Matching

/-- A row merged of a row of one of two lists, or of one of each. -/
def MergedOf (m : Matching) (left right : List KeyedRow) (x : Row) : Prop :=
  ∃ l r : Option KeyedRow, (l.isSome ∨ r.isSome) ∧ (∀ a ∈ l, a ∈ left) ∧ (∀ b ∈ r, b ∈ right) ∧
    x = m.merge (l.map KeyedRow.row) (r.map KeyedRow.row)

variable {m : Matching} {left right more : List KeyedRow} {x : Row}

theorem MergedOf.mono (h : m.MergedOf left right x) (hl : left ⊆ more) {others : List KeyedRow}
    (hr : right ⊆ others) : m.MergedOf more others x := by
  obtain ⟨l, r, hsome, hleft, hright, rfl⟩ := h
  exact ⟨l, r, hsome, fun a ha => hl (hleft a ha), fun b hb => hr (hright b hb), rfl⟩

theorem mergedOf_of_onlyLeft {a : KeyedRow} (ha : a ∈ left) (hx : x ∈ m.onlyLeft a) :
    m.MergedOf left right x := by
  unfold onlyLeft at hx
  split at hx
  · exact ⟨some a, none, by simp, by simpa using ha, by simp, List.mem_singleton.mp hx⟩
  · cases hx

theorem mergedOf_of_onlyRight {b : KeyedRow} (hb : b ∈ right) (hx : x ∈ m.onlyRight b) :
    m.MergedOf left right x := by
  unfold onlyRight at hx
  split at hx
  · exact ⟨none, some b, by simp, by simp, by simpa using hb, List.mem_singleton.mp hx⟩
  · cases hx

theorem mergedOf_of_matched {run : Run} {a : KeyedRow} (ha : a ∈ left) (hrun : run.rows ⊆ right)
    (hx : x ∈ m.matched run a) : m.MergedOf left right x := by
  obtain ⟨b, hb, rfl⟩ := List.mem_map.mp hx
  exact ⟨some a, some b, by simp, by simpa using ha, by simpa using hrun hb, rfl⟩

/-- The rows that are held. -/
def heldRows (run : Option Run) : List KeyedRow := run.elim [] Run.rows

theorem mergedOf_item {es : List Event} {batch : List Row} {rest : Unit → Feed (List Row)}
    {fewer others : List KeyedRow} (hbatch : ∀ x ∈ batch, m.MergedOf left right x)
    (hrest : ∀ x ∈ (rest ()).items.flatten, m.MergedOf fewer others x) (hl : fewer ⊆ left)
    (hr : others ⊆ right) : ∀ x ∈ (Feed.item es batch rest).items.flatten,
      m.MergedOf left right x := by
  intro x hx
  rw [Feed.items_item, List.flatten_cons, List.mem_append] at hx
  rcases hx with hx | hx
  · exact hbatch x hx
  · exact (hrest x hx).mono hl hr

theorem mergedOf_join (m : Matching) (run : Option Run) (left right : Feed KeyedRow) :
    ∀ x ∈ (m.join run left right).items.flatten,
      m.MergedOf left.items (heldRows run ++ right.items) x := by
  fun_induction join m run left right with
  | case1 | case2 | case4 | case6 | case8 | case11 => simp
  | case3 run es fs b right hkeeps ih =>
    have hb : b ∈ heldRows run ++ (Feed.item fs b right).items := by simp
    refine mergedOf_item (fun x hx => mergedOf_of_onlyRight hb hx) ih ?_ ?_
    · simp
    · simp [heldRows]
  | case5 run es a left right r hheld ih =>
    have hrun : run = some r := (Option.filter_eq_some_iff.mp hheld).1
    have ha : a ∈ (Feed.item es a left).items := List.mem_cons_self
    have hrows : r.rows ⊆ heldRows run ++ right.items := by
      rw [hrun]
      exact List.subset_append_left r.rows _
    exact mergedOf_item (fun x hx => mergedOf_of_matched ha hrows hx) ih
      (List.subset_cons_self a _) (List.Subset.refl _)
  | case7 run es a left hfree fs hkeeps ih =>
    have ha : a ∈ (Feed.item es a left).items := List.mem_cons_self
    exact mergedOf_item (fun x hx => mergedOf_of_onlyLeft ha hx) ih
      (List.subset_cons_self a _) (List.subset_append_right _ _)
  | case9 run es a left hfree fs b right hlt ih =>
    have ha : a ∈ (Feed.item es a left).items := List.mem_cons_self
    exact mergedOf_item (fun x hx => mergedOf_of_onlyLeft ha hx) ih
      (List.subset_cons_self a _) (List.subset_append_right _ _)
  | case10 run es a left hfree fs b right hgt ih =>
    have hb : b ∈ heldRows run ++ (Feed.item fs b right).items := by simp
    refine mergedOf_item (fun x hx => mergedOf_of_onlyRight hb hx) ih (List.Subset.refl _) ?_
    simp [heldRows]
  | case12 run es a left hfree fs b right heq s seen held hgoes ih =>
    have ha : a ∈ (Feed.item es a left).items := List.mem_cons_self
    have hall : s.lead ++ s.beyond.items = (right ()).items := Feed.lead_append_beyond _ _
    have hheld : held.rows ++ s.beyond.peeked.items = (Feed.item fs b right).items := by
      rw [Feed.items_peeked, Feed.items_item, ← hall]
      rfl
    have hrows : held.rows ++ s.beyond.peeked.items ⊆ heldRows run ++ (Feed.item fs b right).items :=
      hheld ▸ List.subset_append_right _ _
    have hmatched : held.rows ⊆ heldRows run ++ (Feed.item fs b right).items :=
      List.Subset.trans (List.subset_append_left _ _) hrows
    exact mergedOf_item (fun x hx => mergedOf_of_matched ha hmatched hx) ih
      (List.subset_cons_self a _) hrows

end Matching

namespace MergeJoin

variable {m : MergeJoin}

/-- What a merge join of two sequences gives is a failure of one of them, a row refused for its
key, or a row merged of rows whose keys were read. -/
theorem drain_spec {lk rk : KeyReader} {left right : Delayed Rows} {item : Except Error Row}
    (h : item ∈ (m.rows lk rk left right).drain.items) :
    (∃ e, item = .error e ∧ ((left ()).collect.failure = some e ∨
        (right ()).collect.failure = some e ∨ ∃ r name i, e = .breach (.key r name i))) ∨
      ∃ l r : Option Row, (l.isSome ∨ r.isSome) ∧
        (∀ a ∈ l, a ∈ (left ()).collect.rows ∧ ∃ key, lk.read a = .ok key) ∧
        (∀ b ∈ r, b ∈ (right ()).collect.rows ∧ ∃ key, rk.read b = .ok key) ∧
        item = .ok (m.merger.merge l r) := by
  rw [rows, Matching.rows, Feed.toRows, Feed.items_drain_rowsAfter, List.mem_append] at h
  have hitems := m.matching.mergedOf_join none (lk.feed (left ())) (rk.feed (right ()))
  obtain ⟨hleft, hlfails⟩ := lk.feed_spec (left ())
  obtain ⟨hright, hrfails⟩ := rk.feed_spec (right ())
  rcases h with h | h
  · obtain ⟨x, hx, rfl⟩ := List.mem_map.mp h
    obtain ⟨l, r, hsome, hl, hr, rfl⟩ := hitems x hx
    refine .inr ⟨l.map KeyedRow.row, r.map KeyedRow.row, by simpa using hsome, ?_, ?_, rfl⟩
    · intro a ha
      obtain ⟨y, hy, rfl⟩ := Option.map_eq_some_iff.mp ha
      obtain ⟨hmem, hread⟩ := hleft y (hl y hy)
      exact ⟨hmem, _, hread⟩
    · intro b hb
      obtain ⟨y, hy, rfl⟩ := Option.map_eq_some_iff.mp hb
      obtain ⟨hmem, hread⟩ := hright y (hr y hy)
      exact ⟨hmem, _, hread⟩
  · obtain ⟨e, he, rfl⟩ : ∃ e, (m.matching.join none (lk.feed (left ())) (rk.feed (right ()))).failure =
        some e ∧ .error e = item := by simpa using h
    refine .inl ⟨e, rfl, ?_⟩
    rcases Matching.failure_of_join he with he | he
    · rcases hlfails e he with hfails | ⟨r, -, hread⟩
      · exact .inl hfails
      · obtain ⟨name, i, rfl⟩ := KeyReader.breach_of_read hread
        exact .inr (.inr ⟨r, name, i, rfl⟩)
    · rcases hrfails e he with hfails | ⟨r, -, hread⟩
      · exact .inr (.inl hfails)
      · obtain ⟨name, i, rfl⟩ := KeyReader.breach_of_read hread
        exact .inr (.inr ⟨r, name, i, rfl⟩)

end MergeJoin

/-- A merge join fails as a side does or refuses a row for its key. What it gives has by name the
values of the rows it is merged of, wherever these stand as declared. -/
theorem merged_by_name {m : MergeJoin} {ls rs out : Schema}
    {resolve resolve' : String → Except Error String} {lk rk : KeyReader} {j : Join}
    {sofar joined : Join.Joined} (left right : Delayed Rows)
    (hm : RowMerger.pair ls rs out = .ok m.merger)
    (hlk : KeyReader.resolving ls m.order resolve = .ok lk)
    (hrk : KeyReader.resolving rs m.order resolve' = .ok rk)
    (hcarry : j.carry sofar = .ok joined) :
    (∀ item ∈ (m.rows lk rk left right).drain.items,
      (∃ e, item = .error e ∧ ((left ()).collect.failure = some e ∨
        (right ()).collect.failure = some e ∨ ∃ r name i, e = .breach (.key r name i))) ∨
      ∃ (x : Row) (l r : Option Row), item = .ok x ∧ x.schema = out ∧ (l.isSome ∨ r.isSome) ∧
        (∀ a ∈ l, a ∈ (left ()).collect.rows) ∧ (∀ b ∈ r, b ∈ (right ()).collect.rows) ∧
        (∀ n ∈ m.order.columns,
          (∀ column, resolve n = .ok column → ∀ a ∈ l, a.Places ls column) ∧
          ∀ column, resolve' n = .ok column → ∀ b ∈ r, b.Places rs column) ∧
        ∀ c ∈ out.columns, (∀ a ∈ l, a.Places ls c.name) → (∀ b ∈ r, b.Places rs c.name) →
          x.value? c.name = some (Row.either l r c)) ∧
    ∀ item ∈ (joined.rows ()).drain.items,
      (∃ e, item = .error e ∧ item ∈ (sofar.rows ()).drain.items) ∨
      ∃ x r : Row, item = .ok x ∧ x.schema = j.schema ∧ .ok r ∈ (sofar.rows ()).drain.items ∧
        ∀ c ∈ j.schema.columns, r.Places sofar.schema c.name →
          x.value? c.name = some (Row.either (some r) none c) := by
  constructor
  · intro item hitem
    have hmerger := RowMerger.eq_of_pair hm
    refine (MergeJoin.drain_spec hitem).imp_right ?_
    rintro ⟨l, r, hsome, hl, hr, rfl⟩
    refine ⟨_, l, r, rfl, ?_, hsome, fun a ha => (hl a ha).1, fun b hb => (hr b hb).1, ?_, ?_⟩
    · rw [RowMerger.schema_merge, hmerger]
    · refine fun n hn => ⟨fun column hc a ha => ?_, fun column hc b hb => ?_⟩
      · obtain ⟨key, hread⟩ := (hl a ha).2
        exact KeyReader.places_of_read hlk hread n hn column hc
      · obtain ⟨key, hread⟩ := (hr b hb).2
        exact KeyReader.places_of_read hrk hread n hn column hc
    · rw [hmerger]
      intro c hc hleft hright
      exact RowMerger.value?_merge_of_places hc hleft fun b hb => ⟨rs, rfl, hright b hb⟩
  · intro item hitem
    obtain ⟨m, hm, rfl⟩ := map_eq_ok.mp hcarry
    rw [RowMerger.eq_of_single hm, Rows.items_drain_map] at hitem
    obtain ⟨given, hgiven, rfl⟩ := List.mem_map.mp hitem
    cases given with
    | error e => exact .inl ⟨e, rfl, hgiven⟩
    | ok r =>
      refine .inr ⟨_, r, rfl, rfl, hgiven, fun c hc hplaced => ?_⟩
      apply RowMerger.value?_merge_of_places hc
      · rintro a ⟨⟩
        exact hplaced
      · rintro b ⟨⟩

namespace Relaid

def declared : Schema :=
  ⟨[⟨"id", .identifier, .integer⟩, ⟨"a", .measure, .integer⟩, ⟨"b", .measure, .integer⟩],
    by decide⟩

/-- The columns declared, with the measures the other way round. -/
def stored : Schema :=
  ⟨[⟨"id", .identifier, .integer⟩, ⟨"b", .measure, .integer⟩, ⟨"a", .measure, .integer⟩],
    by decide⟩

def priced : Schema :=
  ⟨[⟨"id", .identifier, .integer⟩, ⟨"c", .measure, .integer⟩], by decide⟩

def whole : Schema :=
  ⟨[⟨"id", .identifier, .integer⟩, ⟨"a", .measure, .integer⟩, ⟨"b", .measure, .integer⟩,
    ⟨"c", .measure, .integer⟩], by decide⟩

def storedRow : Row := ⟨stored, [.ofInt64 1, .ofInt64 20, .ofInt64 10], rfl⟩

def pricedRow : Row := ⟨priced, [.ofInt64 1, .ofInt64 30], rfl⟩

def pairing : MergeJoin :=
  ⟨.inner, .ascending [⟨"id", .identifier, .integer⟩], ⟨declared, some priced, whole⟩⟩

end Relaid

open Relaid

/-- Identifiers that stand as declared are merged by name, whatever of the rest does not. -/
theorem merged_by_name_relaid :
    (∃ (lk rk : KeyReader) (x : Row) (l r : Option Row),
      (pairing.rows lk rk (fun _ => .ofRows [storedRow]) fun _ => .ofRows [pricedRow]).drain.items =
        [.ok x] ∧
      (∀ a ∈ l, a ∈ [storedRow]) ∧ (∀ b ∈ r, b ∈ [pricedRow]) ∧
      x.value? "id" = some (Row.either l r ⟨"id", .identifier, .integer⟩)) ∧
    ∃ (j : Join) (joined : Join.Joined) (x r : Row),
      j.carry ⟨declared, .ok ⟨[]⟩, fun _ => .ofRows [storedRow], .empty⟩ = .ok joined ∧
      (joined.rows ()).drain.items = [.ok x] ∧ .ok r ∈ (Rows.ofRows [storedRow]).drain.items ∧
      x.value? "id" = some (Row.either (some r) none ⟨"id", .identifier, .integer⟩) := by
  obtain ⟨lk, hlk⟩ : ∃ lk, KeyReader.byName declared pairing.order = .ok lk := ⟨_, rfl⟩
  obtain ⟨rk, hrk⟩ : ∃ rk, KeyReader.byName priced pairing.order = .ok rk := ⟨_, rfl⟩
  let t : Table := ⟨declared, [], by simp, true, true, none⟩
  obtain ⟨j, hj⟩ : ∃ j, Join.on .inner [("t", t.toDataset)] ["id"] = .ok j := ⟨_, rfl⟩
  obtain ⟨joined, hcarry⟩ : ∃ joined,
      j.carry ⟨declared, .ok ⟨[]⟩, fun _ => .ofRows [storedRow], .empty⟩ = .ok joined := by
    cases hj
    exact ⟨_, rfl⟩
  have hpair : RowMerger.pair declared priced whole = .ok pairing.merger := rfl
  obtain ⟨hpaired, hcarried⟩ := merged_by_name (fun _ => .ofRows [storedRow])
    (fun _ => .ofRows [pricedRow]) hpair hlk hrk hcarry
  constructor
  · obtain ⟨x, hx⟩ : ∃ x, (pairing.rows lk rk (fun _ => .ofRows [storedRow])
        fun _ => .ofRows [pricedRow]).drain.items = [.ok x] := by
      cases hlk
      cases hrk
      exact ⟨_, by with_unfolding_all rfl⟩
    rcases hpaired (.ok x) (by rw [hx]; exact List.mem_cons_self) with
      ⟨e, he, -⟩ | ⟨y, l, r, hy, -, -, hl, hr, -, hby⟩
    · cases he
    · cases hy
      refine ⟨lk, rk, x, l, r, hx, hl, hr, hby _ List.mem_cons_self ?_ ?_⟩
      · intro a ha
        rw [List.mem_singleton.mp (hl a ha)]
        rfl
      · intro b hb
        rw [List.mem_singleton.mp (hr b hb)]
        rfl
  · obtain ⟨x, hx⟩ : ∃ x, (joined.rows ()).drain.items = [.ok x] := by
      cases hj
      cases hcarry
      exact ⟨_, rfl⟩
    rcases hcarried (.ok x) (by rw [hx]; exact List.mem_cons_self) with
      ⟨e, he, -⟩ | ⟨y, r, hy, -, hr, hby⟩
    · cases he
    · cases hy
      have hid : ⟨"id", .identifier, .integer⟩ ∈ j.schema.columns := by
        cases hj
        exact List.mem_cons_self
      refine ⟨j, joined, x, r, hcarry, hx, hr, hby _ hid ?_⟩
      cases List.mem_singleton.mp hr
      rfl

/-- Measures that stand elsewhere than declared come out under each other's names, and the row is
not refused: its identifier stands as declared. -/
theorem measures_swapped :
    ∃ (lk rk : KeyReader) (x : Row),
      stored.same declared ∧
      RowMerger.pair declared priced whole = .ok pairing.merger ∧
      KeyReader.byName declared pairing.order = .ok lk ∧
      KeyReader.byName priced pairing.order = .ok rk ∧
      (pairing.rows lk rk (fun _ => .ofRows [storedRow]) fun _ => .ofRows [pricedRow]).drain.items =
        [.ok x] ∧
      storedRow.value? "a" = some (.ofInt64 10) ∧ pricedRow.value? "a" = none ∧
      x.value? "a" = some (.ofInt64 20) := by
  have hsame : stored.same declared := by
    apply Schema.same_of_columns
    intro c
    simp only [stored, declared, List.mem_cons, List.not_mem_nil, or_false]
    tauto
  exact ⟨_, _, _, hsame, rfl, rfl, rfl, by with_unfolding_all rfl, rfl, rfl, rfl⟩

end DatasetAlgebra
