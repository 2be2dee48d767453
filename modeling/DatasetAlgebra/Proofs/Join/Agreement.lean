import DatasetAlgebra.Proofs.Dataset.Origins
import DatasetAlgebra.Proofs.Filter.ByKey
import DatasetAlgebra.Proofs.Join.Honest
import DatasetAlgebra.Proofs.Join.OfTables
import Mathlib.Data.List.ReduceOption

/-!
Which rows a joined row is made of, and where it agrees with them. All of them have its key, so in
the identifiers joined on they agree. In a column that is not joined on, though it may be an
identifier of some of the tables, the last row that has the column gives its value; the joined
row agrees with the others there just if they agree among themselves.
-/
namespace DatasetAlgebra

/-- Rows agree under a name if their values there, where both have one, are equal in the order. -/
def Row.Agree (name : String) (a b : Row) : Prop :=
  ∀ v ∈ a.value? name, ∀ w ∈ b.value? name, v.collate w = .eq

theorem Row.agree_of_alike {name : String} {a b : Row}
    (h : Filter.Alike (a.value? name) (b.value? name)) : Row.Agree name a b := by
  intro v hv w hw
  rw [hv, hw] at h
  cases h
  assumption

theorem exists_value?_combined {out : Schema} {rows : List Row} {r : Row} {name : String}
    {v : Value} (hr : r ∈ rows) (hsub : ∀ c ∈ r.schema.columns, c ∈ out.columns)
    (hv : r.value? name = some v) :
    ∃ p ∈ rows, ∃ w, p.value? name = some w ∧ (combined out rows).value? name = some w := by
  have hname : name ∈ r.schema.names := by
    rw [← Row.value?_isSome_iff, hv]
    rfl
  obtain ⟨c, hc, rfl⟩ := List.mem_map.mp hname
  obtain ⟨w, hw⟩ : ∃ w, lastValue? rows c.name = some w := by
    rw [← Option.isSome_iff_exists, lastValue?, List.findSome?_isSome_iff]
    exact ⟨r, List.mem_reverse.mpr hr, by rw [hv]; rfl⟩
  obtain ⟨p, hp, hpw⟩ := List.exists_of_findSome?_eq_some hw
  refine ⟨p, List.mem_reverse.mp hp, w, hpw, ?_⟩
  rw [combined, Row.value?_byColumn_of_mem _ (hsub c hc), hw]
  rfl

theorem exists_of_value?_combined {out : Schema} {rows : List Row} {name : String} {v : Value}
    (h : (combined out rows).value? name = some v) (hv : v.isNull = false) :
    ∃ r ∈ rows, r.value? name = some v := by
  rw [combined, Row.value?_byColumn] at h
  obtain ⟨c, hc, rfl⟩ := Option.map_eq_some_iff.mp h
  rw [(Schema.column?_eq_some_iff.mp hc).2] at hv ⊢
  cases hlast : lastValue? rows name with
  | none =>
    rw [hlast] at hv
    cases hv
  | some w =>
    obtain ⟨r, hr, hrw⟩ := List.exists_of_findSome?_eq_some hlast
    exact ⟨r, List.mem_reverse.mp hr, hrw⟩

/-- A row combined of others agrees with them just if they agree among themselves. -/
theorem combined_agrees_iff {out : Schema} {rows : List Row} (name : String)
    (hsub : ∀ r ∈ rows, ∀ c ∈ r.schema.columns, c ∈ out.columns) :
    (∀ r ∈ rows, Row.Agree name (combined out rows) r) ↔
      ∀ p ∈ rows, ∀ r ∈ rows, Row.Agree name p r := by
  constructor
  · intro h p hp r hr v hv w hw
    obtain ⟨-, -, u, -, hu⟩ := exists_value?_combined hp (hsub p hp) hv
    have huv : u.collate v = .eq := h p hp u hu v hv
    have huw : u.collate w = .eq := h r hr u hu w hw
    exact Std.TransCmp.eq_trans (Std.OrientedCmp.eq_symm huv) huw
  · intro h r hr v hv w hw
    obtain ⟨p, hp, u, hpu, hu⟩ := exists_value?_combined hr (hsub r hr) hw
    cases hu.symm.trans hv
    exact h p hp r hr v hpu w hw

namespace MergeJoin

variable {m : MergeJoin} {rs : Schema} {left right : List Row}

theorem mem_block {x : Row} (h : x ∈ m.matching.block left right) :
    (∃ a ∈ left, x = m.merger.merge (some a) none) ∨
      (∃ b ∈ right, x = m.merger.merge none (some b)) ∨
        ∃ a ∈ left, ∃ b ∈ right, x = m.merger.merge (some a) (some b) := by
  match left, right with
  | [], right =>
    simp only [Matching.block] at h
    split at h
    · obtain ⟨b, hb, rfl⟩ := List.mem_map.mp h
      exact .inr (.inl ⟨b, hb, rfl⟩)
    · cases h
  | a :: left, [] =>
    simp only [Matching.block] at h
    split at h
    · obtain ⟨c, hc, rfl⟩ := List.mem_map.mp h
      exact .inl ⟨c, hc, rfl⟩
    · cases h
  | a :: left, b :: right =>
    obtain ⟨c, hc, hx⟩ := List.mem_flatMap.mp h
    obtain ⟨d, hd, rfl⟩ := List.mem_map.mp hx
    exact .inr (.inr ⟨c, hc, d, hd, rfl⟩)

theorem mem_block_of_mem_joined (hm : m.Spans rs) (hl : ∀ r ∈ left, r.schema = m.merger.left)
    (hr : ∀ r ∈ right, r.schema = rs) (hls : m.order.Sorted left) (hrs : m.order.Sorted right)
    {x : Row} (h : x ∈ m.joined left right) :
    x ∈ m.matching.block (m.order.rowsOf (m.order.keyOf x) left)
      (m.order.rowsOf (m.order.keyOf x) right) := by
  rw [← rowsOf_joined hm hl hr hls hrs]
  exact (mem_classOf _ _).mpr ⟨h, Std.ReflCmp.compare_self⟩

end MergeJoin

namespace Join

/-- A row made of rows of tables, one or none of each but not none of all: a column has the value
of the last of them that has it. -/
structure MadeOf (out : Schema) (tables : List Table) (sources : List (Option Row)) (x : Row) :
    Prop where
  rows : List.Forall₂ (fun t r => ∀ a ∈ r, a ∈ t.rows) tables sources
  some : sources.reduceOption ≠ []
  value : x = combined out sources.reduceOption

/-- A row that, laid out in a schema, is made of rows of tables that have its key. -/
def Made (out : Schema) (o : SortOrder) (tables : List Table) (x : Row) : Prop :=
  ∃ sources, MadeOf out tables sources (x.byName out) ∧
    ∀ r ∈ sources.reduceOption, SortOrder.compareAlong o.keys (o.keyOf r) (o.keyOf x) = .eq

section

variable {out : Schema} {o : SortOrder} {tables : List Table} {x y b : Row} (t : Table)

theorem Made.skip (h : Made out o tables x) (hy : y.byName out = x.byName out)
    (hkey : o.keyOf y = o.keyOf x) : Made out o (tables ++ [t]) y := by
  obtain ⟨sources, ⟨hrows, hsome, hvalue⟩, hkeys⟩ := h
  have hsame : (sources ++ [none]).reduceOption = sources.reduceOption := by
    simp [List.reduceOption_append]
  refine ⟨sources ++ [none], ⟨List.rel_append hrows (.cons (by simp) .nil), ?_, ?_⟩, ?_⟩
  · rwa [hsame]
  · rw [hsame, hy, hvalue]
  · rwa [hsame, hkey]

variable {t}

theorem made_of_last (tables : List Table) (hb : b ∈ t.rows) (hy : y.byName out = b.byName out)
    (hkey : o.keyOf y = o.keyOf b) : Made out o (tables ++ [t]) y := by
  have hnone : List.Forall₂ (fun t r => ∀ a ∈ r, a ∈ t.rows) tables
      (List.replicate tables.length none) := by
    induction tables with
    | nil => exact .nil
    | cons u tables ih => exact .cons (by simp) ih
  have hone : (List.replicate tables.length none ++ [some b]).reduceOption = [b] := by
    simp [List.reduceOption_append]
  refine ⟨List.replicate tables.length none ++ [some b],
    ⟨List.rel_append hnone (.cons (by simpa using hb) .nil), ?_, ?_⟩, ?_⟩
  · simp [hone]
  · rw [hone, hy, combined_singleton]
  · simp [hone, hkey, Std.ReflCmp.compare_self]

/-- A row of one more table is laid over the row made of the tables before, if it has its key. -/
theorem Made.overlaid (h : Made out o tables x) (hb : b ∈ t.rows)
    (hxb : SortOrder.compareAlong o.keys (o.keyOf x) (o.keyOf b) = .eq)
    (hy : y.byName out = overlaid out x b) (hkey : o.keyOf y = o.keyOf b) :
    Made out o (tables ++ [t]) y := by
  obtain ⟨sources, ⟨hrows, -, hvalue⟩, hkeys⟩ := h
  have hmore : (sources ++ [some b]).reduceOption = sources.reduceOption ++ [b] := by
    simp [List.reduceOption_append]
  refine ⟨sources ++ [some b],
    ⟨List.rel_append hrows (.cons (by simpa using hb) .nil), ?_, ?_⟩, ?_⟩
  · simp [hmore]
  · rw [hmore, combined_append_singleton, ← hvalue, overlaid_byName, hy]
  · rw [hmore, hkey, List.forall_mem_append]
    exact ⟨fun r hr => Std.TransCmp.eq_trans (hkeys r hr) hxb, by
      simp [Std.ReflCmp.compare_self]⟩

end

variable {j : Join} {q : Request} {d : String × Dataset} {tables : List Table} {t : Table}

/-- All rows so far, behind an end or a failure too, are made of rows of some tables. -/
def Joined.DrawnFrom (sofar : Joined) (j : Join) (q : Request) (tables : List Table) : Prop :=
  ∀ x ∈ (sofar.rows ()).given, x.schema = sofar.schema ∧ Made j.schema q.order tables x

theorem given_mergeWith {sofar : Joined} {name : String} {s : Schema} {right rows : Delayed Rows}
    (h : j.mergeWith q sofar name s right = .ok rows) : (rows ()).given = (rows ()).flow := by
  obtain ⟨lk, -, h⟩ := bind_eq_ok.mp h
  obtain ⟨rk, -, h⟩ := bind_eq_ok.mp h
  obtain ⟨merger, -, h⟩ := bind_eq_ok.mp h
  cases h
  rw [MergeJoin.rows, Matching.rows, Feed.toRows, Feed.given_rowsAfter, Feed.flow_rowsAfter]

theorem mem_of_openSource {s : RowStream} (h : (j.openSource q t.toDataset).outcome = .ok s) :
    ∀ r ∈ (s.rows ()).given, r ∈ t.rows := by
  unfold openSource at h
  split at h
  · cases h
  · exact Table.request_given h

theorem start_drawn {s : RowStream} (hfirst : j.first.2 = t.toDataset)
    (h : ∀ r ∈ (s.rows ()).given, r ∈ t.rows) : (j.start q s).DrawnFrom j q [t] := fun r hr =>
  ⟨by rw [t.bound r (h r hr)]; exact (congrArg Dataset.schema hfirst).symm,
    made_of_last [] (h r hr) rfl rfl⟩

theorem Wired.step_drawn (hj : j.Wired) (hq : q.Within j) (hd : d ∈ j.datasets) {sofar : Joined}
    (hs : sofar.Serves j q) (h : sofar.DrawnFrom j q tables) {right rows : Delayed Rows}
    (hright : Fulfils d.2.schema q.order q.filter (right ()).flow)
    (hmem : ∀ r ∈ (right ()).given, r ∈ t.rows)
    (hmerge : j.mergeWith q sofar d.1 d.2.schema right = .ok rows) (held : ReleaseStack) :
    Joined.DrawnFrom ⟨j.schema, KeyReader.byName j.schema q.order, rows, held⟩ j q
      (tables ++ [t]) := by
  obtain ⟨rows', hmerge', hbegins, -⟩ := hj.mergeWith_ok hq hd hs.ready hright.bound
  cases hmerge.symm.trans hmerge'
  have hspans := hj.spans hq hd hs.ready
  have hleft := hs.rows.sublist (sofar.rows ()).collect_rows_prefix_flow.sublist
  have hright' := hright.sublist (right ()).collect_rows_prefix_flow.sublist
  have hfrom : ∀ a ∈ (sofar.rows ()).collect.rows, Made j.schema q.order tables a :=
    fun a ha => (h a ((sofar.rows ()).collect_sublist_given.subset ha)).2
  have hto : ∀ b ∈ (right ()).collect.rows, b ∈ t.rows :=
    fun b hb => hmem b ((right ()).collect_sublist_given.subset hb)
  intro x hx
  rw [given_mergeWith hmerge] at hx
  -- the rows that `x` is merged of are among those of its key
  have hclass := MergeJoin.mem_block_of_mem_joined hspans hleft.bound hright'.bound
    (hleft.sorted hspans.ofLeft) (hright'.sorted hspans.ofRight) (hbegins.subset hx)
  rcases MergeJoin.mem_block hclass with ⟨a, ha, rfl⟩ | ⟨b, hb, rfl⟩ | ⟨a, ha, b, hb, rfl⟩
  · obtain ⟨ha, -⟩ := (mem_classOf _ _).mp ha
    have hschema := hleft.bound a ha
    refine ⟨rfl, (hfrom a ha).skip t ?_ (MergeJoin.keyOf_merge_left hspans hschema)⟩
    rw [MergeJoin.merge_left rfl hschema]
    exact Row.byName_self (a.byName j.schema)
  · obtain ⟨hb, -⟩ := (mem_classOf _ _).mp hb
    have hschema := hright'.bound b hb
    refine ⟨rfl, made_of_last tables (hto b hb) ?_
      (MergeJoin.keyOf_merge_right hspans hschema none)⟩
    rw [MergeJoin.merge_right rfl hschema]
    exact Row.byName_self (b.byName j.schema)
  · obtain ⟨ha, hakey⟩ := (mem_classOf _ _).mp ha
    obtain ⟨hb, hbkey⟩ := (mem_classOf _ _).mp hb
    have hlschema := hleft.bound a ha
    have hrschema := hright'.bound b hb
    refine ⟨rfl, (hfrom a ha).overlaid (hto b hb)
      (Std.TransCmp.eq_trans hakey (Std.OrientedCmp.eq_symm hbkey)) ?_
      (MergeJoin.keyOf_merge_right hspans hrschema (some a))⟩
    rw [MergeJoin.merge_both rfl hlschema hrschema]
    exact Row.byName_self (DatasetAlgebra.overlaid j.schema a b)

theorem trusts_named {tables : List (String × Table)} (hd : j.datasets = named tables)
    (ht : ∀ t ∈ tables, ∀ r ∈ t.2.rows, r.conforms) : j.Trusts := by
  rw [Trusts, hd]
  simp only [named, List.forall_mem_map]
  exact fun t hmem => t.2.honest (ht t hmem)

theorem Wired.mergeAll_drawn (hj : j.Wired) (hq : q.Within j) (ht : j.Trusts)
    (hf : q.filter.refersOnlyTo j.identifierNames) {sofar joined : Joined}
    {rest : List (String × Table)} (hd : ∀ d ∈ named rest, d ∈ j.datasets)
    (hs : sofar.Serves j q) (h : sofar.DrawnFrom j q tables)
    (hall : (j.mergeAll q sofar (named rest)).outcome = .ok joined) :
    joined.DrawnFrom j q (tables ++ rest.map Prod.snd) := by
  induction rest generalizing sofar tables with
  | nil =>
    cases hall
    simpa using h
  | cons t rest ih =>
    simp only [named, List.map_cons, List.forall_mem_cons] at hd
    obtain ⟨s, hopen, rows, hmerge, hall⟩ := mergeAll_cons_eq_ok.mp hall
    have hright := ht.openSource hd.1 hopen
    have hnext := hj.step_drawn hq hd.1 hs h hright (mem_of_openSource hopen) hmerge
      (sofar.held.register t.1 s)
    have hserves := hj.step_serves hq hf hd.1 hs hright hmerge (sofar.held.register t.1 s)
    simpa using ih hd.2 hserves hnext hall

theorem Wired.carry_drawn (hj : j.Wired) {s : RowStream} {joined : Joined}
    (hq : q.Within j) (hfirst : j.first.2 = t.toDataset)
    (h : ∀ r ∈ (s.rows ()).given, r ∈ t.rows) (hcarry : j.carry (j.start q s) = .ok joined) :
    joined.DrawnFrom j q [t] ∧ joined.schema = j.schema := by
  cases hcarry.symm.trans (hj.carry_ok s)
  refine ⟨fun x hx => ?_, rfl⟩
  rw [Rows.given_map] at hx
  obtain ⟨r, hr, rfl⟩ := List.mem_map.mp hx
  have hschema : j.first.2.schema = r.schema := by
    rw [t.bound r (h r hr), hfirst]
    rfl
  have hcarried : j.carrier.merge (some r) none = r.byName j.schema := by
    rw [RowMerger.merge_eq, carrier, hschema]
    rfl
  refine ⟨rfl, made_of_last [] (h r hr) ?_ ?_⟩
  · rw [hcarried]
    exact Row.byName_self (r.byName j.schema)
  · exact RowMerger.keyOf_merge_left hschema (hj.mem_schema_names hq)
      (covers_of_schema hschema.symm (hj.mem_names hq List.mem_cons_self))

/-- The rows of a join of tables are made of rows of the tables. -/
theorem Wired.openAll_made (hj : j.Wired) (hq : q.Within j)
    (hf : q.filter.refersOnlyTo j.identifierNames) {tables : List (String × Table)}
    (hd : j.datasets = named tables) (ht : ∀ t ∈ tables, ∀ r ∈ t.2.rows, r.conforms)
    {joined : Joined} (hopen : (j.openAll q).outcome = .ok joined) :
    ∀ x ∈ (joined.rows ()).given,
      x.schema = j.schema ∧ Made j.schema q.order (tables.map Prod.snd) x := by
  have htrusts := trusts_named hd ht
  suffices h : joined.DrawnFrom j q (tables.map Prod.snd) ∧ joined.schema = j.schema from
    fun x hx => h.2 ▸ h.1 x hx
  match tables with
  | [] => simp [datasets, named] at hd
  | t :: rest =>
    have hsub : ∀ d ∈ named rest, d ∈ j.datasets := by
      rw [hd]
      exact fun d hd => List.mem_cons_of_mem _ hd
    simp only [datasets, named, List.map_cons, List.cons.injEq] at hd
    obtain ⟨hfirst, hrest⟩ := hd
    have hfirst' : j.first.2 = t.2.toDataset := congrArg Prod.snd hfirst
    obtain ⟨s, hs, hmerged⟩ := openAll_eq_ok.mp hopen
    have hmem : ∀ r ∈ (s.rows ()).given, r ∈ t.2.rows := mem_of_openSource (hfirst' ▸ hs)
    split at hmerged
    · rename_i hnil
      obtain rfl : rest = [] := by simpa [hrest] using hnil
      exact hj.carry_drawn hq hfirst' hmem hmerged
    · rename_i hne
      have hserves := hj.start_serves hq (htrusts.openSource List.mem_cons_self hs)
      obtain ⟨-, hschema⟩ := hj.mergeAll_serves hq htrusts hf
        (fun d hd => List.mem_cons_of_mem _ hd) hserves hmerged
      rw [hrest] at hmerged
      exact ⟨hj.mergeAll_drawn hq htrusts hf hsub hserves (start_drawn hfirst' hmem) hmerged,
        hschema (by simpa using hne)⟩

theorem MadeOf.exists_dataset {tables : List (String × Table)} {sources : List (Option Row)}
    {x : Row} (h : MadeOf j.schema (tables.map Prod.snd) sources x)
    (hd : j.datasets = named tables) :
    ∀ r ∈ sources.reduceOption, ∃ d ∈ j.datasets, r.schema = d.2.schema := by
  intro r hr
  obtain ⟨t, ht, hrt⟩ := exists_left_of_forall₂ h.rows (List.reduceOption_mem_iff.mp hr)
  obtain ⟨u, hu, rfl⟩ := List.mem_map.mp ht
  exact ⟨_, mem_datasets_of_mem hd hu, u.2.bound r (hrt r rfl)⟩

/-- A row of a join of tables is made of rows of the tables, at most one of each, and agrees with
them in the keys; in another column just if they agree among themselves. -/
theorem identifiers_agree {kind : JoinKind} {tables : List (String × Table)} {names : List String}
    {j : Join} {policy : Policy} {order : SortOrder} {f : Filter} {columns : List String}
    {s : RowStream} (hj : Join.on kind (named tables) names = .ok j)
    (ht : ∀ t ∈ tables, ∀ r ∈ t.2.rows, r.conforms)
    (hread : ((j.withPolicy policy).read order f columns).outcome = .ok s) {x : Row}
    (hx : .ok x ∈ s.drain.2.1) :
    ∃ sources, MadeOf j.schema (tables.map Prod.snd) sources x ∧
      (∀ n ∈ j.identifierNames, ∀ r ∈ sources.reduceOption, Row.Agree n x r) ∧
      ∀ n, (∀ r ∈ sources.reduceOption, Row.Agree n x r) ↔
        ∀ p ∈ sources.reduceOption, ∀ r ∈ sources.reduceOption, Row.Agree n p r := by
  obtain ⟨hwired, -, hdatasets, -⟩ := wired_of_on hj
  have hwired' : (j.withPolicy policy).Wired := hwired.withPolicy policy
  obtain ⟨required, hr', hf, joined, hopen, rfl⟩ := read_eq_ok.mp hread
  let q : Request := ⟨required, f, columns⟩
  have hq : q.Within (j.withPolicy policy) := SortOrder.columns_mem_of_compatible hr'
  obtain ⟨hschema, sources, hmade, hkeys⟩ := hwired'.openAll_made hq hf hdatasets ht hopen x
    (RowStream.mem_given_of_mem_drain hx)
  rw [← hschema, Row.byName_self, hschema] at hmade
  have hdataset := hmade.exists_dataset hdatasets
  have hcovers : ∀ r ∈ sources.reduceOption, required.Covers r := fun r hr => by
    obtain ⟨d, hd, hbound⟩ := hdataset r hr
    exact covers_of_schema hbound (hwired'.mem_names hq hd)
  refine ⟨sources, hmade, fun n hn r hr => ?_, fun n => ?_⟩
  · obtain ⟨c, hc, rfl⟩ := List.mem_map.mp hn
    have hcover := covers_of_schema hschema (hwired'.mem_schema_names hq)
    exact Row.agree_of_alike (Filter.alike_of_key hcover (hcovers r hr)
      (Std.OrientedCmp.eq_symm (hkeys r hr)) c.name (SortOrder.mem_columns_of_compatible hr' hc))
  · rw [hmade.value]
    refine combined_agrees_iff n fun r hr => ?_
    obtain ⟨d, hd, hbound⟩ := hdataset r hr
    rw [hbound]
    exact hwired.mem_columns hd

/-- Tables of which the first two share an identifier that the third one lacks. -/
def sharing : List (String × Table) :=
  [("a", Table.ofInts ⟨[⟨"k", .identifier, .integer⟩, ⟨"x", .identifier, .integer⟩,
      ⟨"m", .measure, .integer⟩], by decide⟩ [1, 1, 10] rfl),
    ("b", Table.ofInts ⟨[⟨"k", .identifier, .integer⟩, ⟨"x", .identifier, .integer⟩,
      ⟨"n", .measure, .integer⟩], by decide⟩ [1, 2, 20] rfl),
    ("c", Table.ofInts ⟨[⟨"k", .identifier, .integer⟩, ⟨"p", .measure, .integer⟩], by decide⟩
      [1, 30] rfl)]

/-- The only row of the tables joined on all identifiers in common. -/
theorem identifiers_agree_sharing :
    ∃ (j : Join) (s : RowStream) (x : Row),
      Join.onCommon .inner (named sharing) = .ok j ∧
      ((j.withPolicy .standard).read .any .all []).outcome = .ok s ∧ s.drain.2.1 = [.ok x] ∧
      ∃ sources, MadeOf j.schema (sharing.map Prod.snd) sources x ∧
        (∀ n ∈ j.identifierNames, ∀ r ∈ sources.reduceOption, Row.Agree n x r) ∧
        ∀ n, (∀ r ∈ sources.reduceOption, Row.Agree n x r) ↔
          ∀ p ∈ sources.reduceOption, ∀ r ∈ sources.reduceOption, Row.Agree n p r := by
  obtain ⟨j, hj⟩ : ∃ j, Join.on .inner (named sharing) (commonNames (named sharing)) = .ok j :=
    ⟨_, rfl⟩
  obtain ⟨s, x, hread, hdrain⟩ :
      ∃ s x, ((j.withPolicy .standard).read .any .all []).outcome = .ok s ∧
        s.drain.2.1 = [.ok x] := by
    cases hj
    exact ⟨_, _, by with_unfolding_all rfl, by with_unfolding_all rfl⟩
  have hx : .ok x ∈ s.drain.2.1 := by
    rw [hdrain]
    exact List.mem_singleton_self _
  exact ⟨j, s, x, hj, hread, hdrain, identifiers_agree hj (by decide) hread hx⟩

/-- Joined on the one identifier that all have in common, the first of the tables has its value in
the other identifier overwritten, whatever the joined row is taken to be made of. -/
theorem shared_identifier_overwritten :
    ∃ (j : Join) (s : RowStream) (x : Row),
      Join.onCommon .inner (named sharing) = .ok j ∧
      (j.read .any .all []).outcome = .ok s ∧ s.drain.2.1 = [.ok x] ∧
      ∀ sources, MadeOf j.schema (sharing.map Prod.snd) sources x →
        ∃ r ∈ sources.reduceOption, ∃ c ∈ r.schema.identifiers, ¬Row.Agree c.name x r := by
  obtain ⟨j, hj⟩ : ∃ j, Join.onCommon .inner (named sharing) = .ok j := ⟨_, rfl⟩
  obtain ⟨s, x, hread, hdrain, hm, hx⟩ :
      ∃ s x, (j.read .any .all []).outcome = .ok s ∧ s.drain.2.1 = [.ok x] ∧
        x.value? "m" = some (.ofInt64 10) ∧ x.value? "x" = some (.ofInt64 2) := by
    cases hj
    exact ⟨_, _, by with_unfolding_all rfl, by with_unfolding_all rfl,
      by with_unfolding_all rfl, by with_unfolding_all rfl⟩
  refine ⟨j, s, x, hj, hread, hdrain, ?_⟩
  rintro sources ⟨hrows, -, hvalue⟩
  obtain ⟨r, hr, hrm⟩ := exists_of_value?_combined (hvalue ▸ hm) rfl
  obtain ⟨t, ht, hrt⟩ := exists_left_of_forall₂ hrows (List.reduceOption_mem_iff.mp hr)
  have hmem : r ∈ t.rows := hrt r rfl
  refine ⟨r, hr, ⟨"x", .identifier, .integer⟩, ?_⟩
  -- only the first table has a column `m`
  simp only [sharing, List.map_cons, List.map_nil, List.mem_cons, List.not_mem_nil, or_false] at ht
  rcases ht with rfl | rfl | rfl <;> cases List.mem_singleton.mp hmem
  · refine ⟨by decide, fun h => ?_⟩
    have hxr : (Value.ofInt64 2).collate (.ofInt64 1) = .eq := h _ hx _ rfl
    revert hxr
    decide
  · cases hrm
  · cases hrm

end Join
end DatasetAlgebra
