import DatasetAlgebra.Proofs.Filter.Mentions
import DatasetAlgebra.Proofs.Join.Folding

/-!
A join of honest datasets is honest. A merged row has the key of one of its rows,
and so it passes the filter as that row does.
-/
namespace DatasetAlgebra

namespace RowMerger

theorem type_of_sideValue? {s out : Schema} {r : Option Row} {c : Column} {v : Value}
    (hr : ∀ a ∈ r, a.schema = s ∧ a.conforms) (hsub : ∀ d ∈ s.columns, d ∈ out.columns)
    (hc : c ∈ out.columns) (hv : sideValue? (some s) r c.name = some v) : v.type = c.type := by
  cases r with
  | none => simp [sideValue?] at hv
  | some a =>
    obtain ⟨rfl, hconforms⟩ := hr a rfl
    exact (Row.type_eq_of_value? hconforms hsub hc hv).symm

theorem conforms_merge {m : RowMerger} {l r : Option Row}
    (hsub : ∀ c ∈ m.left.columns, c ∈ m.output.columns)
    (hl : ∀ a ∈ l, a.schema = m.left ∧ a.conforms)
    (hr : ∀ b ∈ r, m.right = some b.schema ∧ b.conforms ∧
      ∀ c ∈ b.schema.columns, c ∈ m.output.columns) : (m.merge l r).conforms := by
  rw [merge_eq]
  refine Row.conforms_byColumn fun c hc => ?_
  rw [value]
  cases hright : sideValue? m.right r c.name with
  | some v =>
    cases r with
    | none => cases hm : m.right <;> simp [sideValue?, hm] at hright
    | some b =>
      obtain ⟨hm, hconforms, hsubR⟩ := hr b rfl
      rw [hm, sideValue?_self] at hright
      exact (Row.type_eq_of_value? hconforms hsubR hc hright).symm
  | none =>
    cases hleft : sideValue? (some m.left) l c.name with
    | some v => exact type_of_sideValue? hl hsub hc hleft
    | none => rfl

variable {m : RowMerger} {f : Filter} {names : List String}

/-- A merged row is kept as its right row is, or as its left row if it has no other. -/
theorem keeps_merge_right (hf : f.refersOnlyTo names) (hout : ∀ n ∈ names, n ∈ m.output.names)
    (l : Option Row) {b : Row} (hm : m.right = some b.schema)
    (hnames : ∀ n ∈ names, n ∈ b.schema.names) : f.keeps (m.merge l (some b)) = f.keeps b :=
  Filter.keeps_congr hf fun n hn => value?_merge_right hm (hout n hn)
    (Row.value?_isSome_iff.mpr (hnames n hn))

theorem keeps_merge_left (hf : f.refersOnlyTo names) (hout : ∀ n ∈ names, n ∈ m.output.names)
    (hnames : ∀ n ∈ names, n ∈ m.left.names) {a : Row} (ha : a.schema = m.left) :
    f.keeps (m.merge (some a) none) = f.keeps a :=
  Filter.keeps_congr hf fun n hn => value?_merge_left ha.symm (hout n hn)
    (Row.value?_isSome_iff.mpr (ha ▸ hnames n hn))

end RowMerger

namespace MergeJoin

variable {m : MergeJoin} {rs : Schema} {f : Filter} {names : List String}

theorem joined_fulfils (hm : m.Spans rs) {left right : List Row}
    (hsubL : ∀ c ∈ m.merger.left.columns, c ∈ m.merger.output.columns)
    (hsubR : ∀ c ∈ rs.columns, c ∈ m.merger.output.columns) (hf : f.refersOnlyTo names)
    (hout : ∀ n ∈ names, n ∈ m.merger.output.names)
    (hnamesL : ∀ n ∈ names, n ∈ m.merger.left.names) (hnamesR : ∀ n ∈ names, n ∈ rs.names)
    (hl : Fulfils m.merger.left m.order f left) (hr : Fulfils rs m.order f right) :
    Fulfils m.merger.output m.order f (m.joined left right) := by
  have hbound : ∀ r ∈ m.joined left right, r.schema = m.merger.output := fun r hr => by
    rcases mem_joined hr with ⟨a, -, rfl⟩ | ⟨b, -, l, -, rfl⟩ <;> rfl
  refine ⟨hbound, fun r hmem => ?_, ?_, fun r hmem => ?_⟩
  · rcases mem_joined hmem with ⟨a, ha, rfl⟩ | ⟨b, hb, l, hmemL, rfl⟩
    · exact RowMerger.conforms_merge hsubL (by simpa using ⟨hl.bound a ha, hl.conforms a ha⟩)
        (by simp)
    · refine RowMerger.conforms_merge hsubL (fun a ha => ?_) fun b' hb' => ?_
      · exact ⟨hl.bound a (hmemL a ha), hl.conforms a (hmemL a ha)⟩
      · cases hb'
        rw [hr.bound b hb]
        exact ⟨hm.right, hr.conforms b hb, hsubR⟩
  · have hsorted := sorted_joined hm hl.bound hr.bound (hl.sorted hm.ofLeft) (hr.sorted hm.ofRight)
    exact (SortOrder.sorted_iff fun r hr => covers_of_schema (hbound r hr) hm.ofOutput).mp hsorted
  · rcases mem_joined hmem with ⟨a, ha, rfl⟩ | ⟨b, hb, l, -, rfl⟩
    · rw [RowMerger.keeps_merge_left hf hout hnamesL (hl.bound a ha)]
      exact hl.kept a ha
    · have hschema := hr.bound b hb
      rw [RowMerger.keeps_merge_right hf hout l (hschema ▸ hm.right) (hschema ▸ hnamesR)]
      exact hr.kept b hb

end MergeJoin

namespace Join

variable {j : Join} {q : Request} {d : String × Dataset}

/-- Rows that can be joined further and are as asked for. -/
structure Joined.Serves (sofar : Joined) (j : Join) (q : Request) : Prop where
  ready : sofar.Ready j q
  names : ∀ n ∈ j.identifierNames, n ∈ sofar.schema.names
  rows : Fulfils sofar.schema q.order q.filter (sofar.rows ()).flow

/-- All datasets of the join are honest. -/
def Trusts (j : Join) : Prop := ∀ d ∈ j.datasets, d.2.Honest

theorem Wired.identifier_mem_names (hj : j.Wired) (hd : d ∈ j.datasets) :
    ∀ n ∈ j.identifierNames, n ∈ d.2.schema.names := by
  intro n hn
  obtain ⟨c, hc, rfl⟩ := List.mem_map.mp hn
  exact List.mem_map_of_mem (hj.shared d hd c hc)

theorem Wired.identifier_mem_schema (hj : j.Wired) :
    ∀ n ∈ j.identifierNames, n ∈ j.schema.names := by
  intro n hn
  obtain ⟨c, hc, rfl⟩ := List.mem_map.mp hn
  have hfirst : j.first ∈ j.datasets := List.mem_cons_self
  exact List.mem_map_of_mem (hj.mem_columns hfirst c (hj.shared _ hfirst c hc))

theorem Trusts.openSource (ht : j.Trusts) (hd : d ∈ j.datasets) {s : RowStream}
    (h : (j.openSource q d.2).outcome = .ok s) :
    Fulfils d.2.schema q.order q.filter (s.rows ()).flow := by
  unfold Join.openSource at h
  split at h
  · cases h
  · rename_i order honto
    have hrows := ((ht d hd).request_fulfils h).2
    exact hrows.ordered ((SortOrder.onto_spec honto).1 ▸ List.prefix_rfl)

theorem Wired.start_serves (hj : j.Wired) (hq : q.Within j) {s : RowStream}
    (h : Fulfils j.first.2.schema q.order q.filter (s.rows ()).flow) :
    (j.start q s).Serves j q where
  ready := hj.ready_start hq h.bound
  names := hj.identifier_mem_names List.mem_cons_self
  rows := h

theorem Wired.step_serves (hj : j.Wired) (hq : q.Within j)
    (hf : q.filter.refersOnlyTo j.identifierNames) (hd : d ∈ j.datasets) {sofar : Joined}
    (h : sofar.Serves j q) {right rows : Delayed Rows}
    (hright : Fulfils d.2.schema q.order q.filter (right ()).flow)
    (hmerge : j.mergeWith q sofar d.1 d.2.schema right = .ok rows) (held : ReleaseStack) :
    Joined.Serves ⟨j.schema, KeyReader.byName j.schema q.order, rows, held⟩ j q := by
  obtain ⟨rows', hmerge', hprefix, -⟩ := hj.mergeWith_ok hq hd h.ready hright.bound
  cases hmerge.symm.trans hmerge'
  have hleft := h.rows.sublist (sofar.rows ()).collect_rows_prefix_flow.sublist
  have hright' := hright.sublist (right ()).collect_rows_prefix_flow.sublist
  have hjoined := MergeJoin.joined_fulfils (hj.spans hq hd h.ready) h.ready.columns
    (hj.mem_columns hd) hf hj.identifier_mem_schema h.names (hj.identifier_mem_names hd) hleft
    hright'
  exact ⟨hj.ready_step hq held hprefix, hj.identifier_mem_schema, hjoined.sublist hprefix.sublist⟩

theorem Wired.mergeAll_serves (hj : j.Wired) (hq : q.Within j) (ht : j.Trusts)
    (hf : q.filter.refersOnlyTo j.identifierNames) {sofar joined : Joined}
    {rest : List (String × Dataset)} (hd : ∀ d ∈ rest, d ∈ j.datasets) (h : sofar.Serves j q)
    (hall : (j.mergeAll q sofar rest).outcome = .ok joined) :
    joined.Serves j q ∧ (rest ≠ [] → joined.schema = j.schema) := by
  induction rest generalizing sofar with
  | nil =>
    cases hall
    exact ⟨h, by simp⟩
  | cons d rest ih =>
    rw [List.forall_mem_cons] at hd
    obtain ⟨s, hopen, rows, hmerge, hall⟩ := mergeAll_cons_eq_ok.mp hall
    have hnext := hj.step_serves hq hf hd.1 h (ht.openSource hd.1 hopen) hmerge
      (sofar.held.register d.1 s)
    obtain ⟨hserves, hschema⟩ := ih hd.2 hnext hall
    refine ⟨hserves, fun _ => ?_⟩
    cases rest with
    | nil =>
      cases hall
      rfl
    | cons e rest => exact hschema (by simp)

theorem Wired.carry_fulfils (hj : j.Wired) (hq : q.Within j)
    (hf : q.filter.refersOnlyTo j.identifierNames) {s : RowStream} {joined : Joined}
    (h : Fulfils j.first.2.schema q.order q.filter (s.rows ()).flow)
    (hcarry : j.carry (j.start q s) = .ok joined) :
    Fulfils j.schema q.order q.filter (joined.rows ()).flow := by
  cases hcarry.symm.trans (hj.carry_ok s)
  let carried (r : Row) : Row := j.carrier.merge (some r) none
  have hout := hj.mem_schema_names hq
  show Fulfils j.schema q.order q.filter ((s.rows ()).map carried).flow
  rw [Rows.flow_map]
  have hbound : ∀ r ∈ (s.rows ()).flow.map carried, r.schema = j.schema := by
    simp only [List.forall_mem_map]
    exact fun _ _ => rfl
  have hsorted : q.order.Sorted ((s.rows ()).flow.map carried) := by
    have hnames := hj.mem_names hq List.mem_cons_self
    refine List.pairwise_map.mpr ((h.sorted hnames).imp_of_mem fun {a b} ha hb hab => ?_)
    have hkey (r : Row) (hr : r ∈ (s.rows ()).flow) :
        q.order.keyOf (carried r) = q.order.keyOf r :=
      RowMerger.keyOf_merge_left (h.bound r hr).symm hout (covers_of_schema (h.bound r hr) hnames)
    rwa [hkey a ha, hkey b hb]
  refine ⟨hbound, ?_, ?_, ?_⟩
  · simp only [List.forall_mem_map]
    refine fun r hr => RowMerger.conforms_merge (hj.mem_columns List.mem_cons_self) ?_ (by simp)
    simpa using ⟨h.bound r hr, h.conforms r hr⟩
  · exact (SortOrder.sorted_iff fun r hr => covers_of_schema (hbound r hr) hout).mp hsorted
  · simp only [List.forall_mem_map]
    intro r hr
    rw [RowMerger.keeps_merge_left hf hj.identifier_mem_schema
      (hj.identifier_mem_names List.mem_cons_self) (h.bound r hr)]
    exact h.kept r hr

theorem Wired.openAll_fulfils (hj : j.Wired) (hq : q.Within j) (ht : j.Trusts)
    (hf : q.filter.refersOnlyTo j.identifierNames) {joined : Joined}
    (h : (j.openAll q).outcome = .ok joined) :
    Fulfils j.schema q.order q.filter (joined.rows ()).flow := by
  obtain ⟨s, hopen, hrest⟩ := openAll_eq_ok.mp h
  have hfirst := ht.openSource List.mem_cons_self hopen
  split at hrest
  · exact hj.carry_fulfils hq hf hfirst hrest
  · rename_i hne
    obtain ⟨hserves, hschema⟩ := hj.mergeAll_serves hq ht hf
      (fun d hd => List.mem_cons_of_mem _ hd) (hj.start_serves hq hfirst) hrest
    rw [← hschema (by simpa using hne)]
    exact hserves.rows

theorem Wired.honest (hj : j.Wired) (ht : j.Trusts) : j.toDataset.Honest := by
  intro order f columns s h
  obtain ⟨required, hr, hf, joined, hopen, rfl⟩ := read_eq_ok.mp h
  have hq : Request.Within ⟨required, f, columns⟩ j := SortOrder.columns_mem_of_compatible hr
  exact ⟨rfl, rfl, rfl, .inl rfl, hj.mem_schema_names hq, hj.openAll_fulfils hq ht hf hopen⟩

end Join

end DatasetAlgebra
