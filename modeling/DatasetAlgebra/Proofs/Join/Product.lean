import DatasetAlgebra.Proofs.Join.RowJoin

/-!
The rows of one key in closed form. Of groups of rows, one of each dataset, those that are not
empty contribute one row each to every joined row. The kind of the join decides from which groups
there are rows at all, and joining one more group extends what the groups before contribute.
-/
namespace DatasetAlgebra

/-- All ways to choose one item of each list, those of the first list changing least often. -/
def choices {α : Type} : List (List α) → List (List α)
  | [] => [[]]
  | l :: rest => l.flatMap fun a => (choices rest).map (a :: ·)

theorem choices_append_singleton {α : Type} (ls : List (List α)) (l : List α) :
    choices (ls ++ [l]) = (choices ls).flatMap fun as => l.map fun a => as ++ [a] := by
  induction ls with
  | nil => simp [choices, List.map_eq_flatMap]
  | cons m ls ih =>
    simp [choices, ih, List.flatMap_assoc, List.map_flatMap, List.flatMap_map, Function.comp_def]

theorem choices_ne_nil {α : Type} {ls : List (List α)} (h : ∀ l ∈ ls, l ≠ []) :
    choices ls ≠ [] := by
  induction ls with
  | nil => simp [choices]
  | cons l ls ih =>
    rw [List.forall_mem_cons] at h
    obtain ⟨a, l', rfl⟩ := List.exists_cons_of_ne_nil h.1
    simp [choices, ih h.2]

namespace JoinKind

variable {α : Type}

/-- Whether rows are joined from groups, one of each dataset. -/
def emits (kind : JoinKind) (groups : List (List α)) : Bool :=
  match kind with
  | .inner => groups.all fun g => !g.isEmpty
  | .outer => groups.any fun g => !g.isEmpty
  | .left => groups.head?.any fun g => !g.isEmpty

/-- The rows that contribute to each joined row, in the order of the datasets. -/
def contributors (kind : JoinKind) (groups : List (List α)) : List (List α) :=
  if kind.emits groups then choices (groups.filter fun g => !g.isEmpty) else []

theorem contributors_eq_nil {kind : JoinKind} {groups : List (List α)} :
    kind.contributors groups = [] ↔ kind.emits groups = false := by
  unfold contributors
  cases kind.emits groups with
  | false => simp
  | true =>
    have hne : choices (groups.filter fun g => !g.isEmpty) ≠ [] :=
      choices_ne_nil fun g hg => by simpa using (List.mem_filter.mp hg).2
    simp [hne]

theorem contributors_singleton (kind : JoinKind) (g : List α) :
    kind.contributors [g] = g.map fun a => [a] := by
  have hemits : kind.emits [g] = !g.isEmpty := by cases kind <;> simp [emits]
  rw [contributors, hemits]
  cases g <;> simp [choices, List.map_eq_flatMap]

/-- What joining one more group makes of contributors: as a merge join does it with rows. -/
def extend (kind : JoinKind) : List (List α) → List α → List (List α)
  | [], group => if kind.keepsRight then group.map fun b => [b] else []
  | sofar, [] => if kind.keepsLeft then sofar else []
  | sofar, group => sofar.flatMap fun as => group.map fun b => as ++ [b]

theorem extend_nil_right (kind : JoinKind) (sofar : List (List α)) :
    kind.extend sofar [] = if kind.keepsLeft then sofar else [] := by
  cases sofar <;> simp [extend]

theorem extend_of_ne_nil (kind : JoinKind) {sofar : List (List α)} {g : List α} (hs : sofar ≠ [])
    (hg : g ≠ []) :
    kind.extend sofar g = sofar.flatMap fun as => g.map fun b => as ++ [b] := by
  obtain ⟨as, sofar, rfl⟩ := List.exists_cons_of_ne_nil hs
  obtain ⟨b, g, rfl⟩ := List.exists_cons_of_ne_nil hg
  rfl

/-- A further group matters to what is joined as the kind has it. -/
theorem emits_append {kind : JoinKind} {groups : List (List α)} (hne : groups ≠ []) (g : List α) :
    kind.emits (groups ++ [g]) =
      if kind.emits groups then !g.isEmpty || kind.keepsLeft
      else !g.isEmpty && kind.keepsRight := by
  cases kind with
  | inner =>
    have h : inner.emits (groups ++ [g]) = (inner.emits groups && !g.isEmpty) := by
      simp [emits, List.all_append]
    rw [h]
    cases inner.emits groups <;> simp [keepsLeft, keepsRight]
  | outer =>
    have h : outer.emits (groups ++ [g]) = (outer.emits groups || !g.isEmpty) := by
      simp [emits, List.any_append]
    rw [h]
    cases outer.emits groups <;> simp [keepsLeft, keepsRight]
  | left =>
    obtain ⟨first, groups, rfl⟩ := List.exists_cons_of_ne_nil hne
    have h : left.emits (first :: groups ++ [g]) = left.emits (first :: groups) := rfl
    rw [h]
    cases left.emits (first :: groups) <;> simp [keepsLeft, keepsRight]

theorem contributors_append {kind : JoinKind} {groups : List (List α)} (hne : groups ≠ [])
    (g : List α) :
    kind.contributors (groups ++ [g]) = kind.extend (kind.contributors groups) g := by
  have hemits := kind.emits_append hne g
  cases he : kind.emits groups with
  | false =>
    have hnil : kind.contributors groups = [] := contributors_eq_nil.mpr he
    rw [hnil, extend, contributors, hemits, he]
    cases kind with
    | inner | left => simp [keepsRight]
    | outer =>
      have hempty : groups.filter (fun g => !g.isEmpty) = [] := by
        simpa [emits, List.filter_eq_nil_iff] using he
      by_cases hg : g = []
      · simp [hg]
      · simp [keepsRight, hg, List.filter_append, hempty, choices, List.map_eq_flatMap]
  | true =>
    have hsome : kind.contributors groups = choices (groups.filter fun g => !g.isEmpty) := by
      rw [contributors, if_pos he]
    by_cases hg : g = []
    · subst hg
      rw [extend_nil_right, contributors, hemits, he, hsome]
      simp
    · have hne : kind.contributors groups ≠ [] := by
        rw [Ne, contributors_eq_nil, he]
        simp
      rw [extend_of_ne_nil kind hne hg, hsome, contributors, hemits, he]
      simp [hg, List.filter_append, choices_append_singleton]

end JoinKind

/-- The value of the last row that has a column of a name. -/
def lastValue? (rows : List Row) (name : String) : Option Value :=
  rows.reverse.findSome? fun r => r.value? name

/-- One row of several: a column has the value of the last row that declares it, or is null. -/
def combined (out : Schema) (rows : List Row) : Row :=
  .byColumn out fun c => (lastValue? rows c.name).getD c.null

/-- A row over another one, whose values show where it has none. -/
def overlaid (out : Schema) (lower upper : Row) : Row :=
  .byColumn out fun c => ((upper.value? c.name).or (lower.value? c.name)).getD c.null

theorem combined_singleton (out : Schema) (r : Row) : combined out [r] = r.byName out := by
  simp [combined, lastValue?, Row.byName_eq]

theorem byName_combined (out : Schema) (rows : List Row) :
    (combined out rows).byName out = combined out rows := Row.byName_self (combined out rows)

theorem lastValue?_append_singleton (rows : List Row) (r : Row) (name : String) :
    lastValue? (rows ++ [r]) name = (r.value? name).or (lastValue? rows name) := by
  rw [lastValue?, List.reverse_append, List.reverse_singleton, List.singleton_append,
    List.findSome?_cons]
  cases r.value? name <;> rfl

theorem getD_or_getD (upper lower : Option Value) (v : Value) :
    (upper.or (some (lower.getD v))).getD v = (upper.or lower).getD v := by
  cases upper <;> rfl

theorem overlaid_byName (out : Schema) (lower upper : Row) :
    overlaid out (lower.byName out) upper = overlaid out lower upper :=
  Row.byColumn_congr fun c hc => by
    rw [Row.byName_eq, Row.value?_byColumn_of_mem _ hc, getD_or_getD]

theorem combined_append_singleton (out : Schema) (rows : List Row) (r : Row) :
    combined out (rows ++ [r]) = overlaid out (combined out rows) r :=
  Row.byColumn_congr fun c hc => by
    rw [combined, Row.value?_byColumn_of_mem _ hc, getD_or_getD, lastValue?_append_singleton]

namespace MergeJoin

variable {m : MergeJoin} {ls rs out : Schema} {left right : List Row}

theorem merge_left (hm : m.merger = ⟨ls, some rs, out⟩) {a : Row} (ha : a.schema = ls) :
    m.merger.merge (some a) none = a.byName out := by
  subst ha
  rw [hm]
  rfl

theorem merge_right (hm : m.merger = ⟨ls, some rs, out⟩) {b : Row} (hb : b.schema = rs) :
    m.merger.merge none (some b) = b.byName out := by
  subst hb
  rw [hm, RowMerger.merge_eq, Row.byName_eq]
  refine Row.byColumn_congr fun c _ => ?_
  simp only [RowMerger.value, RowMerger.sideValue?_self]
  cases b.value? c.name <;> rfl

theorem merge_both (hm : m.merger = ⟨ls, some rs, out⟩) {a b : Row} (ha : a.schema = ls)
    (hb : b.schema = rs) : m.merger.merge (some a) (some b) = overlaid out a b := by
  subst ha hb
  rw [hm]
  rfl

/-- The joined rows of one key, made of the contributors to the left rows and of the right rows. -/
theorem block_eq (hm : m.merger = ⟨ls, some rs, out⟩) (hl : ∀ r ∈ left, r.schema = ls)
    (hr : ∀ r ∈ right, r.schema = rs) {sofar : List (List Row)}
    (h : left.map (·.byName out) = sofar.map (combined out)) :
    m.matching.block left right = (m.kind.extend sofar right).map (combined out) := by
  by_cases hleft : left = []
  · subst hleft
    have hsofar : sofar = [] := List.map_eq_nil_iff.mp h.symm
    rw [hsofar, Matching.block, JoinKind.extend, keepsRight_matching]
    split
    · rw [List.map_map]
      refine List.map_congr_left fun b hb => ?_
      rw [merge_matching, merge_right hm (hr b hb), ← combined_singleton]
      rfl
    · rfl
  have hsofar : sofar ≠ [] := fun hnil => hleft (by simpa [hnil] using h)
  by_cases hright : right = []
  · subst hright
    rw [Matching.block_nil_right, JoinKind.extend_nil_right, keepsLeft_matching]
    split
    · rw [← h]
      exact List.map_congr_left fun a ha => merge_left hm (hl a ha)
    · rfl
  · rw [m.matching.block_of_ne_nil hleft hright, JoinKind.extend_of_ne_nil m.kind hsofar hright]
    calc left.flatMap (fun a => right.map fun b => m.merger.merge (some a) (some b))
        = left.flatMap fun a => right.map (overlaid out (a.byName out)) := by
          refine List.flatMap_congr fun a ha => List.map_congr_left fun b hb => ?_
          rw [merge_both hm (hl a ha) (hr b hb), overlaid_byName]
      _ = (left.map (·.byName out)).flatMap fun a => right.map (overlaid out a) := by
          rw [List.flatMap_map]
      _ = (sofar.flatMap fun as => right.map fun b => as ++ [b]).map (combined out) := by
          rw [h, List.flatMap_map, List.map_flatMap]
          refine List.flatMap_congr fun as _ => ?_
          rw [List.map_map]
          exact List.map_congr_left fun b _ => (combined_append_singleton out as b).symm

end MergeJoin

namespace Join

/-- The joined rows of one key. -/
def rowsAt (kind : JoinKind) (out : Schema) (groups : List (List Row)) : List Row :=
  (kind.contributors groups).map (combined out)

end Join

end DatasetAlgebra
