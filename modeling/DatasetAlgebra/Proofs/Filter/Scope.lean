import DatasetAlgebra.Proofs.Filter.Mentions
import DatasetAlgebra.Stream.Rows

/-!
Filters see only the columns that they list. Rows that hold the same there are judged alike, also
where the filter fails on them, so a change of rows that leaves these columns as they are may be
made before the rows are filtered or after it.
-/
namespace DatasetAlgebra
namespace Filter

variable {f : Filter}

theorem eval_congr_of_columns {p q : Row} (h : ∀ n ∈ f.columns, p.value? n = q.value? n) :
    f.eval p = f.eval q :=
  eval_congr f fun n hn => .of_eq (h n (mem_columns.mpr hn))

/-- A change of rows that a filter does not see, made before filtering or after it. All pulls show
the same and give the same, failures of the filter included. -/
theorem filterAfter_map {g : Row → Row} (h : ∀ p, f.keeps (g p) = f.keeps p) (r : Rows)
    (skipped : List Event) :
    Rows.filterAfter f skipped (r.map g) = (Rows.filterAfter f skipped r).map g := by
  induction r generalizing skipped with
  | ended e => rfl
  | poll p rest ih =>
    obtain ⟨es, item⟩ := p
    have hrest : (fun _ => Rows.filterAfter f [] ((rest ()).map g)) =
        fun _ : Unit => (Rows.filterAfter f [] (rest ())).map g := funext fun _ => ih () []
    match item with
    | none => exact congrArg (Rows.poll _) hrest
    | some (.error e) => exact congrArg (Rows.poll _) hrest
    | some (.ok row) =>
      have hmap : (Rows.poll ⟨es, some (.ok row)⟩ rest).map g =
        .poll ⟨es, some (.ok (g row))⟩ fun _ => (rest ()).map g := rfl
      rw [hmap]
      cases hkeeps : f.keeps row with
      | error e =>
        simp only [Rows.filterAfter, h row, hkeeps, hrest]
        rfl
      | ok keep =>
        cases keep with
        | true =>
          simp only [Rows.filterAfter, h row, hkeeps, hrest]
          rfl
        | false =>
          simp only [Rows.filterAfter, h row, hkeeps]
          exact ih () (skipped ++ es)

/-- Rows, of whatever schemas, that hold the same under the columns of a filter come to the same
truth value or failure, by themselves and in a sequence that is filtered. -/
theorem sees_own_columns (f : Filter) :
    (∀ p q : Row, (∀ n ∈ f.columns, p.value? n = q.value? n) →
      f.eval p = f.eval q ∧ f.keeps p = f.keeps q) ∧
    ∀ names, f.refersOnlyTo names →
      (∀ p q : Row, (∀ n ∈ names, p.value? n = q.value? n) → f.keeps p = f.keeps q) ∧
      ∀ g : Row → Row, (∀ p, ∀ n ∈ names, (g p).value? n = p.value? n) →
        ∀ r : Rows, (r.map g).filter f = (r.filter f).map g := by
  refine ⟨fun p q h => ?_, fun names hf => ⟨fun p q h => keeps_congr hf h, fun g hg r => ?_⟩⟩
  · have heval : f.eval p = f.eval q := eval_congr_of_columns h
    exact ⟨heval, by rw [keeps, keeps, heval]⟩
  · exact filterAfter_map (fun p => keeps_congr hf (hg p)) r []

namespace Widened

def sold : Row := ⟨⟨[⟨"n", .measure, .integer⟩], by decide⟩, [.ofInt64 7], rfl⟩

/-- The same row with a column in front. -/
def placed : Row :=
  ⟨⟨[⟨"shop", .identifier, .string⟩, ⟨"n", .measure, .integer⟩], by decide⟩,
    [.ofString "north", .ofInt64 7], rfl⟩

/-- The first term is false of seven, and the second compares it with a text. -/
def mistaken : Filter :=
  .or [.compare "n" .gt (.ofInt64 10), .not (.compare "n" .eq (.ofString "many"))]

/-- A filter that fails on a row fails alike on the wider one. -/
theorem mistaken_alike :
    (∀ n ∈ mistaken.columns, sold.value? n = placed.value? n) ∧
      mistaken.keeps sold = mistaken.keeps placed ∧
      mistaken.keeps placed = .error (.operands "compare" .integer .string) := by
  have hvalues : ∀ n ∈ mistaken.columns, sold.value? n = placed.value? n := by
    intro n hn
    obtain rfl : n = "n" := by simpa [mem_columns, mistaken, mentions, mentionsAll] using hn
    rfl
  exact ⟨hvalues, ((sees_own_columns mistaken).1 sold placed hvalues).2, rfl⟩

end Widened
end Filter
end DatasetAlgebra
