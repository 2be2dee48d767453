import DatasetAlgebra.Stream.Feed

/-!
Silent sequences: nothing is seen of pulls on them. What is made of silent sequences is silent.
-/
namespace DatasetAlgebra

namespace Rows

/-- Nothing is seen of any pull. -/
def Silent : Rows → Prop
  | .ended e => e.events = []
  | .poll p rest => p.events = [] ∧ (rest ()).Silent

theorem seen_eq_nil {e : Ending} (h : e.events = []) : e.seen = [] := by
  simp [Ending.seen, h]

theorem silent_last (item : Option (Except Error Row)) : (last ⟨[], item⟩).Silent := ⟨rfl, rfl⟩

theorem Silent.next {r : Rows} (h : r.Silent) : r.next.1.events = [] ∧ (r.next.2 ()).Silent := by
  cases r with
  | ended e => exact ⟨seen_eq_nil h, h⟩
  | poll p rest => exact h

theorem silent_prepend {polls : List Poll} {r : Delayed Rows} (hp : ∀ p ∈ polls, p.events = [])
    (hr : (r ()).Silent) : (prepend polls r).Silent := by
  induction polls with
  | nil => exact hr
  | cons p polls ih =>
    rw [List.forall_mem_cons] at hp
    exact ⟨hp.1, ih hp.2⟩

theorem silent_ofRows (rows : List Row) : (ofRows rows).Silent :=
  silent_prepend (by simp) rfl

theorem Silent.map {r : Rows} (h : r.Silent) (f : Row → Row) : (r.map f).Silent := by
  induction r with
  | ended e => exact h
  | poll p rest ih => exact ⟨h.1, ih () h.2⟩

theorem Silent.filter {r : Rows} (h : r.Silent) (f : Filter) : (r.filter f).Silent := by
  unfold Rows.filter
  induction r with
  | ended e => exact ⟨seen_eq_nil h, h⟩
  | poll p rest ih =>
    obtain ⟨es, item⟩ := p
    obtain ⟨rfl, hrest⟩ := h
    match item with
    | none => exact ⟨rfl, ih () hrest⟩
    | some (.error e) => exact ⟨rfl, ih () hrest⟩
    | some (.ok r) =>
      unfold filterAfter
      simp only
      split
      · exact ⟨rfl, ih () hrest⟩
      · exact ih () hrest
      · exact ⟨rfl, ih () hrest⟩

end Rows

namespace Feed

variable {α : Type}

/-- Nothing is seen of any pull. -/
def Silent : Feed α → Prop
  | .item es _ rest => es = [] ∧ (rest ()).Silent
  | .stop es _ => es = []

@[simp] theorem silent_item (es : List Event) (a : α) (rest : Unit → Feed α) :
    (item es a rest).Silent ↔ es = [] ∧ (rest ()).Silent := .rfl
@[simp] theorem silent_stop (es : List Event) (e : Option Error) :
    (stop es e : Feed α).Silent ↔ es = [] := .rfl

theorem Silent.toRows {f : Feed (List Row)} (h : f.Silent) : f.toRows.Silent := by
  unfold Feed.toRows
  induction f with
  | stop es failure =>
    cases h
    cases failure <;> exact Rows.silent_last _
  | item es batch rest ih =>
    obtain ⟨rfl, hrest⟩ := h
    cases batch with
    | nil => exact ih () hrest
    | cons r rows => exact ⟨rfl, Rows.silent_prepend (by simp) (ih () hrest)⟩

end Feed
end DatasetAlgebra
