import DatasetAlgebra.Proofs.Join.Classwise
import DatasetAlgebra.Proofs.Join.Pulls
import DatasetAlgebra.Proofs.Join.Sides

/-!
A merge join gives a beginning of the classwise join of its sides, and all of it unless it fails.
Where a side fails, this is so whatever might have followed in the place of the failure.
-/
namespace DatasetAlgebra

/-- A list that a feed gives, or begins if it fails. -/
def Feed.Continues {α : Type} (f : Feed α) (whole : List α) : Prop :=
  f.items <+: whole ∧ (f.failure = none → whole = f.items)

namespace Feed

variable {α : Type} {f : Feed α} {whole : List α}

theorem continues_items (f : Feed α) : f.Continues f.items := ⟨List.prefix_rfl, fun _ => rfl⟩

theorem continues_item_iff {es : List Event} {a : α} {rest : Unit → Feed α} :
    (item es a rest).Continues whole ↔ ∃ more, whole = a :: more ∧ (rest ()).Continues more := by
  simp only [Continues, items_item, failure, List.cons_prefix_iff]
  constructor
  · rintro ⟨⟨more, rfl, hprefix⟩, hall⟩
    exact ⟨more, rfl, hprefix, fun h => List.tail_eq_of_cons_eq (hall h)⟩
  · rintro ⟨more, rfl, hprefix, hall⟩
    exact ⟨⟨more, rfl, hprefix⟩, fun h => congrArg (a :: ·) (hall h)⟩

theorem Continues.eq_nil {es : List Event} (h : (stop es none : Feed α).Continues whole) :
    whole = [] := h.2 rfl

theorem Continues.peeked (h : f.Continues whole) : f.peeked.Continues whole := by
  cases f <;> exact h

/-- The leading items of a list are those of a feed that it continues, and the rest continues the
feed behind them, unless the feed fails before it is seen where they end. -/
theorem Continues.split (h : f.Continues whole) (p : α → Bool) :
    (whole.takeWhile p = (f.split p).lead ∧ (f.split p).beyond.Continues (whole.dropWhile p)) ∨
      (∃ es e, (f.split p).beyond = .stop es (some e)) ∧
        (f.split p).lead <+: whole.takeWhile p := by
  induction f generalizing whole with
  | item es a rest ih =>
    obtain ⟨more, rfl, hmore⟩ := continues_item_iff.mp h
    by_cases ha : p a
    · simpa [Feed.split, ha, List.takeWhile_cons, List.dropWhile_cons] using ih () hmore
    · left
      simpa [Feed.split, ha, List.takeWhile_cons, List.dropWhile_cons] using h
  | stop es e =>
    cases e with
    | none =>
      obtain rfl := h.eq_nil
      exact .inl ⟨rfl, h⟩
    | some e => exact .inr ⟨⟨es, e, rfl⟩, List.nil_prefix⟩

end Feed

namespace Matching

theorem join_held {m : Matching} {run : Option Run} {r : Run} {a : KeyedRow}
    (h : m.runFor run a = some r) (es : List Event) (left : Unit → Feed KeyedRow)
    (right : Feed KeyedRow) :
    m.join run (.item es a left) right =
      .item es (m.matched r a) fun _ => m.join run (left ()) right := by
  match right with
  | .stop _ (some _) | .stop _ none | .item _ _ _ => simp only [join, h]

theorem join_free {m : Matching} {run : Option Run} {a : KeyedRow} (h : m.runFor run a = none)
    (es : List Event) (left : Unit → Feed KeyedRow) (right : Feed KeyedRow) :
    m.join run (.item es a left) right = m.join none (.item es a left) right := by
  have hnone : m.runFor none a = none := rfl
  match right with
  | .stop _ (some _) | .stop _ none | .item _ _ _ => simp only [join, h, hnone]

/-- While a run is held, left rows of its key are matched with it; then the join goes on without
it. -/
theorem join_run (m : Matching) (run : Run) (left right : Feed KeyedRow) :
    let s := left.split fun a => m.order.sameKey a.key run.key
    (m.join (some run) left right).items.flatten =
        s.lead.flatMap (m.matched run) ++ (m.join none s.beyond right).items.flatten ∧
      (m.join (some run) left right).failure = (m.join none s.beyond right).failure := by
  induction left with
  | stop es failure =>
    have h : m.join (some run) (.stop es failure) right =
        m.join none (.stop es failure) right := by
      cases failure <;> cases right <;> simp only [join]
    simp [Feed.split, h]
  | item es a rest ih =>
    by_cases h : m.order.sameKey a.key run.key
    · have hrun : m.runFor (some run) a = some run := by simp [runFor, h]
      rw [join_held hrun]
      simpa [Feed.split, h, Feed.failure] using ih ()
    · have hrun : m.runFor (some run) a = none := by simp [runFor, h]
      simp [Feed.split, h, join_free hrun]

variable {m : Matching}

/-- The keys of rows have the length of the keys of the order. -/
def Fit (m : Matching) (rows : List KeyedRow) : Prop := ∀ x ∈ rows, m.order.Fits x.key

theorem Fit.sublist {rows more : List KeyedRow} (h : m.Fit rows) (hs : more.Sublist rows) :
    m.Fit more := fun x hx => h x (hs.subset hx)

theorem takeWhile_sameKey {a : KeyedRow} {rows : List KeyedRow} (ha : m.order.Fits a.key)
    (h : m.Fit rows) :
    rows.takeWhile (fun c => m.order.sameKey c.key a.key) =
        rows.takeWhile (sameAs m.cmp KeyedRow.key a.key) ∧
      rows.dropWhile (fun c => m.order.sameKey c.key a.key) =
        rows.dropWhile (sameAs m.cmp KeyedRow.key a.key) := by
  induction rows with
  | nil => exact ⟨rfl, rfl⟩
  | cons c rows ih =>
    simp only [Fit, List.forall_mem_cons] at h
    have hc : m.order.sameKey c.key a.key = sameAs m.cmp KeyedRow.key a.key c := by
      simp [SortOrder.sameKey, SortOrder.compareKeys_eq h.1 ha, sameAs]
    simp [List.takeWhile_cons, List.dropWhile_cons, hc, ih h.2]

@[simp] theorem map_row_aloneLeft (a : KeyedRow) :
    (m.aloneLeft a).map KeyedRow.row = m.onlyLeft a := by simp [aloneLeft, Function.comp_def]

@[simp] theorem map_row_aloneRight (b : KeyedRow) :
    (m.aloneRight b).map KeyedRow.row = m.onlyRight b := by simp [aloneRight, Function.comp_def]

@[simp] theorem map_row_pairs (k : List Value) (rows : List KeyedRow) (a : KeyedRow) :
    (m.pairs rows a).map KeyedRow.row = m.matched ⟨k, rows⟩ a := by
  simp [pairs, matched]

/-- A feed gives a beginning of some rows, and all of them unless it fails. -/
def Leads (f : Feed (List Row)) (rows : List Row) : Prop :=
  ∃ rest, rows = f.items.flatten ++ rest ∧ (f.failure = none → rest = [])

theorem leads_stop (es : List Event) {failure : Option Error} {rows : List Row}
    (h : failure = none → rows = []) : Leads (.stop es failure) rows := ⟨rows, rfl, h⟩

theorem Leads.item {f : Feed (List Row)} {rows : List Row} (es : List Event) (batch : List Row)
    (h : Leads f rows) : Leads (.item es batch fun _ => f) (batch ++ rows) := by
  obtain ⟨rest, hrows, hw⟩ := h
  exact ⟨rest, by simp [hrows], hw⟩

/-- Rows of one key on both sides give all their pairs, unless the right side fails before the
end of its run is seen. -/
theorem join_match {a b : KeyedRow} {left right : Unit → Feed KeyedRow} {rows : List Row}
    (es fs : List Event) (hab : m.order.compareKeys a.key b.key = .eq) :
    let same (c : KeyedRow) := m.order.sameKey c.key a.key
    let run : Run := ⟨a.key, b :: ((right ()).split same).lead⟩
    Leads (m.join none ((left ()).split same).beyond ((right ()).split same).beyond.peeked) rows →
      Leads (m.join none (.item es a left) (.item fs b right))
        ((a :: ((left ()).split same).lead).flatMap (m.matched run) ++ rows) := by
  intro same run h
  have hnone : m.runFor none a = none := rfl
  obtain ⟨hitems, hend⟩ := m.join_run run (left ()) ((right ()).split same).beyond.peeked
  have hrun : Leads (m.join (some run) (left ()) ((right ()).split same).beyond.peeked)
      (((left ()).split same).lead.flatMap (m.matched run) ++ rows) := by
    obtain ⟨rest, hrows, hw⟩ := h
    exact ⟨rest, by rw [hitems, hrows, List.append_assoc], fun w => hw (hend ▸ w)⟩
  simp only [join, hnone, hab]
  split
  · exact leads_stop _ fun w => by cases w
  · have hbatch := hrun.item (es ++ fs ++ ((right ()).split same).events ++
      ((right ()).split same).beyond.firstEvents) (m.matched run a)
    rwa [← List.append_assoc, ← List.flatMap_cons] at hbatch

theorem map_row_classwise_of_eq {a b : KeyedRow} {ls rs : List KeyedRow} (hls : m.Fit (a :: ls))
    (hrs : m.Fit rs) (hab : m.cmp a.key b.key = .eq) :
    let same (c : KeyedRow) := m.order.sameKey c.key a.key
    (m.classwise (a :: ls) (b :: rs)).map KeyedRow.row =
      (a :: ls.takeWhile same).flatMap (m.matched ⟨a.key, b :: rs.takeWhile same⟩) ++
        (m.classwise (ls.dropWhile same) (rs.dropWhile same)).map KeyedRow.row := by
  obtain ⟨hfit, hls⟩ := List.forall_mem_cons.mp hls
  obtain ⟨htakeL, hdropL⟩ := takeWhile_sameKey hfit hls
  obtain ⟨htakeR, hdropR⟩ := takeWhile_sameKey hfit hrs
  simp only [classwise, hab, ← htakeL, ← hdropL, ← htakeR, ← hdropR, crossed, List.map_append,
    List.map_flatMap, map_row_pairs a.key]

theorem join_leads_of_eq {a b : KeyedRow} {left right : Unit → Feed KeyedRow}
    {ls rs : List KeyedRow} (es fs : List Event) (hab : m.order.compareKeys a.key b.key = .eq)
    (hl : (left ()).Continues ls) (hr : (right ()).Continues rs) {rest : List Row} :
    let same (c : KeyedRow) := m.order.sameKey c.key a.key
    let lefts := (left ()).split same
    let rights := (right ()).split same
    (lefts.beyond.Continues (ls.dropWhile same) → rights.beyond.Continues (rs.dropWhile same) →
      Leads (m.join none lefts.beyond rights.beyond.peeked) rest) →
    Leads (m.join none (.item es a left) (.item fs b right))
      ((a :: ls.takeWhile same).flatMap (m.matched ⟨a.key, b :: rs.takeWhile same⟩) ++ rest) := by
  intro same lefts rights hrest
  rcases hr.split same with ⟨hleadR, hbeyondR⟩ | ⟨⟨gs, e, hfails⟩, -⟩
  · -- a left side that fails within the run has given a part of it
    obtain ⟨more, hmore, hbeyond⟩ : ∃ more, ls.takeWhile same = lefts.lead ++ more ∧
        Leads (m.join none lefts.beyond rights.beyond.peeked)
          (more.flatMap (m.matched ⟨a.key, b :: rights.lead⟩) ++ rest) := by
      rcases hl.split same with ⟨hleadL, hbeyondL⟩ | ⟨⟨gs, e, hfails⟩, more, hleadL⟩
      · exact ⟨[], by rw [hleadL, List.append_nil], hrest hbeyondL hbeyondR⟩
      · refine ⟨more, hleadL.symm, ?_⟩
        simp only [lefts, hfails, join]
        exact leads_stop _ fun w => by cases w
    rw [hmore, hleadR, ← List.cons_append, List.flatMap_append, List.append_assoc]
    exact join_match es fs hab hbeyond
  · -- the run is read before any of its rows are given
    simp only [join, runFor, hab, same] at hfails ⊢
    rw [hfails]
    exact leads_stop _ fun w => by cases w

/-- A merge join gives a beginning of the classwise join of any lists that continue its sides, and
all of it unless it fails. -/
theorem join_leads (m : Matching) (left right : Feed KeyedRow) {l r : List KeyedRow}
    (hl : left.Continues l) (hr : right.Continues r) (hlf : m.Fit l) (hrf : m.Fit r) :
    Leads (m.join none left right) ((m.classwise l r).map KeyedRow.row) := by
  induction hn : left.size + right.size using Nat.strong_induction_on generalizing left right l r with
  | _ n ih
  match left, right with
  | .stop es (some e), _ =>
    rw [join]
    exact leads_stop _ fun w => by cases w
  | .stop es none, .stop fs failure =>
    obtain rfl := hl.eq_nil
    rw [join]
    refine leads_stop _ fun w => ?_
    subst w
    obtain rfl := hr.eq_nil
    simp
  | .stop es none, .item fs b right =>
    obtain rfl := hl.eq_nil
    obtain ⟨more, rfl, hmore⟩ := Feed.continues_item_iff.mp hr
    by_cases hk : m.keepsRight
    · have hrest := ih _ (by simp [← hn]) (.stop [] none) (right ()) (Feed.continues_items _) hmore
        hlf (hrf.sublist (List.sublist_cons_self ..)) rfl
      simpa [join, hk] using hrest.item (es ++ fs) (m.onlyRight b)
    · simp only [join, hk]
      exact leads_stop _ fun _ => by simp [aloneRight, onlyRight, hk]
  | .item es a left, .stop fs (some e) =>
    simp only [join, runFor]
    exact leads_stop _ fun w => by cases w
  | .item es a left, .stop fs none =>
    obtain rfl := hr.eq_nil
    obtain ⟨more, rfl, hmore⟩ := Feed.continues_item_iff.mp hl
    by_cases hk : m.keepsLeft
    · have hrest := ih _ (by simp [← hn]) (left ()) (.stop [] none) hmore (Feed.continues_items _)
        (hlf.sublist (List.sublist_cons_self ..)) hrf rfl
      simpa [join, runFor, hk] using hrest.item (es ++ fs) (m.onlyLeft a)
    · simp only [join, runFor, hk]
      exact leads_stop _ fun _ => by simp [aloneLeft, onlyLeft, hk]
  | .item es a left, .item fs b right =>
    obtain ⟨ls, rfl, hls⟩ := Feed.continues_item_iff.mp hl
    obtain ⟨rs, rfl, hrs⟩ := Feed.continues_item_iff.mp hr
    have hcmp : m.order.compareKeys a.key b.key = m.cmp a.key b.key :=
      SortOrder.compareKeys_eq (hlf a (.head _)) (hrf b (.head _))
    have hlf' : m.Fit ls := hlf.sublist (List.sublist_cons_self ..)
    have hrf' : m.Fit rs := hrf.sublist (List.sublist_cons_self ..)
    cases hc : m.cmp a.key b.key with
    | lt =>
      have hrest := ih _ (by simp [← hn]) (left ()) (.item [] b right) hls hr hlf' hrf rfl
      simpa [join, runFor, hcmp, hc, classwise] using hrest.item (es ++ fs) (m.onlyLeft a)
    | gt =>
      have hrest := ih _ (by simp [← hn]) (.item [] a left) (right ()) hl hrs hlf hrf' rfl
      simpa [join, runFor, hcmp, hc, classwise] using hrest.item (es ++ fs) (m.onlyRight b)
    | eq =>
      have hsizeL := Feed.size_beyond_le (fun c => m.order.sameKey c.key a.key) (left ())
      have hsizeR := Feed.size_beyond_le (fun c => m.order.sameKey c.key a.key) (right ())
      rw [map_row_classwise_of_eq hlf hrf' hc]
      refine join_leads_of_eq es fs (hcmp.trans hc) hls hrs fun hleft hright => ?_
      exact ih _ (by simp only [← hn, Feed.size_item, Feed.size_peeked]; omega) _ _ hleft
        hright.peeked (hlf'.sublist (List.dropWhile_sublist _))
        (hrf'.sublist (List.dropWhile_sublist _)) rfl

/-- A feed gives a beginning of some rows, and under a condition it gives them all and ends. -/
def Begins (f : Feed (List Row)) (rows : List Row) (whole : Prop) : Prop :=
  ∃ rest, rows = f.items.flatten ++ rest ∧ (whole → rest = [] ∧ f.failure = none)

theorem join_begins (m : Matching) (left right : Feed KeyedRow) (hl : m.Fit left.items)
    (hr : m.Fit right.items) :
    Begins (m.join none left right) ((m.classwise left.items right.items).map KeyedRow.row)
      (left.failure = none ∧ right.failure = none) := by
  obtain ⟨rest, hrows, hrest⟩ :=
    m.join_leads left right left.continues_items right.continues_items hl hr
  refine ⟨rest, hrows, fun hnone => ?_⟩
  have hfailure : (m.join none left right).failure = none := by
    refine Option.eq_none_iff_forall_ne_some.mpr fun e h => ?_
    rcases failure_of_join h with hleft | hright
    · rw [hnone.1] at hleft
      cases hleft
    · rw [hnone.2] at hright
      cases hright
  exact ⟨hrest hfailure, hfailure⟩

end Matching
end DatasetAlgebra
