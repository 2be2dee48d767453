import DatasetAlgebra.Proofs.Filter.Deciding

/-!
Filters in Kleene's strong logic of three truth values. Terms are evaluated from the left and no
further than to the first that decides, but where none of them fails this cannot be seen: what comes
out is the Kleene conjunction or disjunction of all their values, which has no order. De Morgan's
laws hold of failing filters too, since a conjunction and the disjunction of the negated terms stop
at the same term.
-/
namespace DatasetAlgebra

/-! The connectives; `none` is unknown. -/
namespace Kleene

def not (t : Option Bool) : Option Bool := t.map fun b => !b

/-- False if either is false, and true if both are true. -/
def and : Option Bool → Option Bool → Option Bool
  | some false, _ | _, some false => some false
  | some true, some true => some true
  | _, _ => none

/-- True if either is true, and false if both are false. -/
def or : Option Bool → Option Bool → Option Bool
  | some true, _ | _, some true => some true
  | some false, some false => some false
  | _, _ => none

/-- The conjunction of many; of none it is true. -/
def all (ts : List (Option Bool)) : Option Bool := ts.foldr and (some true)

/-- The disjunction of many; of none it is false. -/
def any (ts : List (Option Bool)) : Option Bool := ts.foldr or (some false)

variable {t u : Option Bool} {ts us : List (Option Bool)}

@[simp] theorem not_not (t : Option Bool) : not (not t) = t := by
  rcases t with _ | _ | _ <;> rfl

theorem not_and (t u : Option Bool) : not (and t u) = or (not t) (not u) := by
  rcases t with _ | _ | _ <;> rcases u with _ | _ | _ <;> rfl

theorem and_assoc (t u v : Option Bool) : and (and t u) v = and t (and u v) := by
  rcases t with _ | _ | _ <;> rcases u with _ | _ | _ <;> rcases v with _ | _ | _ <;> rfl

@[simp] theorem and_true (t : Option Bool) : and t (some true) = t := by
  rcases t with _ | _ | _ <;> rfl

theorem true_and (t : Option Bool) : and (some true) t = t := by
  rcases t with _ | _ | _ <;> rfl

@[simp] theorem and_false (t : Option Bool) : and t (some false) = some false := by
  rcases t with _ | _ | _ <;> rfl

theorem and_none (h : t ≠ some false) : and t none = none := by
  rcases t with _ | _ | _
  · rfl
  · contradiction
  · rfl

theorem and_ne_false (ht : t ≠ some false) (hu : u ≠ some false) : and t u ≠ some false := by
  rcases t with _ | _ | _ <;> rcases u with _ | _ | _ <;> first | contradiction | decide

theorem all_cons (t : Option Bool) (ts : List (Option Bool)) : all (t :: ts) = and t (all ts) := rfl

theorem all_eq (ts : List (Option Bool)) :
    all ts = if some false ∈ ts then some false else if none ∈ ts then none else some true := by
  induction ts with
  | nil => rfl
  | cons t ts ih =>
    rw [all_cons, ih]
    match t with
    | some false => simp [and]
    | none | some true =>
      by_cases hf : some false ∈ ts <;> by_cases hn : none ∈ ts <;> simp [hf, hn, and]

theorem not_all (ts : List (Option Bool)) : not (all ts) = any (ts.map not) := by
  induction ts with
  | nil => rfl
  | cons t ts ih =>
    show not (and t (all ts)) = or (not t) (any (ts.map not))
    rw [not_and, ih]

theorem any_eq (ts : List (Option Bool)) : any ts = not (all (ts.map not)) := by
  have hback : (ts.map not).map not = ts := by
    rw [List.map_map]
    exact (List.map_congr_left fun t _ => not_not t).trans ts.map_id
  rw [not_all, hback]

theorem all_congr (h : ∀ t, t ∈ ts ↔ t ∈ us) : all ts = all us := by
  simp only [all_eq, h]

theorem any_congr (h : ∀ t, t ∈ ts ↔ t ∈ us) : any ts = any us := by
  have hnegated (t : Option Bool) : t ∈ ts.map not ↔ t ∈ us.map not := by
    simp only [List.mem_map, h]
  rw [any_eq, any_eq, all_congr hnegated]

end Kleene

namespace Filter

variable {s : Schema} {r : Row} {f : Filter} {fs gs : List Filter} {sofar : Option Bool}
  {ts : List (Option Bool)}

/-- The truth values of terms on a row, where none of them fails. -/
abbrev Values (r : Row) (fs : List Filter) (ts : List (Option Bool)) : Prop :=
  fs.Forall₂ (fun f t => f.eval r = .ok t) ts

theorem eval_not (f : Filter) : (Filter.not f).eval r = (f.eval r).map Kleene.not := rfl

/-- Goes on with a truth value, unless it is false, or there is none. -/
def proceed (x : Except Error (Option Bool))
    (next : Option Bool → Except Error (Option Bool)) : Except Error (Option Bool) :=
  x.bind fun t => if t = some false then .ok t else next t

/-- A conjunction is its first term, and unless that ends it the others. -/
theorem evalAnd_cons (hsofar : sofar ≠ some false) (f : Filter) (fs : List Filter) :
    evalAnd r sofar (f :: fs) = proceed (f.eval r) fun t => evalAnd r (Kleene.and sofar t) fs := by
  rw [evalAnd]
  match f.eval r with
  | .error e => rfl
  | .ok (some false) => rfl
  | .ok (some true) => exact congrArg (evalAnd r · fs) (Kleene.and_true sofar).symm
  | .ok none => exact congrArg (evalAnd r · fs) (Kleene.and_none hsofar).symm

theorem evalAnd_of_values (h : Values r fs ts) (hsofar : sofar ≠ some false) :
    evalAnd r sofar fs = .ok (Kleene.and sofar (Kleene.all ts)) := by
  induction h generalizing sofar with
  | nil => exact congrArg Except.ok (Kleene.and_true sofar).symm
  | @cons f t fs ts hf _ ih =>
    rw [evalAnd_cons hsofar, hf, Kleene.all_cons, ← Kleene.and_assoc]
    show (if t = some false then _ else _) = _
    by_cases ht : t = some false
    · rw [if_pos ht, ht, Kleene.and_false]
      rfl
    · rw [if_neg ht]
      exact ih (Kleene.and_ne_false hsofar ht)

/-- The negated terms of a conjunction end their disjunction where the conjunction ends, also by a
failure. -/
theorem evalOr_map_not (fs : List Filter) (sofar : Option Bool) :
    evalOr r (Kleene.not sofar) (fs.map .not) = (evalAnd r sofar fs).map Kleene.not := by
  induction fs generalizing sofar with
  | nil => rfl
  | cons f fs ih =>
    rw [List.map_cons, evalOr, evalAnd, eval_not]
    match f.eval r with
    | .error e => rfl
    | .ok (some false) => rfl
    | .ok (some true) => exact ih sofar
    | .ok none => exact ih none

theorem evalAnd_map_not (fs : List Filter) (sofar : Option Bool) :
    evalAnd r (Kleene.not sofar) (fs.map .not) = (evalOr r sofar fs).map Kleene.not := by
  induction fs generalizing sofar with
  | nil => rfl
  | cons f fs ih =>
    rw [List.map_cons, evalOr, evalAnd, eval_not]
    match f.eval r with
    | .error e => rfl
    | .ok (some true) => rfl
    | .ok (some false) => exact ih sofar
    | .ok none => exact ih none

theorem eval_not_and (fs : List Filter) :
    (Filter.not (.and fs)).eval r = (Filter.or (fs.map .not)).eval r :=
  (evalOr_map_not fs (some true)).symm

theorem eval_not_or (fs : List Filter) :
    (Filter.not (.or fs)).eval r = (Filter.and (fs.map .not)).eval r :=
  (evalAnd_map_not fs (some false)).symm

theorem eval_and_of_values (h : Values r fs ts) :
    (Filter.and fs).eval r = .ok (Kleene.all ts) := by
  have hand := evalAnd_of_values h (by decide : some true ≠ some false)
  rwa [Kleene.true_and] at hand

theorem eval_or_of_values (h : Values r fs ts) :
    (Filter.or fs).eval r = .ok (Kleene.any ts) := by
  have hnegated : Values r (fs.map .not) (ts.map Kleene.not) := by
    rw [Values, List.forall₂_map_left_iff, List.forall₂_map_right_iff]
    refine h.imp fun f t hf => ?_
    rw [eval_not, hf]
    rfl
  have hand := eval_and_of_values hnegated
  rw [← eval_not_or, eval_not] at hand
  obtain ⟨t, ht, hnot⟩ := map_eq_ok.mp hand
  rw [ht, Kleene.any_eq, ← hnot, Kleene.not_not]

/-- The truth value that a filter has on a row on which it does not fail. -/
def valueOn (r : Row) (f : Filter) : Option Bool :=
  match f.eval r with
  | .ok t => t
  | .error _ => none

theorem forall₂_valueOn (h : ∀ f ∈ fs, ∃ t, f.eval r = .ok t) :
    Values r fs (fs.map (valueOn r)) := by
  rw [Values, List.forall₂_map_right_iff, List.forall₂_same]
  intro f hf
  obtain ⟨t, ht⟩ := h f hf
  rw [valueOn, ht]

/-- Terms that do not fail may be permuted and repeated. -/
theorem eval_congr_of_mem (h : ∀ f ∈ fs, ∃ t, f.eval r = .ok t) (hmem : ∀ f, f ∈ fs ↔ f ∈ gs) :
    (Filter.and fs).eval r = (Filter.and gs).eval r ∧
      (Filter.or fs).eval r = (Filter.or gs).eval r := by
  have hfs := forall₂_valueOn h
  have hgs := forall₂_valueOn fun g hg => h g ((hmem g).mpr hg)
  have hvalues (t : Option Bool) : t ∈ fs.map (valueOn r) ↔ t ∈ gs.map (valueOn r) := by
    simp only [List.mem_map, hmem]
  rw [eval_and_of_values hfs, eval_and_of_values hgs, Kleene.all_congr hvalues,
    eval_or_of_values hfs, eval_or_of_values hgs, Kleene.any_congr hvalues]
  exact ⟨rfl, rfl⟩

theorem eval_compare (hs : r.schema = s) (hr : r.conforms) {column : String} {test : Comparison}
    {constant : Value} (hf : (compare column test constant).wellTyped s) :
    ∃ v, r.value? column = some v ∧ (compare column test constant).eval r =
      .ok (if v.isNull || constant.isNull then none else some (test.holds (v.collate constant))) := by
  subst hs
  obtain ⟨c, hc, htype⟩ := (Option.any_eq_true _ _).mp hf
  obtain ⟨hmem, rfl⟩ := Schema.column?_eq_some_iff.mp hc
  obtain ⟨v, hv⟩ := exists_value (List.mem_map_of_mem (f := Column.name) hmem)
  have hvalue : v.type = constant.type :=
    (Row.conforms_iff.mp hr c hmem v hv).symm.trans (of_decide_eq_true htype)
  refine ⟨v, hv, ?_⟩
  rw [eval, truth, hv]
  simp only [Value.compare, if_pos hvalue, Except.map]
  split <;> rfl

theorem keeps_eq_true_iff : f.keeps r = .ok true ↔ f.eval r = .ok (some true) := by
  rw [keeps, map_eq_ok]
  simp

/-- A filter that is well typed in the schema of a row evaluates on it in Kleene's strong logic,
where a comparison is unknown exactly if one of its sides is null. -/
theorem evaluates_in_kleene_logic (hs : r.schema = s) (hr : r.conforms) :
    (∀ f : Filter, f.wellTyped s → ∃ t, f.eval r = .ok t) ∧
    (∀ column test constant, (compare column test constant).wellTyped s →
      ∃ v, r.value? column = some v ∧
        ((compare column test constant).eval r = .ok none ↔ v.isNull ∨ constant.isNull) ∧
        (¬(v.isNull ∨ constant.isNull) →
          (compare column test constant).eval r = .ok (some (test.holds (v.collate constant))))) ∧
    (∀ fs ts, Values r fs ts →
      (Filter.and fs).eval r = .ok (Kleene.all ts) ∧ (Filter.or fs).eval r = .ok (Kleene.any ts)) ∧
    (∀ (f : Filter) t, f.eval r = .ok t → (Filter.not f).eval r = .ok (Kleene.not t)) ∧
    (∀ fs gs : List Filter, (∀ f ∈ fs, f.wellTyped s) → (∀ f, f ∈ fs ↔ f ∈ gs) →
      (Filter.and fs).eval r = (Filter.and gs).eval r ∧
        (Filter.or fs).eval r = (Filter.or gs).eval r) ∧
    (∀ fs, (Filter.not (.and fs)).eval r = (Filter.or (fs.map .not)).eval r ∧
      (Filter.not (.or fs)).eval r = (Filter.and (fs.map .not)).eval r) ∧
    ∀ f : Filter, ¬(f.keeps r = .ok true ∧ (Filter.not f).keeps r = .ok true) := by
  have hok (f : Filter) (hf : f.wellTyped s) : ∃ t, f.eval r = .ok t :=
    eval_ok ⟨hr, fun c hc => hs ▸ hc⟩ f hf fun n hn => hs ▸ mentions_of_wellTyped f hf n hn
  refine ⟨hok, ?compared, fun fs ts h => ⟨eval_and_of_values h, eval_or_of_values h⟩, ?negated,
    fun fs gs hfs => eval_congr_of_mem fun f hf => hok f (hfs f hf),
    fun fs => ⟨eval_not_and fs, eval_not_or fs⟩, ?contrary⟩
  case compared =>
    intro column test constant hf
    obtain ⟨v, hv, heval⟩ := eval_compare hs hr hf
    refine ⟨v, hv, ?_⟩
    rw [heval]
    by_cases hnull : v.isNull ∨ constant.isNull
    · simp [hnull]
    · simp [hnull]
  case negated =>
    intro f t hf
    rw [eval_not, hf]
    rfl
  case contrary =>
    rintro f ⟨hkept, hnot⟩
    rw [keeps_eq_true_iff, eval_not, keeps_eq_true_iff.mp hkept] at hnot
    cases hnot

namespace Unknown

def sales : Schema := ⟨[⟨"geo", .identifier, .string⟩, ⟨"n", .measure, .integer⟩], by decide⟩

/-- A row without a number. -/
def unsold : Row := ⟨sales, [.ofString "NO", .null .integer], rfl⟩

def many : Filter := .compare "n" .gt (.ofInt64 10)

def northern : Filter := .compare "geo" .eq (.ofString "NO")

/-- A true term decides a disjunction with an unknown one, but not a conjunction, in any order. The
unknown row is kept neither by the comparison nor by its negation. -/
theorem many_northern :
    unsold.schema = sales ∧ unsold.conforms ∧ many.wellTyped sales ∧ northern.wellTyped sales ∧
      many.eval unsold = .ok none ∧
      (Filter.or [many, northern]).eval unsold = .ok (some true) ∧
      (Filter.and [many, northern]).eval unsold = .ok none ∧
      (Filter.and [northern, many, many]).eval unsold = .ok none ∧
      (Filter.not many).eval unsold = .ok none := by
  have hmany : many.wellTyped sales := by decide
  have hnorthern : northern.wellTyped sales := by decide
  have hconforms : unsold.conforms := by decide
  have hschema : unsold.schema = sales := rfl
  obtain ⟨-, hcompared, hterms, hnot, hpermuted, -, -⟩ :=
    evaluates_in_kleene_logic hschema hconforms
  obtain ⟨v, hv, hunknown, -⟩ := hcompared "n" .gt (.ofInt64 10) hmany
  have hnull : many.eval unsold = .ok none := by
    cases hv
    exact hunknown.mpr (.inl rfl)
  have htrue : northern.eval unsold = .ok (some true) := by
    obtain ⟨w, hw, -, hpresent⟩ := hcompared "geo" .eq (.ofString "NO") hnorthern
    cases hw
    exact hpresent (by decide)
  have hvalues : Values unsold [many, northern] [none, some true] := .cons hnull (.cons htrue .nil)
  obtain ⟨hand, hor⟩ := hterms _ _ hvalues
  obtain ⟨hand', -⟩ := hpermuted [many, northern] [northern, many, many]
    (List.forall_mem_cons.mpr ⟨hmany, List.forall_mem_singleton.mpr hnorthern⟩)
    (by simp [or_comm])
  exact ⟨hschema, hconforms, hmany, hnorthern, hnull, hor, hand, hand'.symm.trans hand, hnot _ _ hnull⟩

end Unknown
end Filter
end DatasetAlgebra
