import DatasetAlgebra.Proofs.Filter.Kleene

/-!
The filter that keeps what both keep. It is written with fewer nested conjunctions than the plain
conjunction of the two, and evaluates like it on every row, also where terms fail: a conjunction
goes on from what its first terms amount to, so a nested one may be replaced by its terms. That
holds wherever the filter stands inside of another.
-/
namespace DatasetAlgebra
namespace Filter

variable {r : Row} {f g : Filter} {sofar : Option Bool}

section

variable {x : Except Error (Option Bool)} {next other : Option Bool → Except Error (Option Bool)}

theorem proceed_congr (h : ∀ t, t ≠ some false → next t = other t) :
    proceed x next = proceed x other := by
  refine congrArg x.bind (funext fun t => ?_)
  by_cases ht : t = some false
  · rw [if_pos ht, if_pos ht]
  · rw [if_neg ht, if_neg ht, h t ht]

theorem proceed_proceed :
    proceed (proceed x next) other = proceed x fun t => proceed (next t) other := by
  cases x with
  | error e => rfl
  | ok t =>
    show (if t = some false then Except.ok t else next t).bind _ = if t = some false then _ else _
    by_cases ht : t = some false
    · rw [if_pos ht, if_pos ht]
      exact if_pos ht
    · rw [if_neg ht, if_neg ht]
      rfl

theorem proceed_ok : proceed x .ok = x := by
  cases x with
  | error e => rfl
  | ok t => exact ite_self _

/-- Earlier terms may be joined to what comes out, or to what comes next: false stays false. -/
theorem map_and_proceed :
    (proceed x next).map (Kleene.and sofar) =
      proceed x fun t => (next t).map (Kleene.and sofar) := by
  cases x with
  | error e => rfl
  | ok t =>
    show (if t = some false then Except.ok t else next t).map _ = if t = some false then _ else _
    by_cases ht : t = some false
    · rw [if_pos ht, if_pos ht, ht]
      exact congrArg Except.ok (Kleene.and_false sofar)
    · rw [if_neg ht, if_neg ht]

theorem proceed_map_and (hsofar : sofar ≠ some false) :
    proceed (x.map (Kleene.and sofar)) next = proceed x fun t => next (Kleene.and sofar t) := by
  cases x with
  | error e => rfl
  | ok t =>
    show (if Kleene.and sofar t = some false then _ else _) = if t = some false then _ else _
    by_cases ht : t = some false
    · rw [if_pos ht, ht, Kleene.and_false, if_pos rfl]
    · rw [if_neg ht, if_neg (Kleene.and_ne_false hsofar ht)]

end

/-- What a conjunction amounts to behind earlier terms is joined to what these amount to. -/
theorem evalAnd_eq_map (hsofar : sofar ≠ some false) (fs : List Filter) :
    evalAnd r sofar fs = (evalAnd r (some true) fs).map (Kleene.and sofar) := by
  induction fs generalizing sofar with
  | nil => exact congrArg Except.ok (Kleene.and_true sofar).symm
  | cons f fs ih =>
    rw [evalAnd_cons hsofar, evalAnd_cons (by decide), map_and_proceed]
    refine proceed_congr fun t ht => ?_
    rw [Kleene.true_and, ih ht, ih (Kleene.and_ne_false hsofar ht)]
    cases evalAnd r (some true) fs with
    | error e => rfl
    | ok u => exact congrArg Except.ok (Kleene.and_assoc sofar t u)

theorem evalAnd_append (hsofar : sofar ≠ some false) (fs gs : List Filter) :
    evalAnd r sofar (fs ++ gs) = proceed (evalAnd r sofar fs) fun t => evalAnd r t gs := by
  induction fs generalizing sofar with
  | nil => exact (if_neg hsofar).symm
  | cons f fs ih =>
    rw [List.cons_append, evalAnd_cons hsofar, evalAnd_cons hsofar, proceed_proceed]
    exact proceed_congr fun t ht => ih (Kleene.and_ne_false hsofar ht)

theorem evalAnd_flatten (hsofar : sofar ≠ some false) (fs gs : List Filter) :
    evalAnd r sofar (.and fs :: gs) = evalAnd r sofar (fs ++ gs) := by
  rw [evalAnd_cons hsofar, evalAnd_append hsofar, evalAnd_eq_map hsofar fs, proceed_map_and hsofar]
  rfl

theorem eval_and_flatten_behind (f : Filter) (fs : List Filter) :
    (Filter.and [f, .and fs]).eval r = (Filter.and (f :: fs)).eval r := by
  show evalAnd r (some true) [f, .and fs] = evalAnd r (some true) (f :: fs)
  rw [evalAnd_cons (by decide), evalAnd_cons (by decide)]
  refine proceed_congr fun t ht => ?_
  rw [Kleene.true_and, evalAnd_flatten ht, List.append_nil]

theorem eval_and_singleton (f : Filter) : (Filter.and [f]).eval r = f.eval r := by
  show evalAnd r (some true) [f] = _
  rw [evalAnd_cons (by decide)]
  refine (proceed_congr fun t _ => ?_).trans proceed_ok
  exact congrArg Except.ok (Kleene.true_and t)

theorem eval_and_all (f : Filter) : (Filter.and [f, .all]).eval r = f.eval r := by
  rw [← eval_and_singleton f]
  show evalAnd r (some true) ([f] ++ [.all]) = evalAnd r (some true) [f]
  rw [evalAnd_append (by decide)]
  exact proceed_ok

theorem evalAnd_exchange (h : f.eval r = g.eval r) (sofar : Option Bool)
    (before behind : List Filter) :
    evalAnd r sofar (before ++ f :: behind) = evalAnd r sofar (before ++ g :: behind) := by
  induction before generalizing sofar with
  | nil => simp only [List.nil_append, evalAnd, h]
  | cons b before ih => simp only [List.cons_append, evalAnd, ih]

theorem evalOr_exchange (h : f.eval r = g.eval r) (sofar : Option Bool)
    (before behind : List Filter) :
    evalOr r sofar (before ++ f :: behind) = evalOr r sofar (before ++ g :: behind) := by
  induction before generalizing sofar with
  | nil => simp only [List.nil_append, evalOr, h]
  | cons b before ih => simp only [List.cons_append, evalOr, ih]

theorem eval_both (f g : Filter) : (f.both g).eval r = (Filter.and [f, g]).eval r := by
  unfold both
  split
  case h_1 => exact (eval_and_singleton g).symm
  case h_2 => exact (eval_and_all f).symm
  case h_3 terms _ => exact (evalAnd_flatten (by decide) terms [g]).symm
  case h_4 => rfl

theorem eval_both_assoc (f g h : Filter) : ((f.both g).both h).eval r = (f.both (g.both h)).eval r :=
  calc
    ((f.both g).both h).eval r = (Filter.and [f.both g, h]).eval r := eval_both _ _
    _ = (Filter.and [.and [f, g], h]).eval r := evalAnd_exchange (eval_both f g) _ [] [h]
    _ = (Filter.and [f, g, h]).eval r := evalAnd_flatten (by decide) [f, g] [h]
    _ = (Filter.and [f, .and [g, h]]).eval r := (eval_and_flatten_behind f [g, h]).symm
    _ = (Filter.and [f, g.both h]).eval r := (evalAnd_exchange (eval_both g h) _ [f] []).symm
    _ = (f.both (g.both h)).eval r := (eval_both _ _).symm

/-- A filter with one place left open. -/
inductive Surrounding where
  | here
  | and (before : List Filter) (inner : Surrounding) (behind : List Filter)
  | or (before : List Filter) (inner : Surrounding) (behind : List Filter)
  | not (inner : Surrounding)

/-- The filter with another one in the open place. -/
def Surrounding.fill : Surrounding → Filter → Filter
  | .here, f => f
  | .and before inner behind, f => .and (before ++ inner.fill f :: behind)
  | .or before inner behind, f => .or (before ++ inner.fill f :: behind)
  | .not inner, f => .not (inner.fill f)

/-- Filters that evaluate alike do so wherever they stand in another one. -/
theorem eval_fill (h : f.eval r = g.eval r) (around : Surrounding) :
    (around.fill f).eval r = (around.fill g).eval r := by
  induction around with
  | here => exact h
  | and before inner behind ih => exact evalAnd_exchange ih _ before behind
  | or before inner behind ih => exact evalOr_exchange ih _ before behind
  | not inner ih => exact congrArg (Except.map Kleene.not) ih

theorem mentionsAll_append (fs gs : List Filter) :
    mentionsAll (fs ++ gs) = mentionsAll fs ++ mentionsAll gs := by
  induction fs with
  | nil => rfl
  | cons f fs ih => rw [List.cons_append, mentionsAll, mentionsAll, ih, List.append_assoc]

theorem mentions_both (f g : Filter) : (f.both g).mentions = f.mentions ++ g.mentions := by
  unfold both
  split
  case h_1 => rfl
  case h_2 => exact (List.append_nil _).symm
  case h_3 terms _ =>
    show mentionsAll (terms ++ [g]) = mentionsAll terms ++ g.mentions
    rw [mentionsAll_append, mentionsAll, mentionsAll, List.append_nil]
  case h_4 => simp only [mentions, mentionsAll, List.append_nil]

/-- The filter that keeps what two filters keep comes to the same as their conjunction, on every row
and within any filter. It is associative and reads the columns that either reads. -/
theorem both_as_conjunction (a b c : Filter) (around : Surrounding) (r : Row) :
    (a.both b).eval r = (Filter.and [a, b]).eval r ∧
    (around.fill (a.both b)).eval r = (around.fill (.and [a, b])).eval r ∧
    ((a.both b).both c).eval r = (a.both (b.both c)).eval r ∧
    ∀ name, name ∈ (a.both b).columns ↔ name ∈ a.columns ∨ name ∈ b.columns := by
  refine ⟨eval_both a b, eval_fill (eval_both a b) around, eval_both_assoc a b c, fun name => ?_⟩
  rw [mem_columns, mem_columns, mem_columns, mentions_both, List.mem_append]

end Filter
end DatasetAlgebra
