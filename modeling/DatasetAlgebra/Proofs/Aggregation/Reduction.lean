import DatasetAlgebra.Aggregation.Accumulator
import DatasetAlgebra.Proofs.Outcomes
import DatasetAlgebra.Proofs.SortOrder.Keys
import DatasetAlgebra.Proofs.Value.Arithmetic

/-!
What the measures of a group reduce to. Nulls do not count; the others are summed exactly as long
as no sum on the way leaves the integers of 64 bits, compared along the total order of values, or
counted.
-/
namespace DatasetAlgebra

/-- The values that count. -/
def counted (vs : List Value) : List Value := vs.filter fun v => !v.isNull

/-- The integers among values. -/
def integers (vs : List Value) : List Int := vs.filterMap fun v => v.integer?.map Int64.toInt

namespace Accumulator

/-- Adds values one after the other. -/
def addAll (a : Accumulator) : List Value → Except Error Accumulator
  | [] => .ok a
  | v :: vs => (a.add v).bind (·.addAll vs)

theorem addAll_counted (a : Accumulator) (vs : List Value) :
    a.addAll (counted vs) = a.addAll vs := by
  induction vs generalizing a with
  | nil => rfl
  | cons v vs ih =>
    cases hv : v.isNull with
    | true =>
      have hadd : a.add v = .ok a := by simp [add, hv]
      have hskip : counted (v :: vs) = counted vs := by simp [counted, hv]
      rw [hskip, addAll, hadd]
      exact ih a
    | false =>
      have hcons : counted (v :: vs) = v :: counted vs := by simp [counted, hv]
      rw [hcons, addAll, addAll]
      cases a.add v with
      | error e => rfl
      | ok b => exact ih b

variable {a : Accumulator}

/-- Once there is a sum, what is still to come is added up from there. -/
theorem addAll_sum {m : Int64} (hr : a.reducer = .sum) (hm : a.value = .ofInt64 m)
    (ns : List Int64) :
    a.addAll (ns.map .ofInt64) =
      ((ns.map .ofInt64).foldlM Value.add (.ofInt64 m)).map fun v =>
        ⟨.sum, v, a.count + ns.length⟩ := by
  induction ns generalizing a m with
  | nil =>
    obtain ⟨_, _, _⟩ := a
    cases hr
    cases hm
    rfl
  | cons n ns ih =>
    have hadd : a.add (.ofInt64 n) =
        ((Value.ofInt64 m).add (.ofInt64 n)).map fun v => ⟨.sum, v, a.count + 1⟩ := by
      rw [add, hr, hm]
      rfl
    rw [List.map_cons, addAll, List.foldlM_cons, hadd]
    cases hsum : (Value.ofInt64 m).add (.ofInt64 n) with
    | error e => rfl
    | ok v =>
      obtain ⟨k, rfl, -⟩ := Value.gives_of_arithmetic hsum
      have hrest := ih (a := ⟨.sum, .ofInt64 k, a.count + 1⟩) rfl rfl
      simpa [Except.map, Except.bind, bind, Nat.add_assoc, Nat.add_comm 1] using hrest

theorem addAll_sum_empty (n : Int64) (ns : List Int64) :
    (empty .sum .integer).addAll ((n :: ns).map .ofInt64) =
      ((ns.map .ofInt64).foldlM Value.add (.ofInt64 n)).map fun v =>
        ⟨.sum, v, ns.length + 1⟩ := by
  have hfirst : (empty .sum .integer).addAll ((n :: ns).map .ofInt64) =
      Accumulator.addAll ⟨.sum, .ofInt64 n, 1⟩ (ns.map .ofInt64) := rfl
  rw [hfirst, addAll_sum rfl rfl, Nat.add_comm]

/-- The reducer that looks for the first value along a direction. -/
def extremum : Direction → Reducer
  | .ascending => .min
  | .descending => .max

/-- One of some values, none of which comes before it along a direction. -/
def Extreme (d : Direction) (vs : List Value) (x : Value) : Prop :=
  x ∈ vs ∧ ∀ v ∈ vs, (d.along (x.collate v)).isLE

/-- Values of one type were compared. -/
structure Picks (a : Accumulator) (d : Direction) (type : ValueType) (vs : List Value) : Prop where
  reducer : a.reducer = extremum d
  value : if vs = [] then a.value = .null type else Extreme d vs a.value
  typed : ∀ v ∈ vs, v.isNull = false ∧ v.type = type

theorem picks_empty (d : Direction) (type : ValueType) :
    (empty (extremum d) type).Picks d type [] :=
  ⟨rfl, rfl, by simp⟩

theorem step_extremum {d : Direction} {x v : Value} (hx : x.isNull = false) (hv : v.isNull = false)
    (ht : v.type = x.type) :
    step (extremum d) x v = .ok (if d.along (v.collate x) = .lt then v else x) := by
  have hcompare : v.compare x = .ok (some (v.collate x)) := by simp [Value.compare, ht, hx, hv]
  cases d <;> cases hc : v.collate x <;>
    simp [step, extremum, hx, hcompare, hc, Except.map, Direction.along]

theorem along_isLE_self (d : Direction) (v : Value) : (d.along (v.collate v)).isLE := by
  have h : v.collate v = .eq := Std.ReflCmp.compare_self
  rw [h]
  cases d <;> rfl

theorem along_isLE_of_not_lt {d : Direction} {v x : Value} (h : d.along (v.collate x) ≠ .lt) :
    (d.along (x.collate v)).isLE := by
  have hswap : x.collate v = (v.collate x).swap := Std.OrientedCmp.eq_swap
  rw [hswap]
  cases d <;> cases hc : v.collate x <;> simp_all [Direction.along]

theorem along_isLE_trans {d : Direction} {x y z : Value} (hxy : (d.along (x.collate y)).isLE)
    (hyz : (d.along (y.collate z)).isLE) : (d.along (x.collate z)).isLE := by
  have h : Std.TransCmp fun a b : Value => d.along (a.collate b) := inferInstance
  exact h.isLE_trans hxy hyz

theorem Picks.add {d : Direction} {type : ValueType} {vs : List Value} (h : a.Picks d type vs)
    {v : Value} (hv : v.isNull = false) (ht : v.type = type) :
    ∃ b, a.add v = .ok b ∧ b.Picks d type (vs ++ [v]) := by
  have htyped : ∀ w ∈ vs ++ [v], w.isNull = false ∧ w.type = type := by
    rw [List.forall_mem_append]
    exact ⟨h.typed, by simpa using ⟨hv, ht⟩⟩
  have hadd {x : Value} (hstep : step a.reducer a.value v = .ok x)
      (hx : Extreme d (vs ++ [v]) x) : ∃ b, a.add v = .ok b ∧ b.Picks d type (vs ++ [v]) :=
    ⟨⟨a.reducer, x, a.count + 1⟩, by simp [Accumulator.add, hv, hstep, Except.map], h.reducer,
      by simpa using hx, htyped⟩
  have hvalue := h.value
  by_cases hnil : vs = []
  · subst hnil
    rw [if_pos rfl] at hvalue
    refine hadd (x := v) (by simp [step, hvalue]) ⟨by simp, ?_⟩
    simpa using along_isLE_self d v
  · rw [if_neg hnil] at hvalue
    obtain ⟨hmem, hfirst⟩ := hvalue
    obtain ⟨hx, hxt⟩ := h.typed _ hmem
    have hstep := step_extremum (d := d) hx hv (ht.trans hxt.symm)
    rw [← h.reducer] at hstep
    refine hadd hstep ?_
    split
    · rename_i hlt
      have hself : ∀ w ∈ [v], (d.along (v.collate w)).isLE := by simpa using along_isLE_self d v
      refine ⟨by simp, List.forall_mem_append.mpr ⟨fun w hw => ?_, hself⟩⟩
      exact along_isLE_trans (by rw [hlt]; rfl) (hfirst w hw)
    · rename_i hlt
      refine ⟨by simp [hmem], List.forall_mem_append.mpr ⟨hfirst, ?_⟩⟩
      simpa using along_isLE_of_not_lt hlt

theorem Picks.addAll {d : Direction} {type : ValueType} {vs ws : List Value}
    (h : a.Picks d type vs) (hw : ∀ w ∈ ws, w.isNull = false ∧ w.type = type) :
    ∃ b, a.addAll ws = .ok b ∧ b.Picks d type (vs ++ ws) := by
  induction ws generalizing a vs with
  | nil => exact ⟨a, rfl, by simpa using h⟩
  | cons w ws ih =>
    rw [List.forall_mem_cons] at hw
    obtain ⟨b, hb, hpicks⟩ := h.add hw.1.1 hw.1.2
    obtain ⟨c, hc, hall⟩ := ih hpicks hw.2
    exact ⟨c, by rw [Accumulator.addAll, hb]; exact hc, by simpa using hall⟩

theorem addAll_count {vs : List Value} (ha : a.reducer = .count) (hv : ∀ v ∈ vs, v.isNull = false) :
    ∃ b, a.addAll vs = .ok b ∧ b.reducer = .count ∧ b.count = a.count + vs.length := by
  induction vs generalizing a with
  | nil => exact ⟨a, rfl, ha, rfl⟩
  | cons v vs ih =>
    rw [List.forall_mem_cons] at hv
    have hstep : ∃ x, step a.reducer a.value v = .ok x := by
      rw [ha, step]
      split <;> exact ⟨_, rfl⟩
    obtain ⟨x, hx⟩ := hstep
    obtain ⟨b, hb, hr, hc⟩ := ih (a := ⟨a.reducer, x, a.count + 1⟩) ha hv.2
    refine ⟨b, ?_, hr, by simp [hc, Nat.add_comm, Nat.add_left_comm]⟩
    rw [addAll, add, if_neg (by simp [hv.1]), hx]
    exact hb

theorem addAll_floats {xs : List Float} (hr : a.reducer = .sum)
    (ha : a.value = .null .float ∨ ∃ x, a.value = .ofFloat x) :
    ∃ b, a.addAll (xs.map .ofFloat) = .ok b ∧ b.reducer = .sum := by
  induction xs generalizing a with
  | nil => exact ⟨a, rfl, hr⟩
  | cons x xs ih =>
    have hstep : ∃ y, step a.reducer a.value (.ofFloat x) = .ok (.ofFloat y) := by
      rw [hr, step]
      rcases ha with ha | ⟨y, ha⟩
      · exact ⟨x, by simp [ha]⟩
      · exact ⟨y + x, by simp [ha, Value.ofFloat, Value.add, Value.arithmetic, Scalar.type,
          ValueType.isNumeric, ArithmeticOp.onFloats]⟩
    obtain ⟨y, hy⟩ := hstep
    obtain ⟨b, hb, hbr⟩ := ih (a := ⟨a.reducer, .ofFloat y, a.count + 1⟩) hr (.inr ⟨y, rfl⟩)
    refine ⟨b, ?_, hbr⟩
    rw [List.map_cons, addAll, add, if_neg (by simp [Value.ofFloat]), hy]
    exact hb

theorem type_step {r : Reducer} {x v y : Value} (hv : v.type = x.type) (h : step r x v = .ok y) :
    y.type = x.type := by
  unfold step at h
  split at h
  · cases h
    exact hv
  · cases r with
    | sum =>
      simp only [Value.add, Value.arithmetic] at h
      split at h
      · split at h
        · split at h
          · cases h
            rfl
          · cases h
        · cases h
          rfl
        · cases h
          rfl
      · cases h
    | min | max =>
      obtain ⟨o, -, rfl⟩ := map_eq_ok.mp h
      split <;> simp [hv]
    | count =>
      cases h
      rfl

theorem type_add {b : Accumulator} {v : Value} (hv : v.type = a.value.type)
    (h : a.add v = .ok b) : b.reducer = a.reducer ∧ b.value.type = a.value.type := by
  unfold add at h
  split at h
  · cases h
    exact ⟨rfl, rfl⟩
  · obtain ⟨x, hstep, rfl⟩ := map_eq_ok.mp h
    exact ⟨rfl, type_step hv hstep⟩

theorem type_addAll {b : Accumulator} {vs : List Value} (hv : ∀ v ∈ vs, v.type = a.value.type)
    (h : a.addAll vs = .ok b) : b.reducer = a.reducer ∧ b.value.type = a.value.type := by
  induction vs generalizing a with
  | nil =>
    cases h
    exact ⟨rfl, rfl⟩
  | cons v vs ih =>
    rw [List.forall_mem_cons] at hv
    obtain ⟨c, hadd, h⟩ := bind_eq_ok.mp h
    obtain ⟨hreducer, htype⟩ := type_add hv.1 hadd
    obtain ⟨hr, ht⟩ := ih (htype ▸ hv.2) h
    exact ⟨hr.trans hreducer, ht.trans htype⟩

theorem type_result (a : Accumulator) : a.result.type = a.reducer.resultType a.value.type := by
  rw [result]
  cases a.reducer <;> rfl

end Accumulator

/-- Whether the integers of a group have a sum that leaves the range on the way. -/
def Overflows (r : Reducer) (type : ValueType) (vs : List Value) : Prop :=
  r = .sum ∧ type = .integer ∧ ∃ p, p <+: integers vs ∧ ¬Fits64 p.sum

theorem overflows_iff {r : Reducer} {type : ValueType} {vs : List Value} :
    Overflows r type vs ↔ r = .sum ∧ type = .integer ∧ ¬SumsFit 0 (integers vs) := by
  simp [Overflows, SumsFit]

/-- What the measures of a group reduce to. Floating-point sums are left open. -/
def Reduces (r : Reducer) (type : ValueType) (vs : List Value) (result : Value) : Prop :=
  match r with
  | .sum => type = .integer →
      if counted vs = [] then result = .null type
      else ∃ n, result = .ofInt64 n ∧ n.toInt = (integers vs).sum
  | .min => if counted vs = [] then result = .null type
      else Accumulator.Extreme .ascending (counted vs) result
  | .max => if counted vs = [] then result = .null type
      else Accumulator.Extreme .descending (counted vs) result
  | .count => result = .ofInt64 (Int64.ofNat (counted vs).length)

theorem counted_of_integers {vs : List Value} (hv : ∀ v ∈ vs, v.type = .integer) :
    ∃ ns : List Int64, counted vs = ns.map .ofInt64 ∧ integers vs = ns.map Int64.toInt := by
  induction vs with
  | nil => exact ⟨[], rfl, rfl⟩
  | cons v vs ih =>
    rw [List.forall_mem_cons] at hv
    obtain ⟨ns, hc, hi⟩ := ih hv.2
    match v, hv.1 with
    | .null _, _ =>
      exact ⟨ns, by simpa [counted] using hc, by simpa [integers, Value.integer?] using hi⟩
    | .present (.integer n), _ =>
      exact ⟨n :: ns, by simpa [counted, Value.ofInt64] using hc,
        by simpa [integers, Value.integer?] using hi⟩

theorem counted_of_floats {vs : List Value} (hv : ∀ v ∈ vs, v.type = .float) :
    ∃ xs : List Float, counted vs = xs.map .ofFloat := by
  induction vs with
  | nil => exact ⟨[], rfl⟩
  | cons v vs ih =>
    rw [List.forall_mem_cons] at hv
    obtain ⟨xs, hc⟩ := ih hv.2
    match v, hv.1 with
    | .null _, _ => exact ⟨xs, by simpa [counted] using hc⟩
    | .present (.float x), _ => exact ⟨x :: xs, by simpa [counted, Value.ofFloat] using hc⟩

theorem isNull_of_mem_counted {vs : List Value} {v : Value} (h : v ∈ counted vs) :
    v.isNull = false := by simpa using (List.mem_filter.mp h).2

theorem addAll_extremum {type : ValueType} {vs : List Value} (d : Direction)
    (hv : ∀ v ∈ vs, v.type = type) :
    ∃ b, (Accumulator.empty (Accumulator.extremum d) type).addAll vs = .ok b ∧
      (if counted vs = [] then b.value = .null type
        else Accumulator.Extreme d (counted vs) b.value) ∧ b.reducer = Accumulator.extremum d := by
  have hcounted : ∀ v ∈ counted vs, v.isNull = false ∧ v.type = type := fun v hmem =>
    ⟨isNull_of_mem_counted hmem, hv v (List.mem_filter.mp hmem).1⟩
  obtain ⟨b, hb, hpicks⟩ := (Accumulator.picks_empty d type).addAll hcounted
  rw [Accumulator.addAll_counted] at hb
  exact ⟨b, hb, by simpa using hpicks.value, hpicks.reducer⟩

/-- Measures reduce as they should unless a sum of integers overflows. -/
theorem addAll_reduces {r : Reducer} {type : ValueType} {vs : List Value}
    (hr : r = .count ∨ type.isNumeric) (hv : ∀ v ∈ vs, v.type = type)
    (h : ¬Overflows r type vs) :
    ∃ b, (Accumulator.empty r type).addAll vs = .ok b ∧ Reduces r type vs b.result := by
  cases r with
  | count =>
    have hcounted : ∀ v ∈ counted vs, v.isNull = false := fun v => isNull_of_mem_counted
    obtain ⟨b, hb, hbr, hcount⟩ := Accumulator.addAll_count (a := .empty .count type) rfl hcounted
    rw [Accumulator.addAll_counted] at hb
    refine ⟨b, hb, ?_⟩
    rw [Reduces, Accumulator.result, hbr, hcount]
    simp [Accumulator.empty]
  | min =>
    obtain ⟨b, hb, hvalue, hbr⟩ := addAll_extremum .ascending hv
    refine ⟨b, hb, ?_⟩
    rw [Reduces, Accumulator.result, hbr]
    exact hvalue
  | max =>
    obtain ⟨b, hb, hvalue, hbr⟩ := addAll_extremum .descending hv
    refine ⟨b, hb, ?_⟩
    rw [Reduces, Accumulator.result, hbr]
    exact hvalue
  | sum =>
    have hnum : type.isNumeric := by simpa using hr
    match type, hnum with
    | .float, _ =>
      obtain ⟨xs, hxs⟩ := counted_of_floats hv
      have hall : ∃ b, (Accumulator.empty .sum .float).addAll (xs.map .ofFloat) = .ok b ∧
          b.reducer = .sum := Accumulator.addAll_floats rfl (.inl rfl)
      obtain ⟨b, hb, -⟩ := hall
      rw [← hxs, Accumulator.addAll_counted] at hb
      exact ⟨b, hb, fun hint => by cases hint⟩
    | .integer, _ =>
      obtain ⟨ns, hns, hints⟩ := counted_of_integers hv
      have hfits : SumsFit 0 (ns.map Int64.toInt) := by
        by_contra hover
        exact h (overflows_iff.mpr ⟨rfl, rfl, hints ▸ hover⟩)
      cases ns with
      | nil =>
        refine ⟨.empty .sum .integer, ?_, fun _ => ?_⟩
        · rw [← Accumulator.addAll_counted, hns]
          rfl
        · rw [if_pos (by simpa using hns)]
          rfl
      | cons n ns =>
        rw [List.map_cons, sumsFit_cons, Int.zero_add] at hfits
        obtain ⟨z, hz, hfold⟩ := (Value.foldlM_add n ns).1 hfits.2
        refine ⟨⟨.sum, .ofInt64 z, ns.length + 1⟩, ?_, fun _ => ?_⟩
        · rw [← Accumulator.addAll_counted, hns, Accumulator.addAll_sum_empty, hfold]
          rfl
        · rw [if_neg (by simp [hns]), hints, List.map_cons, List.sum_cons]
          exact ⟨z, rfl, hz⟩

theorem addAll_overflows {r : Reducer} {type : ValueType} {vs : List Value}
    (hv : ∀ v ∈ vs, v.type = type) (h : Overflows r type vs) :
    ∃ x y, (Accumulator.empty r type).addAll vs =
      .error (.arithmetic (.binary "addition" x y)) := by
  obtain ⟨rfl, rfl, hover⟩ := overflows_iff.mp h
  obtain ⟨ns, hns, hints⟩ := counted_of_integers hv
  rw [hints] at hover
  cases ns with
  | nil => exact absurd (by simp [SumsFit, Fits64]) hover
  | cons n ns =>
    rw [List.map_cons, sumsFit_cons, Int.zero_add] at hover
    obtain ⟨x, y, hfold⟩ := (Value.foldlM_add n ns).2 fun hrest => hover ⟨by decide, hrest⟩
    refine ⟨x, y, ?_⟩
    rw [← Accumulator.addAll_counted, hns, Accumulator.addAll_sum_empty, hfold]
    rfl

end DatasetAlgebra
