import Mathlib.Data.List.Basic
import Mathlib.Data.List.TakeWhile

/-!
Sequences that ascend by a key, and their classes: the items with a key equal to a given one. A
sequence that ascends is the concatenation of its classes along strictly ascending keys.
-/
namespace DatasetAlgebra

variable {α κ : Type} (cmp : κ → κ → Ordering) (key : α → κ)

def Ascending (l : List α) : Prop := l.Pairwise fun a b => (cmp (key a) (key b)).isLE

/-- The items with a key equal to `k`, in their order. -/
def classOf (k : κ) (l : List α) : List α := l.filter fun a => cmp (key a) k == .eq

@[simp] theorem classOf_nil (k : κ) : classOf cmp key k [] = [] := rfl

@[simp] theorem classOf_append (k : κ) (l m : List α) :
    classOf cmp key k (l ++ m) = classOf cmp key k l ++ classOf cmp key k m := by
  simp [classOf]

theorem classOf_reverse (k : κ) (l : List α) :
    classOf cmp key k l.reverse = (classOf cmp key k l).reverse := by simp [classOf]

theorem mem_classOf {k : κ} {l : List α} {a : α} :
    a ∈ classOf cmp key k l ↔ a ∈ l ∧ cmp (key a) k = .eq := by simp [classOf]

theorem classOf_filter (p : α → Bool) (k : κ) (l : List α) :
    classOf cmp key k (l.filter p) = (classOf cmp key k l).filter p :=
  List.filter_comm ..

variable {cmp key}

theorem classOf_cons_of_eq {k : κ} {a : α} {l : List α} (h : cmp (key a) k = .eq) :
    classOf cmp key k (a :: l) = a :: classOf cmp key k l := by simp [classOf, h]

theorem classOf_cons_of_ne {k : κ} {a : α} {l : List α} (h : cmp (key a) k ≠ .eq) :
    classOf cmp key k (a :: l) = classOf cmp key k l := by simp [classOf, h]

theorem classOf_eq_nil {k : κ} {l : List α} (h : ∀ a ∈ l, cmp (key a) k ≠ .eq) :
    classOf cmp key k l = [] := by simpa [classOf] using h

theorem classOf_eq_self {k : κ} {l : List α} (h : ∀ a ∈ l, cmp (key a) k = .eq) :
    classOf cmp key k l = l := by simpa [classOf] using h

theorem classOf_flatMap {β : Type} {key' : β → κ} {f : β → List α}
    (hf : ∀ b, ∀ x ∈ f b, key x = key' b) (k : κ) (l : List β) :
    classOf cmp key k (l.flatMap f) = (classOf cmp key' k l).flatMap f := by
  induction l with
  | nil => rfl
  | cons b l ih =>
    rw [List.flatMap_cons, classOf_append, ih]
    by_cases hk : cmp (key' b) k = .eq
    · rw [classOf_cons_of_eq hk, List.flatMap_cons,
        classOf_eq_self fun x hx => by rw [hf b x hx, hk]]
    · rw [classOf_cons_of_ne hk, classOf_eq_nil fun x hx => by rwa [hf b x hx], List.nil_append]

/-- Whether an item has a key equal to `k`. -/
def sameAs (cmp : κ → κ → Ordering) (key : α → κ) (k : κ) (a : α) : Bool := cmp (key a) k == .eq

/-- The keys of a sequence, each given by the first item of a run of equal keys. -/
def runKeys (cmp : κ → κ → Ordering) (key : α → κ) : List α → List κ
  | [] => []
  | a :: l => key a :: runKeys cmp key (l.dropWhile (sameAs cmp key (key a)))
termination_by l => l.length
decreasing_by exact Nat.lt_succ_of_le (List.dropWhile_suffix _).length_le

theorem Ascending.beyond {a : α} {l : List α} (h : Ascending cmp key (a :: l)) :
    Ascending cmp key (l.dropWhile (sameAs cmp key (key a))) :=
  List.Pairwise.sublist (List.dropWhile_sublist _) (List.Pairwise.of_cons h)

theorem exists_mem_of_mem_runKeys {l : List α} {k : κ} (hk : k ∈ runKeys cmp key l) :
    ∃ a ∈ l, key a = k := by
  induction l using runKeys.induct cmp key with
  | case1 => simp [runKeys] at hk
  | case2 a l ih =>
    rw [runKeys] at hk
    rcases List.mem_cons.mp hk with rfl | hk
    · exact ⟨a, by simp, rfl⟩
    · obtain ⟨b, hb, rfl⟩ := ih hk
      exact ⟨b, List.mem_cons_of_mem a ((List.dropWhile_sublist _).subset hb), rfl⟩

variable [Std.TransCmp cmp]

theorem classOf_congr {j k : κ} (h : cmp j k = .eq) (l : List α) :
    classOf cmp key j l = classOf cmp key k l := by
  simp only [classOf, Std.TransCmp.congr_right h]

theorem sameAs_congr (key : α → κ) {j k : κ} (h : cmp j k = .eq) :
    sameAs cmp key j = sameAs cmp key k :=
  funext fun a => by simp only [sameAs, Std.TransCmp.congr_right h]

theorem classOf_of_key {j k : κ} {l : List α} (h : ∀ a ∈ l, cmp (key a) j = .eq) :
    classOf cmp key k l = if cmp j k = .eq then l else [] := by
  by_cases hjk : cmp j k = .eq
  · rw [if_pos hjk]
    exact classOf_eq_self fun a ha => Std.TransCmp.eq_trans (h a ha) hjk
  · rw [if_neg hjk]
    exact classOf_eq_nil fun a ha hak =>
      hjk (Std.TransCmp.eq_trans (Std.OrientedCmp.eq_symm (h a ha)) hak)

theorem classOf_eq_nil_of_lt {j k : κ} {l : List α} (h : ∀ a ∈ l, cmp j (key a) = .lt)
    (hjk : cmp j k = .eq) : classOf cmp key k l = [] :=
  classOf_eq_nil fun a ha hak => by
    have heq := Std.TransCmp.eq_trans hjk (Std.OrientedCmp.eq_symm hak)
    simp [h a ha] at heq

theorem eq_of_mem_run {a x : α} {l : List α} (h : x ∈ a :: l.takeWhile (sameAs cmp key (key a))) :
    cmp (key x) (key a) = .eq := by
  rcases List.mem_cons.mp h with rfl | h
  · exact Std.ReflCmp.compare_self
  · simpa [sameAs] using List.mem_takeWhile_imp h

theorem Ascending.append {l m : List α} {k : κ} (hl : ∀ x ∈ l, cmp (key x) k = .eq)
    (hm : Ascending cmp key m) (hk : ∀ y ∈ m, (cmp k (key y)).isLE) :
    Ascending cmp key (l ++ m) := by
  refine List.pairwise_append.mpr ⟨?_, hm, fun x hx y hy => ?_⟩
  · refine List.Pairwise.imp_of_mem (fun hx hy _ => ?_) (List.pairwise_of_forall fun _ _ => trivial)
    rw [Std.TransCmp.congr_left (hl _ hx), Std.OrientedCmp.eq_symm (hl _ hy)]
    rfl
  · rw [Std.TransCmp.congr_left (hl x hx)]
    exact hk y hy

theorem Ascending.head_isLE {a : α} {l : List α} (h : Ascending cmp key (a :: l)) :
    ∀ b ∈ a :: l, (cmp (key a) (key b)).isLE := by
  rintro b (_ | ⟨_, hb⟩)
  · exact Std.ReflCmp.isLE_rfl
  · exact List.rel_of_pairwise_cons h hb

theorem Ascending.lt_of_lt_head {j : κ} {a : α} {l : List α} (h : Ascending cmp key (a :: l))
    (hja : cmp j (key a) = .lt) : ∀ b ∈ a :: l, cmp j (key b) = .lt :=
  fun b hb => Std.TransCmp.lt_of_lt_of_isLE hja (h.head_isLE b hb)

theorem Ascending.flatMap {β : Type} {key' : β → κ} {f : β → List α}
    (hf : ∀ b, ∀ x ∈ f b, key x = key' b) {l : List β} (h : Ascending cmp key' l) :
    Ascending cmp key (l.flatMap f) := by
  induction l with
  | nil => exact List.Pairwise.nil
  | cons b l ih =>
    rw [List.flatMap_cons]
    refine Ascending.append (k := key' b) (fun x hx => ?_) (ih h.of_cons) fun y hy => ?_
    · rw [hf b x hx]
      exact Std.ReflCmp.compare_self
    · obtain ⟨c, hc, hy⟩ := List.mem_flatMap.mp hy
      rw [hf c y hy]
      exact h.head_isLE c (by simp [hc])

theorem Ascending.lt_of_mem_dropWhile {a b : α} {l : List α} (h : Ascending cmp key (a :: l))
    (hb : b ∈ l.dropWhile (sameAs cmp key (key a))) : cmp (key a) (key b) = .lt := by
  induction l with
  | nil => simp at hb
  | cons c l ih =>
    have hac := h.head_isLE c (by simp)
    by_cases hc : cmp (key c) (key a) = .eq
    · rw [List.dropWhile_cons_of_pos (by simp [sameAs, hc])] at hb
      exact ih (h.sublist (by simp)) hb
    · rw [List.dropWhile_cons_of_neg (by simp [sameAs, hc])] at hb
      have hlt : cmp (key a) (key c) = .lt := by
        rcases Ordering.isLE_iff_eq_lt_or_eq_eq.mp hac with hlt | heq
        · exact hlt
        · exact absurd (Std.OrientedCmp.eq_symm heq) hc
      have hcb := Ascending.head_isLE (List.Pairwise.of_cons h) b hb
      exact Std.TransCmp.lt_of_lt_of_isLE hlt hcb

theorem Ascending.classOf_beyond {a : α} {l : List α} {k : κ} (h : Ascending cmp key (a :: l))
    (hk : cmp (key a) k = .eq) : classOf cmp key k (l.dropWhile (sameAs cmp key (key a))) = [] :=
  classOf_eq_nil_of_lt (fun _ hc => h.lt_of_mem_dropWhile hc) hk

theorem Ascending.classOf_head {a : α} {l : List α} {k : κ} (h : Ascending cmp key (a :: l))
    (hk : cmp (key a) k = .eq) :
    classOf cmp key k (a :: l) = a :: l.takeWhile (sameAs cmp key (key a)) := by
  rw [classOf_cons_of_eq hk, ← classOf_congr hk]
  have hl := List.takeWhile_append_dropWhile (p := sameAs cmp key (key a)) (l := l)
  have hlead : classOf cmp key (key a) (l.takeWhile (sameAs cmp key (key a))) =
      l.takeWhile (sameAs cmp key (key a)) :=
    classOf_eq_self fun b hb => by simpa [sameAs] using List.mem_takeWhile_imp hb
  have hbeyond := h.classOf_beyond (k := key a) Std.ReflCmp.compare_self
  have hcl := congrArg (classOf cmp key (key a)) hl
  rw [classOf_append, hlead, hbeyond, List.append_nil] at hcl
  rw [hcl]

theorem classOf_dropWhile {a : α} {l : List α} {k : κ} (hk : cmp (key a) k ≠ .eq) :
    classOf cmp key k (a :: l) =
      classOf cmp key k (l.dropWhile (sameAs cmp key (key a))) := by
  have hl := List.takeWhile_append_dropWhile (p := sameAs cmp key (key a)) (l := l)
  have hlead : classOf cmp key k (l.takeWhile (sameAs cmp key (key a))) = [] := by
    rw [classOf_of_key fun b hb => eq_of_mem_run (List.mem_cons_of_mem a hb), if_neg hk]
  have hcl := congrArg (classOf cmp key k) hl
  rw [classOf_append, hlead, List.nil_append] at hcl
  rw [classOf_cons_of_ne hk, hcl]

theorem Ascending.pairwise_runKeys {l : List α} (h : Ascending cmp key l) :
    (runKeys cmp key l).Pairwise fun j k => cmp j k = .lt := by
  induction l using runKeys.induct cmp key with
  | case1 => simp [runKeys]
  | case2 a l ih =>
    rw [runKeys]
    refine List.Pairwise.cons (fun k hk => ?_) (ih h.beyond)
    obtain ⟨b, hb, rfl⟩ := exists_mem_of_mem_runKeys hk
    exact h.lt_of_mem_dropWhile hb

theorem Ascending.head_of_mem_runKeys {l : List α} (h : Ascending cmp key l) {k : κ}
    (hk : k ∈ runKeys cmp key l) : ∃ a, (classOf cmp key k l).head? = some a ∧ key a = k := by
  induction l using runKeys.induct cmp key with
  | case1 => simp [runKeys] at hk
  | case2 a l ih =>
    rw [runKeys, List.mem_cons] at hk
    rcases hk with rfl | hk
    · rw [classOf_cons_of_eq Std.ReflCmp.compare_self]
      exact ⟨a, rfl, rfl⟩
    · obtain ⟨b, hb, rfl⟩ := exists_mem_of_mem_runKeys hk
      rw [classOf_dropWhile (by simp [h.lt_of_mem_dropWhile hb])]
      exact ih h.beyond hk

/-- Every class that is there is the class of exactly one run. -/
theorem exists_runKey_iff {l : List α} {k : κ} :
    (∃ j ∈ runKeys cmp key l, cmp j k = .eq) ↔ classOf cmp key k l ≠ [] := by
  induction l using runKeys.induct cmp key with
  | case1 => simp [runKeys]
  | case2 a l ih =>
    by_cases hk : cmp (key a) k = .eq
    · simp [runKeys, hk, classOf_cons_of_eq hk]
    · rw [runKeys, classOf_dropWhile hk, ← ih]
      simp [hk]

theorem Ascending.head_isLE_of_classOf_ne_nil {a : α} {l : List α} {k : κ}
    (h : Ascending cmp key (a :: l)) (hk : classOf cmp key k (a :: l) ≠ []) :
    (cmp (key a) k).isLE := by
  obtain ⟨c, hc⟩ := List.exists_mem_of_ne_nil _ hk
  obtain ⟨hmem, hck⟩ := (mem_classOf _ _).mp hc
  rw [← Std.TransCmp.congr_right hck]
  exact h.head_isLE c hmem

/-- A sequence that ascends is determined by its classes. -/
theorem Ascending.eq_of_classOf_eq {l m : List α} (hl : Ascending cmp key l)
    (hm : Ascending cmp key m) (h : ∀ k, classOf cmp key k l = classOf cmp key k m) : l = m := by
  have hself (c : α) (n : List α) :
      classOf cmp key (key c) (c :: n) = c :: classOf cmp key (key c) n :=
    classOf_cons_of_eq Std.ReflCmp.compare_self
  induction l generalizing m with
  | nil =>
    cases m with
    | nil => rfl
    | cons b m => simpa [hself] using h (key b)
  | cons a l ih =>
    cases m with
    | nil => simpa [hself] using h (key a)
    | cons b m =>
      -- either head is the least of both sequences, so they are in one class, and first in it
      have hab : (cmp (key a) (key b)).isLE :=
        hl.head_isLE_of_classOf_ne_nil (by rw [h, hself]; simp)
      have hba : (cmp (key b) (key a)).isLE :=
        hm.head_isLE_of_classOf_ne_nil (by rw [← h, hself]; simp)
      have heq : cmp (key a) (key b) = .eq := Std.OrientedCmp.isLE_antisymm hab hba
      have hheads : a = b := by
        have hk := h (key b)
        rw [hself, classOf_cons_of_eq heq] at hk
        exact (List.cons.inj hk).1
      subst hheads
      refine congrArg (a :: ·) (ih hl.of_cons hm.of_cons fun k => ?_)
      have hk := h k
      by_cases hak : cmp (key a) k = .eq
      · rw [classOf_cons_of_eq hak, classOf_cons_of_eq hak] at hk
        exact (List.cons.inj hk).2
      · rwa [classOf_cons_of_ne hak, classOf_cons_of_ne hak] at hk

theorem Ascending.eq_classOf_append {l : List α} {k : κ} (h : Ascending cmp key l)
    (hk : ∀ a ∈ l, (cmp k (key a)).isLE) :
    l = classOf cmp key k l ++ l.filter fun a => cmp (key a) k != .eq := by
  induction l with
  | nil => rfl
  | cons a l ih =>
    by_cases hak : cmp (key a) k = .eq
    · have hrest := ih h.of_cons fun b hb => hk b (List.mem_cons_of_mem a hb)
      rw [classOf_cons_of_eq hak, List.filter_cons_of_neg (by simp [hak]), List.cons_append,
        ← hrest]
    · have hlt : cmp k (key a) = .lt := by
        rcases Ordering.isLE_iff_eq_lt_or_eq_eq.mp (hk a List.mem_cons_self) with hlt | heq
        · exact hlt
        · exact absurd (Std.OrientedCmp.eq_symm heq) hak
      have hne : ∀ b ∈ a :: l, cmp (key b) k ≠ .eq := fun b hb heq => by
        simpa [h.lt_of_lt_head hlt b hb] using Std.OrientedCmp.eq_symm heq
      rw [classOf_eq_nil hne, List.nil_append, List.filter_eq_self.mpr fun b hb => by
        simpa using hne b hb]

/-- A sequence that ascends is the concatenation of its classes along any strictly ascending keys
that leave none of its keys out. -/
theorem Ascending.eq_flatMap_of_covers {l : List α} {ks : List κ} (h : Ascending cmp key l)
    (hks : ks.Pairwise fun j k => cmp j k = .lt)
    (hcover : ∀ a ∈ l, ∃ k ∈ ks, cmp (key a) k = .eq) :
    l = ks.flatMap fun k => classOf cmp key k l := by
  induction ks generalizing l with
  | nil => exact List.eq_nil_iff_forall_not_mem.mpr fun a ha => by simpa using hcover a ha
  | cons k ks ih =>
    obtain ⟨hfirst, hks⟩ := List.pairwise_cons.mp hks
    have hleast : ∀ a ∈ l, (cmp k (key a)).isLE := fun a ha => by
      obtain ⟨j, hj, haj⟩ := hcover a ha
      rw [Std.TransCmp.congr_right haj]
      rcases List.mem_cons.mp hj with rfl | hj
      · exact Std.ReflCmp.isLE_rfl
      · simp [hfirst j hj]
    let rest := l.filter fun a => cmp (key a) k != .eq
    have hcover' : ∀ a ∈ rest, ∃ j ∈ ks, cmp (key a) j = .eq := fun a ha => by
      obtain ⟨hal, hak⟩ := List.mem_filter.mp ha
      obtain ⟨j, hj, haj⟩ := hcover a hal
      rcases List.mem_cons.mp hj with rfl | hj
      · simp [haj] at hak
      · exact ⟨j, hj, haj⟩
    have hclass : ∀ j ∈ ks, classOf cmp key j rest = classOf cmp key j l := fun j hj => by
      rw [classOf_filter]
      refine List.filter_eq_self.mpr fun a ha => ?_
      have hkj := Std.OrientedCmp.gt_of_lt (hfirst j hj)
      rw [Std.TransCmp.congr_left ((mem_classOf _ _).mp ha).2, hkj]
      rfl
    calc l = classOf cmp key k l ++ rest := h.eq_classOf_append hleast
      _ = classOf cmp key k l ++ ks.flatMap fun j => classOf cmp key j rest := by
        rw [← ih (h.sublist List.filter_sublist) hks hcover']
      _ = (k :: ks).flatMap fun j => classOf cmp key j l := by
        rw [List.flatMap_congr hclass, List.flatMap_cons]

theorem Ascending.eq_flatMap_classOf {l : List α} (h : Ascending cmp key l) :
    l = (runKeys cmp key l).flatMap fun k => classOf cmp key k l := by
  refine h.eq_flatMap_of_covers h.pairwise_runKeys fun a ha => ?_
  have hclass : a ∈ classOf cmp key (key a) l :=
    (mem_classOf _ _).mpr ⟨ha, Std.ReflCmp.compare_self⟩
  obtain ⟨k, hk, hka⟩ := exists_runKey_iff.mpr (List.ne_nil_of_mem hclass)
  exact ⟨k, hk, Std.OrientedCmp.eq_symm hka⟩

end DatasetAlgebra
