import DatasetAlgebra.Stream.Release

/-! Computations in steps come to something exactly if each of the steps does. -/
namespace DatasetAlgebra

section

variable {ε α β : Type}

theorem bind_eq_ok {x : Except ε α} {f : α → Except ε β} {b : β} :
    x.bind f = .ok b ↔ ∃ a, x = .ok a ∧ f a = .ok b := by
  cases x <;> simp [Except.bind]

theorem map_eq_ok {x : Except ε α} {f : α → β} {b : β} :
    x.map f = .ok b ↔ ∃ a, x = .ok a ∧ f a = b := by
  cases x <;> simp [Except.map]

end

theorem Recorded.andThen_of_ok {α β : Type} {x : Recorded α} {f : α → Recorded β} {a : α}
    (h : x.outcome = .ok a) : x.andThen f = (f a).after x.log := by
  simp only [andThen, h, after]

theorem Recorded.andThen_of_error {α β : Type} {x : Recorded α} {f : α → Recorded β} {e : Error}
    (h : x.outcome = .error e) : x.andThen f = ⟨x.log, .error e⟩ := by
  simp only [andThen, h]

theorem Recorded.andThen_after {α β : Type} (x : Recorded α) (log : List Event)
    (f : α → Recorded β) : (x.after log).andThen f = (x.andThen f).after log := by
  unfold andThen
  cases hx : x.outcome <;> simp [after, hx]

theorem Recorded.andThen_eq_ok {α β : Type} {x : Recorded α} {f : α → Recorded β} {b : β} :
    (x.andThen f).outcome = .ok b ↔ ∃ a, x.outcome = .ok a ∧ (f a).outcome = .ok b := by
  unfold andThen
  split <;> rename_i h <;> simp [h]

theorem Recorded.outcome_andThen {α β : Type} {x : Recorded α} {a : α} (h : x.outcome = .ok a)
    (f : α → Recorded β) : (x.andThen f).outcome = (f a).outcome := by
  rw [andThen_of_ok h, outcome_after]

/-- A computation comes to a result of one kind, or fails in some way. -/
def Recorded.Ends {α : Type} (x : Recorded α) (good : α → Prop) (failed : Error → Prop) : Prop :=
  match x.outcome with
  | .ok a => good a
  | .error e => failed e

section

variable {α β : Type} {good : α → Prop} {good' : β → Prop} {failed : Error → Prop}

theorem Recorded.ends_of_ok {x : Recorded α} {a : α} (h : x.outcome = .ok a) (ha : good a) :
    x.Ends good failed := by
  rwa [Ends, h]

theorem Recorded.ends_of_error {x : Recorded α} {e : Error} (h : x.outcome = .error e)
    (he : failed e) : x.Ends good failed := by
  rwa [Ends, h]

theorem Recorded.Ends.ok {x : Recorded α} (h : x.Ends good failed) {a : α}
    (ha : x.outcome = .ok a) : good a := by
  rwa [Ends, ha] at h

theorem Recorded.Ends.error {x : Recorded α} (h : x.Ends good failed) {e : Error}
    (he : x.outcome = .error e) : failed e := by
  rwa [Ends, he] at h

theorem Recorded.Ends.mono {x : Recorded α} {good' : α → Prop} {failed' : Error → Prop}
    (h : x.Ends good failed) (hg : ∀ a, good a → good' a) (hf : ∀ e, failed e → failed' e) :
    x.Ends good' failed' := by
  cases hx : x.outcome with
  | ok a => exact ends_of_ok hx (hg a (h.ok hx))
  | error e => exact ends_of_error hx (hf e (h.error hx))

theorem Recorded.Ends.andThen {x : Recorded α} {f : α → Recorded β} (hx : x.Ends good failed)
    (hf : ∀ a, good a → (f a).Ends good' failed) : (x.andThen f).Ends good' failed := by
  cases h : x.outcome with
  | error e => exact ends_of_error (by simp only [Recorded.andThen, h]) (hx.error h)
  | ok a =>
    have hrest := hf a (hx.ok h)
    rwa [Ends, outcome_andThen h]

theorem ReleaseStack.guarding_ends {s : ReleaseStack} {step : Recorded α}
    (hstep : step.Ends good failed) (h : ∀ e, failed e → failed (s.release.onto e)) :
    (s.guarding step).Ends good failed := by
  unfold guarding
  split
  · rename_i e he
    exact h e (hstep.error he)
  · exact hstep

end

theorem ReleaseStack.guarding_of_ok {α : Type} {s : ReleaseStack} {step : Recorded α} {a : α}
    (h : step.outcome = .ok a) : s.guarding step = step := by
  simp only [guarding, h]

theorem ReleaseStack.guarding_of_error {α : Type} {s : ReleaseStack} {step : Recorded α} {e : Error}
    (h : step.outcome = .error e) :
    s.guarding step = ⟨step.log ++ s.release.events, .error (s.release.onto e)⟩ := by
  simp only [guarding, h]

theorem ReleaseStack.guarding_eq_ok {α : Type} {s : ReleaseStack} {step : Recorded α} {a : α} :
    (s.guarding step).outcome = .ok a ↔ step.outcome = .ok a := by
  unfold guarding
  split <;> rename_i h <;> simp [h]

end DatasetAlgebra
