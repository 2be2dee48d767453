import DatasetAlgebra.Proofs.Dataset.Requests
import DatasetAlgebra.Proofs.Stream.Releases

/-!
Accounts of computations that open streams. A computation is compared with the same one in which
no release fails: it goes the same way unless a release fails while sorting, releases what it does
not hold open in the end, and reports each failed release once, behind the failure that ended it.
-/
namespace DatasetAlgebra

variable {α β : Type} {hooks : Hooks} {fatal : List Event → Error → Prop} {owed : List String}

theorem Recorded.log_prefix_andThen (x : Recorded α) (f : α → Recorded β) :
    x.log <+: (x.andThen f).log := by
  cases h : x.outcome with
  | ok a =>
    rw [andThen_of_ok h]
    exact List.prefix_append ..
  | error e => exact ⟨[], by rw [andThen_of_error h, List.append_nil]⟩

theorem ReleaseStack.log_prefix_guarding (stack : ReleaseStack) (x : Recorded α) :
    x.log <+: (stack.guarding x).log := by
  cases h : x.outcome with
  | ok a => exact ⟨[], by rw [guarding_of_ok h, List.append_nil]⟩
  | error e =>
    rw [guarding_of_error h]
    exact List.prefix_append ..

/-- A computation that shows `log` and fails with `e` was ended by the releases in a step of it
alone. The computation in which no release fails, which shows `all`, gets past that step. -/
def EndedByRelease (hooks : Hooks) (fatal : List Event → Error → Prop) (log all : List Event)
    (e : Error) : Prop :=
  ∃ before step after c, log = before ++ step ++ after ∧ before ++ step <+: all ∧ fatal step c ∧
    hooks.failures before = [] ∧ c.flat = hooks.failures step ∧
    e.flat = c.flat ++ hooks.failures after

namespace EndedByRelease

variable {log all more : List Event} {e e' : Error}

theorem flat (h : EndedByRelease hooks fatal log all e) : e.flat = hooks.failures log := by
  obtain ⟨before, step, after, c, rfl, -, -, hbefore, hc, he⟩ := h
  rw [he, hc, Hooks.failures_append, Hooks.failures_append, hbefore, List.nil_append]

theorem mono (h : EndedByRelease hooks fatal log all e) {fatal' : List Event → Error → Prop}
    (hf : ∀ l c, fatal l c → fatal' l c) : EndedByRelease hooks fatal' log all e := by
  obtain ⟨before, step, after, c, hlog, hall, hc, hrest⟩ := h
  exact ⟨before, step, after, c, hlog, hall, hf step c hc, hrest⟩

theorem extend (h : EndedByRelease hooks fatal log all e) (hall : all <+: more) :
    EndedByRelease hooks fatal log more e := by
  obtain ⟨before, step, after, c, hlog, hprefix, hrest⟩ := h
  exact ⟨before, step, after, c, hlog, hprefix.trans hall, hrest⟩

theorem after (h : EndedByRelease hooks fatal log all e) (hf : hooks.failures more = []) :
    EndedByRelease hooks fatal (more ++ log) (more ++ all) e := by
  obtain ⟨before, step, after, c, rfl, hall, hc, hbefore, hrest⟩ := h
  refine ⟨more ++ before, step, after, c, by simp, ?_, hc, by simp [hf, hbefore], hrest⟩
  rw [List.append_assoc]
  exact (List.prefix_append_right_inj more).mpr hall

/-- What releases fail with that are made on account of the failure comes behind it. -/
theorem followed (h : EndedByRelease hooks fatal log all e)
    (he : e'.flat = e.flat ++ hooks.failures more) :
    EndedByRelease hooks fatal (log ++ more) all e' := by
  obtain ⟨before, step, after, c, rfl, hall, hc, hbefore, hflat, hafter⟩ := h
  refine ⟨before, step, after ++ more, c, List.append_assoc .., hall, hc, hbefore, hflat, ?_⟩
  rw [he, hafter, Hooks.failures_append, List.append_assoc]

end EndedByRelease

/-- A computation `x` that takes over the sources `owed`, next to the same `y` in which no release
fails. By `good` what both come to is related, and some sources are left open. -/
structure Accounts (hooks : Hooks) (fatal : List Event → Error → Prop) (owed : List String)
    (good : α → α → List String → Prop) (x y : Recorded α) : Prop where
  ok : ∀ a, x.outcome = .ok a → hooks.failures x.log = [] ∧ y.log = x.log ∧
    ∃ b left, y.outcome = .ok b ∧ good a b left ∧ Balances owed x.log left
  error : ∀ e, x.outcome = .error e → Balances owed x.log [] ∧
    (EndedByRelease hooks fatal x.log y.log e ∨
      ∃ c, y.outcome = .error c ∧ y.log = x.log ∧ e.flat = c.flat ++ hooks.failures x.log)

namespace Accounts

variable {good : α → α → List String → Prop} {x y : Recorded α}

theorem of_ok {a b : α} (h : good a b owed) : Accounts hooks fatal owed good (.ok a) (.ok b) where
  ok _ ha := by
    cases ha
    exact ⟨rfl, rfl, b, owed, rfl, h, .nil owed⟩
  error _ he := by cases he

theorem fail (e : Error) : Accounts hooks fatal [] good (.fail e) (.fail e) where
  ok _ ha := by cases ha
  error _ he := by
    cases he
    exact ⟨.nil [], .inr ⟨e, rfl, rfl, by simp [Recorded.fail, Recorded.silent]⟩⟩

theorem silent {outcome : Except Error α} (h : ∀ a, outcome = .ok a → good a a []) :
    Accounts hooks fatal [] good (.silent outcome) (.silent outcome) := by
  cases outcome with
  | ok a => exact of_ok (h a rfl)
  | error e => exact fail e

theorem imp (h : Accounts hooks fatal owed good x y) {good' : α → α → List String → Prop}
    (hg : ∀ a b left, good a b left → good' a b left) : Accounts hooks fatal owed good' x y where
  ok a ha := by
    obtain ⟨hf, hlog, b, left, hb, hgood, hbal⟩ := h.ok a ha
    exact ⟨hf, hlog, b, left, hb, hg a b left hgood, hbal⟩
  error := h.error

theorem mono (h : Accounts hooks fatal owed good x y) {fatal' : List Event → Error → Prop}
    (hf : ∀ l c, fatal l c → fatal' l c) : Accounts hooks fatal' owed good x y where
  ok := h.ok
  error e he := ⟨(h.error e he).1, (h.error e he).2.imp_left fun hended => hended.mono hf⟩

theorem perm (h : Accounts hooks fatal owed good x y) {others : List String}
    (hp : owed.Perm others) : Accounts hooks fatal others good x y where
  ok a ha := by
    obtain ⟨hf, hlog, b, left, hb, hgood, hbal⟩ := h.ok a ha
    exact ⟨hf, hlog, b, left, hb, hgood, hbal.perm_left hp⟩
  error e he := ⟨(h.error e he).1.perm_left hp, (h.error e he).2⟩

theorem after {log : List Event} {left : List String} (hf : hooks.failures log = [])
    (hbal : Balances owed log left) (h : Accounts hooks fatal left good x y) :
    Accounts hooks fatal owed good (x.after log) (y.after log) where
  ok a ha := by
    obtain ⟨hf', hlog, b, left, hb, hgood, hbal'⟩ := h.ok a ha
    exact ⟨by simp [hf, hf'], congrArg (log ++ ·) hlog, b, left, hb, hgood, hbal.append hbal'⟩
  error e he := by
    obtain ⟨hbal', hended | ⟨c, hc, hlog, hflat⟩⟩ := h.error e he
    · exact ⟨hbal.append hbal', .inl (hended.after hf)⟩
    · exact ⟨hbal.append hbal', .inr ⟨c, hc, congrArg (log ++ ·) hlog, by simp [hf, hflat]⟩⟩

theorem andThen_of_error (h : Accounts hooks fatal owed good x y) {e : Error}
    (hx : x.outcome = .error e) {good' : β → β → List String → Prop} {f g : α → Recorded β} :
    Accounts hooks fatal owed good' (x.andThen f) (y.andThen g) := by
  obtain ⟨hbal, hended⟩ := h.error e hx
  rw [Recorded.andThen_of_error hx]
  refine ⟨fun _ ha => (by cases ha), fun e' he => ?_⟩
  cases he
  refine ⟨hbal, hended.imp (fun hended => hended.extend (y.log_prefix_andThen g)) ?_⟩
  rintro ⟨c, hc, hlog, hflat⟩
  rw [Recorded.andThen_of_error hc]
  exact ⟨c, rfl, hlog, hflat⟩

/-- What is computed next takes over what the first computation leaves open. -/
theorem andThen (h : Accounts hooks fatal owed good x y) {good' : β → β → List String → Prop}
    {f g : α → Recorded β}
    (hfg : ∀ a b left, good a b left → Accounts hooks fatal left good' (f a) (g b)) :
    Accounts hooks fatal owed good' (x.andThen f) (y.andThen g) := by
  cases hx : x.outcome with
  | error e => exact h.andThen_of_error hx
  | ok a =>
    obtain ⟨hf, hlog, b, left, hb, hgood, hbal⟩ := h.ok a hx
    rw [Recorded.andThen_of_ok hx, Recorded.andThen_of_ok hb, hlog]
    exact (hfg a b left hgood).after hf hbal

theorem guarding {stack : ReleaseStack} (hs : ∀ r ∈ stack.held, r.2.Reports hooks)
    (h : Accounts hooks fatal [] good x y) :
    Accounts hooks fatal (releases stack.release.events)
      (fun a b left => ∃ more, good a b more ∧ left = releases stack.release.events ++ more)
      (stack.guarding x) (stack.quiet.guarding y) := by
  have hreports := ReleaseStack.reports_release hs
  cases hx : x.outcome with
  | ok a =>
    obtain ⟨hf, hlog, b, left, hb, hgood, hbal⟩ := h.ok a hx
    rw [ReleaseStack.guarding_of_ok hx, ReleaseStack.guarding_of_ok hb]
    refine ⟨fun a' ha => ?_, fun e he => by simp [hx] at he⟩
    cases hx.symm.trans ha
    exact ⟨hf, hlog, b, _, hb, ⟨left, hgood, rfl⟩, by simpa using hbal.frame _⟩
  | error e =>
    obtain ⟨hbal, hended⟩ := h.error e hx
    rw [ReleaseStack.guarding_of_error hx]
    refine ⟨fun _ ha => (by cases ha), fun e' he => ?_⟩
    cases he
    have hframed := hbal.frame (releases stack.release.events)
    simp only [List.append_nil] at hframed
    refine ⟨hframed.append hreports.balances, ?_⟩
    rcases hended with hended | ⟨c, hc, hlog, hflat⟩
    · exact .inl ((hended.followed (hreports.flat_onto e)).extend (stack.quiet.log_prefix_guarding y))
    · rw [ReleaseStack.guarding_of_error hc, ReleaseStack.release_quiet, hlog, hreports.flat_onto,
        Hooks.failures_append]
      exact .inr ⟨c, rfl, rfl, by rw [hflat, List.append_assoc]⟩

end Accounts

/-- A computation `x` that fails with what its releases fail with, where the computation `y` in
which no release fails shows the same and succeeds. -/
structure Unreleased (hooks : Hooks) (owed : List String) (x y : Recorded α) : Prop where
  error : ∃ c, x.outcome = .error c ∧ c.flat = hooks.failures x.log
  ok : ∃ b, y.outcome = .ok b
  log : y.log = x.log
  balances : Balances owed x.log []

namespace Unreleased

variable {x y : Recorded α}

theorem after {log : List Event} {left : List String} (hf : hooks.failures log = [])
    (hbal : Balances owed log left) (h : Unreleased hooks left x y) :
    Unreleased hooks owed (x.after log) (y.after log) where
  error := h.error.imp fun c ⟨hc, hflat⟩ => ⟨hc, by simp [hf, hflat]⟩
  ok := h.ok
  log := congrArg (log ++ ·) h.log
  balances := hbal.append h.balances

theorem accounts {good : α → α → List String → Prop} (h : Unreleased hooks owed x y)
    (hfatal : ∀ l c b, x = ⟨l, .error c⟩ → y = ⟨l, .ok b⟩ → fatal l c) :
    Accounts hooks fatal owed good x y := by
  obtain ⟨l, outcome⟩ := x
  obtain ⟨m, other⟩ := y
  obtain ⟨⟨c, hc, hflat⟩, ⟨b, hb⟩, hlog, hbal⟩ := h
  cases hc
  cases hb
  cases hlog
  refine ⟨fun _ ha => (by cases ha), fun e he => ⟨hbal, .inl ?_⟩⟩
  cases he
  exact ⟨[], _, [], c, by simp, by simp, hfatal _ c b rfl rfl, rfl, hflat, by simp⟩

end Unreleased

namespace RowStream

/-- A stream that holds some sources open, next to the same stream released without failure. -/
structure Holds (hooks : Hooks) (s t : RowStream) (left : List String) : Prop where
  sound : s.Sound hooks
  twin : t = s.quiet
  left : left = s.owed

theorem Sound.holds {s : RowStream} (h : s.Sound hooks) : Holds hooks s s.quiet s.owed :=
  ⟨h, rfl, rfl⟩

end RowStream

theorem Accounts.registered {stack : ReleaseStack} (hs : ∀ r ∈ stack.held, r.2.Reports hooks)
    {s : RowStream} (hsound : s.Sound hooks) (name : String)
    {good : α → α → List String → Prop} {x y : Recorded α} (h : Accounts hooks fatal [] good x y) :
    Accounts hooks fatal (releases stack.release.events ++ s.owed)
      (fun a b left => ∃ more, good a b more ∧
        left = releases (stack.register name s).release.events ++ more)
      ((stack.register name s).guarding x) ((stack.quiet.register name s.quiet).guarding y) := by
  rw [RowStream.register_quiet]
  refine (h.guarding (hsound.reports_register hs name)).perm ?_
  rw [RowStream.owed_register]
  exact List.perm_append_comm

namespace Dataset

open RowStream

/-- Reading a dataset accounts for what it opens. -/
structure Accounted (hooks : Hooks) (fatal : List Event → Error → Prop) (d q : Dataset) : Prop where
  schema : q.schema = d.schema
  read : ∀ o f columns, Accounts hooks fatal []
    (fun s t left => Holds hooks s t left ∧ s.schema = d.schema ∧ s.wantedOrder = o)
    (d.read o f columns) (q.read o f columns)

theorem Accounted.mono {d q : Dataset} (h : d.Accounted hooks fatal q)
    {fatal' : List Event → Error → Prop} (hf : ∀ l c, fatal l c → fatal' l c) :
    d.Accounted hooks fatal' q :=
  ⟨h.schema, fun o f columns => (h.read o f columns).mono hf⟩

/-- A request that sorts, shows `log` and fails with `c`, where the same request of the dataset `q`,
in which no release fails, shows the same and succeeds. -/
def FailsToRelease (policy : Policy) (d q : Dataset) (log : List Event) (c : Error) : Prop :=
  policy.sorts ∧ ∃ o f columns t, d.request o f columns policy = ⟨log, .error c⟩ ∧
    q.request o f columns policy = ⟨log, .ok t⟩

variable {d q : Dataset} {policy : Policy} {s : RowStream} {o : SortOrder} {f : Filter}

theorem accounts_abort {good : α → α → List String → Prop} (hs : s.Sound hooks) (e : Error) :
    Accounts hooks fatal s.owed good (abort s e) (abort s.quiet e) := by
  refine ⟨fun _ ha => (by cases ha), fun e' he => ?_⟩
  cases he
  refine ⟨hs.reports.balances, .inr ⟨e, ?_, ?_, hs.reports.flat_onto e⟩⟩ <;>
    simp [abort, Release.quiet, Release.onto]

theorem accounts_settleFilter (hd : q.schema = d.schema) (hs : s.Sound hooks) :
    Accounts hooks fatal s.owed
      (fun u t left => Holds hooks u t left ∧ u.schema = s.schema ∧ u.wantedOrder = s.wantedOrder)
      (d.settleFilter policy s) (q.settleFilter policy s.quiet) := by
  have hres : s.quiet.residualFilter = s.residualFilter := rfl
  unfold settleFilter
  rw [hres, hd]
  split
  · exact .of_ok ⟨hs.holds, rfl, rfl⟩
  · rename_i hall
    split
    · have hsound : (s.applyFilter s.residualFilter).Sound hooks := by
        rw [applyFilter, if_neg hall]
        exact ⟨hs.unfinished, hs.silent.filter _, hs.release⟩
      have hquiet :
          s.quiet.applyFilter s.residualFilter = (s.applyFilter s.residualFilter).quiet := by
        rw [applyFilter, applyFilter, if_neg hall, if_neg hall]
        rfl
      have howed : s.owed = (s.applyFilter s.residualFilter).owed := by
        rw [applyFilter, if_neg hall]
        rfl
      rw [hquiet, howed]
      refine .of_ok ⟨hsound.holds, ?_, ?_⟩ <;> rw [applyFilter, if_neg hall]
    · exact accounts_abort hs _

/-- Sorting succeeds without the failure of the release if that failure is all that ends it. -/
theorem accounts_sortStream {capacity : Nat} {wanted : SortOrder} (hs : s.Sound hooks) :
    Accounts hooks fatal s.owed (fun u t left => Holds hooks u t left ∧ u.schema = s.schema)
        (sortStream capacity wanted o s) (sortStream capacity wanted o s.quiet) ∨
      Unreleased hooks s.owed (sortStream capacity wanted o s)
        (sortStream capacity wanted o s.quiet) := by
  have hrows : s.quiet.rows () = s.rows () := rfl
  have hevents := (SortBuffer.events_fill o capacity (s.rows ())).trans (hs.silent.seen _)
  unfold sortStream
  simp only [hrows, hevents, List.nil_append, pending_quiet]
  cases hfill : ((SortBuffer.empty o capacity).fill (s.rows ())).failure with
  | some e => exact .inl (by simpa only [abort, pending_quiet] using accounts_abort hs e)
  | none =>
    have hreports := hs.reports
    cases hpending : s.pending.failure with
    | some e =>
      refine .inr ⟨⟨e, rfl, ?_⟩, ⟨_, rfl⟩, rfl, hreports.balances⟩
      simpa [hpending] using hreports.failure
    | none =>
      refine .inl ⟨fun u hu => ?_, fun _ he => by cases he⟩
      cases hu
      refine ⟨by simpa [hpending] using hreports.failure.symm, rfl, _, [], rfl, ?_,
        hreports.balances⟩
      refine ⟨⟨⟨rfl, Rows.silent_ofRows _, ?_⟩, rfl, rfl⟩, rfl⟩
      intro r hr
      cases hr

theorem accounts_settleOrder (hd : q.schema = d.schema) (hs : s.Sound hooks)
    (hschema : s.schema = d.schema) (hwanted : s.wantedOrder = o)
    (ho : ∀ k ∈ o.keys, k.column ∈ d.schema.columns) :
    Accounts hooks fatal s.owed (fun u t left => Holds hooks u t left ∧ u.schema = d.schema)
        (d.settleOrder policy o s) (q.settleOrder policy o s.quiet) ∨
      policy.sorts ∧ Unreleased hooks s.owed (d.settleOrder policy o s)
        (q.settleOrder policy o s.quiet) := by
  have hres : s.quiet.residualOrder = s.residualOrder := rfl
  have hlaid : s.quiet.schema = s.schema := rfl
  unfold settleOrder
  rw [hres, hlaid, hd]
  split
  · exact .inl (.of_ok ⟨hs.holds, hschema⟩)
  · rename_i hany
    have hleft : s.residualOrder = o := by
      rcases s.residualOrder_cases with ⟨hr, -⟩ | hr
      · simp [hr, SortOrder.isAny, SortOrder.any] at hany
      · rw [hr, hwanted]
    split
    · rename_i hsorts
      rw [hleft, hschema, SortOrder.onto_self ho]
      exact (accounts_sortStream hs).imp
        (fun h => h.imp fun _ _ _ hu => ⟨hu.1, hu.2.trans hschema⟩) (⟨hsorts, ·⟩)
    · exact .inl (accounts_abort hs _)

theorem Accounted.request (h : Accounted hooks fatal d q)
    (hfatal : ∀ l c, FailsToRelease policy d q l c → fatal l c)
    (ho : ∀ k ∈ o.keys, k.column ∈ d.schema.columns) (columns : List String) :
    Accounts hooks fatal [] (fun u t left => Holds hooks u t left ∧ u.schema = d.schema)
      (d.request o f columns policy) (q.request o f columns policy) := by
  have hfiltered : Accounts hooks fatal []
      (fun s t left => Holds hooks s t left ∧ s.schema = d.schema ∧ s.wantedOrder = o)
      ((d.read o f columns).andThen (d.settleFilter policy))
      ((q.read o f columns).andThen (q.settleFilter policy)) := by
    refine (h.read o f columns).andThen ?_
    rintro s _ _ ⟨⟨hsound, rfl, rfl⟩, hschema, hwanted⟩
    exact (accounts_settleFilter h.schema hsound).imp fun u t left ⟨hu, hus, huw⟩ =>
      ⟨hu, hus.trans hschema, huw.trans hwanted⟩
  -- only the last step can be ended by a release, and then it ends the whole request
  cases hx : ((d.read o f columns).andThen (d.settleFilter policy)).outcome with
  | error e => exact hfiltered.andThen_of_error hx
  | ok s =>
    obtain ⟨hf, hlog, _, _, hy, ⟨⟨hsound, rfl, rfl⟩, hschema, hwanted⟩, hbal⟩ := hfiltered.ok s hx
    have hd : d.request o f columns policy = _ := Recorded.andThen_of_ok hx
    have hq : q.request o f columns policy = _ := (Recorded.andThen_of_ok hy).trans (by rw [hlog])
    rcases accounts_settleOrder h.schema hsound hschema hwanted ho with hnext | ⟨hsorts, hnext⟩
    · rw [hd, hq]
      exact hnext.after hf hbal
    · have hends := hnext.after hf hbal
      rw [← hd, ← hq] at hends
      exact hends.accounts fun l c t hl ht => hfatal l c ⟨hsorts, o, f, columns, t, hl, ht⟩

end Dataset
end DatasetAlgebra
