import DeltaForgeBench.Runner.RunWorkload

/-! # The schedule and its durability

Whatever the engine answers and wherever the process stops, the history of a
call is the setup steps, then whole measured runs in schedule order, then at
most one unfinished run; the file holds the records of the whole runs and
nothing else, but for the beginning of a line whose write was cut short. -/
namespace DeltaForgeBench.Runner.Schedule
open DeltaForgeBench.Base.Text DeltaForgeBench.Base.Interrupt
open DeltaForgeBench.Engines.Base DeltaForgeBench.Runner.RunWorkload

/-- A measured run that reached the file. -/
structure Run where
  step : WorkloadStep
  runIdx : Nat
  purge : Option PurgeOutcome
  result : StepResult
  timestamp : Str

def Run.slot (r : Run) : WorkloadStep × Nat := (r.step, r.runIdx)

def verifiedOf (purge : Option PurgeOutcome) : Bool := (purge.map (·.verified)).getD false

def Run.record (job : Job) (r : Run) : Record :=
  job.record r.step r.runIdx (verifiedOf r.purge) r.result r.timestamp

/-- What a run leaves in the history: its purge, the call, the append. -/
def Run.events (job : Job) (r : Run) : List Event :=
  r.purge.toList.map .purged ++
    [.ran .measured (job.resolve r.step) (some r.result), .appended (r.record job)]

/-- Every measured step with every run index, in lexicographic order. -/
def schedule (job : Job) : List (WorkloadStep × Nat) :=
  job.workload.measuredSteps.flatMap fun step => job.runs.map fun runIdx => (step, runIdx)

/-- The resolved steps this engine has something to do for. -/
def applicable (job : Job) (steps : List WorkloadStep) : List WorkloadStep :=
  (steps.map job.resolve).filter fun s => !(s.sql = none ∧ s.fn = none)

/-- A purge happens for a cold run when there is a hook, and only then. -/
def PurgeDue (env : Environment) (job : Job) (runIdx : Nat) (purge : Option PurgeOutcome) : Prop :=
  purge.isSome = (job.isCold runIdx && env.purge.isSome)

/-- The events of a run that was cut off before its record was in the file. -/
inductive Unfinished (env : Environment) (job : Job) (slot : WorkloadStep × Nat) :
    List Event → Prop
  | purged (purge : PurgeOutcome) (due : PurgeDue env job slot.2 (some purge)) :
      Unfinished env job slot [.purged purge]
  | ran (purge : Option PurgeOutcome) (outcome : Option StepResult)
      (due : PurgeDue env job slot.2 purge) :
      Unfinished env job slot
        (purge.toList.map .purged ++ [.ran .measured (job.resolve slot.1) outcome])
  | torn (purge : Option PurgeOutcome) (result : StepResult) (timestamp : Str) (landed : Nat)
      (due : PurgeDue env job slot.2 purge) :
      Unfinished env job slot
        (purge.toList.map .purged ++ [.ran .measured (job.resolve slot.1) (some result),
          .torn (job.record slot.1 slot.2 (verifiedOf purge) result timestamp) landed])

/-- What may follow the whole runs. -/
inductive Tail (env : Environment) (job : Job) (runs : List Run) : List Event → Prop
  | nothing : Tail env job runs []
  | cutOff (slot : WorkloadStep × Nat) (events : List Event)
      (next : runs.map Run.slot ++ [slot] <+: schedule job)
      (unfinished : Unfinished env job slot events) : Tail env job runs events
  | cleanup (events : List Event) (complete : runs.map Run.slot = schedule job)
      (only : ∀ e ∈ events, ∃ step outcome, e = .ran .cleanup step outcome) :
      Tail env job runs events

def tornRecord? : Event → Option Record
  | .torn rec _ => some rec
  | _ => none

/-- What a torn line leaves in the file. -/
def piece (env : Environment) : Event → Str
  | .torn rec landed => (encode env rec).take landed
  | _ => []

/-- A call so far: `before` from setup, then `runs`, then `tail`. -/
structure Account (env : Environment) (job : Job) (P : Str) (before : List Event)
    (runs : List Run) (tail : List Event) (w : World) : Prop where
  file : w.file = P ++ (runs.flatMap fun r => encode env (r.record job)) ++ tail.flatMap (piece env)
  records : w.records = runs.map (·.record job) ++ tail.filterMap tornRecord?
  history : w.history = before ++ runs.flatMap (·.events job) ++ tail
  purges : ∀ r ∈ runs, PurgeDue env job r.runIdx r.purge

/-! ## The answers of the environment -/

/-- The event is what the engine, the hook or the disk made of the events before it. -/
def Answers (env : Environment) (before : List Event) : Event → Prop
  | .ran _ step outcome => outcome = env.runStep before step
  | .purged outcome => ∃ hook, env.purge = some hook ∧ outcome = hook before
  | .appended _ => env.tears before = none
  | .torn _ landed => ∃ h, env.tears before = some (landed, h)

/-- How the event ends the call, if it does: no purge does. -/
def halts (env : Environment) (before : List Event) : Event → Option Halt
  | .ran _ _ none => some .raised
  | .torn _ _ => (env.tears before).map Prod.snd
  | _ => none

/-- Up to here nothing has stopped the call. -/
inductive Going (env : Environment) : List Event → Prop
  | nil : Going env []
  | snoc {before : List Event} {e : Event} (going : Going env before)
      (alive : env.stops before = false) (answers : Answers env before e)
      (on : halts env before e = none) : Going env (before ++ [e])

/-- The call has been stopped behind its last event, or by it. -/
def Ended (env : Environment) (h : Halt) (history : List Event) : Prop :=
  (Going env history ∧ env.stops history = true ∧ h = .killed) ∨
    ∃ before e, history = before ++ [e] ∧ Going env before ∧ env.stops before = false ∧
      Answers env before e ∧ halts env before e = some h

variable {env : Environment} {job : Job} {P : Str} {before : List Event} {runs : List Run}

/-! ## One operation -/

theorem checkpoint_spec (w : World) :
    Triple (· = w) (checkpoint env) (fun _ => (· = w)) (fun _ => (· = w)) := by
  refine Triple.read fun v hv => ?_
  subst hv
  exact Triple.ite (fun _ => Triple.halt fun _ hs => hs) fun _ => Triple.pure fun _ hs => hs

theorem runStep_spec (phase : Phase) (step : WorkloadStep) (w : World) :
    Triple (· = w) (runStep env phase step)
      (fun result s => s = w.log (.ran phase step (some result)))
      (fun _ s => s = w ∨ s = w.log (.ran phase step none)) := by
  refine Triple.bind ((checkpoint_spec w).weaken (fun _ h => h) (fun _ _ h => h)
    fun _ _ h => .inl h) fun _ => ?_
  refine Triple.read fun v hv => ?_
  subst hv
  refine Triple.bind (Triple.modify (Q := fun _ s =>
    s = v.log (.ran phase step (env.runStep v.history step))) ?_) fun _ => ?_
  · intro s hs
    rw [hs]
  cases h : env.runStep v.history step with
  | none =>
    refine Triple.halt ?_
    intro s hs
    exact .inr hs
  | some result =>
    refine Triple.pure ?_
    intro s hs
    exact hs

theorem coldPurge_spec (cold : Bool) (w : World) :
    Triple (· = w) (coldPurge env cold)
      (fun verified s => ∃ purge : Option PurgeOutcome,
        purge.isSome = (cold && env.purge.isSome) ∧ verified = verifiedOf purge ∧
        s = { w with history := w.history ++ purge.toList.map .purged })
      (fun _ => (· = w)) := by
  have skipped : (cold && env.purge.isSome) = false → Triple (· = w) (pure false)
      (fun verified s => ∃ purge : Option PurgeOutcome,
        purge.isSome = (cold && env.purge.isSome) ∧ verified = verifiedOf purge ∧
        s = { w with history := w.history ++ purge.toList.map .purged })
      (fun _ => (· = w)) := by
    intro hc
    refine Triple.pure ?_
    intro s h
    subst h
    exact ⟨none, by simp [hc], rfl, by simp⟩
  unfold coldPurge
  split
  · rename_i hook
    exact skipped (by simp [hook])
  · rename_i f hook
    refine Triple.ite (fun hc => ?_) (fun hc => skipped (by simp [hc]))
    refine Triple.bind (checkpoint_spec w) fun _ => ?_
    refine Triple.read fun v hv => ?_
    subst hv
    refine Triple.bind (Triple.modify (Q := fun _ s => s = v.log (.purged (f v.history))) ?_)
      fun _ => Triple.pure ?_
    · intro s hs
      rw [hs]
    · intro s hs
      exact ⟨some (f v.history), by simp [hc, hook], rfl, hs⟩

theorem appendRecord_spec (rec : Record) (w : World) :
    Triple (· = w) (appendRecord env rec)
      (fun _ s => s = ⟨w.file ++ encode env rec, w.records ++ [rec], w.history ++ [.appended rec]⟩)
      (fun _ s => s = w ∨ ∃ landed, s = ⟨w.file ++ (encode env rec).take landed,
        w.records ++ [rec], w.history ++ [.torn rec landed]⟩) := by
  refine Triple.bind ((checkpoint_spec w).weaken (fun _ h => h) (fun _ _ h => h)
    fun _ _ h => .inl h) fun _ => ?_
  refine Triple.read fun v hv => ?_
  subst hv
  cases env.tears v.history with
  | none =>
    refine Triple.modify fun s hs => ?_
    rw [hs]
  | some tear =>
    obtain ⟨landed, h⟩ := tear
    refine Triple.bind (Triple.modify (Q := fun _ s => s = ⟨v.file ++ (encode env rec).take landed,
      v.records ++ [rec], v.history ++ [.torn rec landed]⟩) fun s hs => ?_) fun _ => Triple.halt ?_
    · rw [hs]
    · exact fun s hs => .inr ⟨landed, hs⟩

/-! ## One measured run -/

/-- What holds where a measured run of `slot` is cut off. -/
def CutOff (env : Environment) (job : Job) (P : Str) (before : List Event) (runs : List Run)
    (slot : WorkloadStep × Nat) (w : World) : Prop :=
  ∃ tail, (tail = [] ∨ Unfinished env job slot tail) ∧ Account env job P before runs tail w

theorem Account.push {w : World} {r : Run} (a : Account env job P before runs [] w)
    (due : PurgeDue env job r.runIdx r.purge) :
    Account env job P before (runs ++ [r]) []
      ⟨w.file ++ encode env (r.record job), w.records ++ [r.record job],
        w.history ++ r.events job⟩ := by
  refine ⟨by simp [a.file], by simp [a.records], by simp [a.history], ?_⟩
  intro x hx
  rcases List.mem_append.mp hx with hx | hx
  · exact a.purges x hx
  · rw [List.mem_singleton.mp hx]
    exact due

theorem Account.extend {w : World} (a : Account env job P before runs [] w) (events : List Event) :
    Account env job P before runs events
      ⟨w.file ++ events.flatMap (piece env), w.records ++ events.filterMap tornRecord?,
        w.history ++ events⟩ :=
  ⟨by simp [a.file], by simp [a.records], by simp [a.history], a.purges⟩

/-- A purge and a call of the engine leave the file alone. -/
theorem Account.wait {w : World} (a : Account env job P before runs [] w)
    (purge : Option PurgeOutcome) (ran : List Event)
    (hran : ∀ e ∈ ran, ∃ phase step outcome, e = .ran phase step outcome) :
    Account env job P before runs (purge.toList.map .purged ++ ran)
      { w with history := w.history ++ (purge.toList.map .purged ++ ran) } := by
  have still : ∀ e ∈ purge.toList.map Event.purged ++ ran, piece env e = [] ∧ tornRecord? e = none := by
    intro e he
    rcases List.mem_append.mp he with he | he
    · obtain ⟨o, -, rfl⟩ := List.mem_map.mp he
      exact ⟨rfl, rfl⟩
    · obtain ⟨phase, step, outcome, rfl⟩ := hran e he
      exact ⟨rfl, rfl⟩
  have none : (purge.toList.map Event.purged ++ ran).filterMap tornRecord? = [] :=
    List.filterMap_eq_nil_iff.mpr fun e he => (still e he).2
  have nothing : (purge.toList.map Event.purged ++ ran).flatMap (piece env) = [] :=
    List.flatMap_eq_nil_iff.mpr fun e he => (still e he).1
  have extended := a.extend (purge.toList.map .purged ++ ran)
  rwa [none, nothing, List.append_nil, List.append_nil] at extended

theorem measuredRun_spec (step : WorkloadStep) (runIdx : Nat) :
    Triple (Account env job P before runs []) (measuredRun env job step runIdx)
      (fun _ w => ∃ r : Run, r.slot = (step, runIdx) ∧ Account env job P before (runs ++ [r]) [] w)
      (fun _ => CutOff env job P before runs (step, runIdx)) := by
  refine Triple.of_states fun w hw => ?_
  refine Triple.bind ((coldPurge_spec (job.isCold runIdx) w).weaken (fun _ h => h)
    (fun _ _ h => h) fun _ s hs => ⟨[], .inl rfl, hs ▸ hw⟩) fun verified => ?_
  refine Triple.of_states ?_
  intro w₁ h
  obtain ⟨purge, due, rfl, rfl⟩ := h
  have due : PurgeDue env job runIdx purge := due
  have ran : ∀ outcome, Account env job P before runs
      (purge.toList.map .purged ++ [.ran .measured (job.resolve step) outcome])
      { w with history := w.history ++
        (purge.toList.map .purged ++ [.ran .measured (job.resolve step) outcome]) } :=
    fun outcome => hw.wait purge _ (by simp)
  refine Triple.bind ((runStep_spec .measured (job.resolve step) _).weaken (fun _ h => h)
    (fun _ _ h => h) ?_) fun result => ?_
  · rintro _ s (rfl | rfl)
    · have purged := hw.wait purge [] (by simp)
      rw [List.append_nil] at purged
      refine ⟨_, ?_, purged⟩
      cases purge with
      | none => exact .inl rfl
      | some o => exact .inr (.purged o due)
    · refine ⟨_, .inr (.ran purge none due), ?_⟩
      simpa [World.log] using ran none
  refine Triple.read fun w₂ h => ?_
  subst h
  refine (appendRecord_spec _ _).weaken (fun _ h => h) ?_ ?_
  · intro _ s h
    subst h
    let r : Run := ⟨step, runIdx, purge, result, env.now (w.history ++
      (purge.toList.map .purged ++ [.ran .measured (job.resolve step) (some result)]))⟩
    refine ⟨r, rfl, ?_⟩
    simpa [Run.events, Run.record, r] using hw.push (r := r) due
  · rintro _ s (rfl | ⟨landed, rfl⟩)
    · refine ⟨_, .inr (.ran purge (some result) due), ?_⟩
      simpa [World.log] using ran (some result)
    · let timestamp := env.now (w.history ++
        (purge.toList.map .purged ++ [.ran .measured (job.resolve step) (some result)]))
      have torn := hw.extend (purge.toList.map .purged ++
        [.ran .measured (job.resolve step) (some result),
          .torn (job.record step runIdx (verifiedOf purge) result timestamp) landed])
      refine ⟨_, .inr (.torn purge result timestamp landed due), ?_⟩
      cases purge <;> simpa [World.log, piece, List.filterMap_cons, tornRecord?, timestamp] using torn

/-! ## The measured loop -/

/-- The runs of exactly these slots are in the file. -/
def Done (env : Environment) (job : Job) (P : Str) (before : List Event)
    (slots : List (WorkloadStep × Nat)) (w : World) : Prop :=
  ∃ runs : List Run, runs.map Run.slot = slots ∧ Account env job P before runs [] w

/-- What holds wherever the call halts after setup. -/
def Halted (env : Environment) (job : Job) (P : Str) (before : List Event) (w : World) : Prop :=
  ∃ runs tail, runs.map Run.slot <+: schedule job ∧ Tail env job runs tail ∧
    Account env job P before runs tail w

theorem measuredRun_done {slots : List (WorkloadStep × Nat)} {step : WorkloadStep} {runIdx : Nat}
    (next : slots ++ [(step, runIdx)] <+: schedule job) :
    Triple (Done env job P before slots) (measuredRun env job step runIdx)
      (fun _ => Done env job P before (slots ++ [(step, runIdx)]))
      (fun _ => Halted env job P before) := by
  refine Triple.of_states ?_
  intro w h
  obtain ⟨runs, rfl, account⟩ := h
  refine (measuredRun_spec step runIdx).weaken (fun _ h => h ▸ account) ?_ ?_
  · intro _ s h
    obtain ⟨r, hr, account'⟩ := h
    exact ⟨runs ++ [r], by simp [hr], account'⟩
  · intro _ s hs
    obtain ⟨tail, hcut, account'⟩ := hs
    refine ⟨runs, tail, (List.prefix_append _ _).trans next, ?_, account'⟩
    rcases hcut with rfl | unfinished
    · exact .nothing
    · exact .cutOff _ _ next unfinished

theorem flatMap_prefix {α β : Type} (f : α → List β) {done xs : List α} {x : α}
    (h : done ++ [x] <+: xs) : done.flatMap f ++ f x <+: xs.flatMap f := by
  obtain ⟨rest, rfl⟩ := h
  exact ⟨rest.flatMap f, by simp⟩

theorem map_prefix {α β : Type} (f : α → β) {done xs : List α} {x : α}
    (h : done ++ [x] <+: xs) : done.map f ++ [f x] <+: xs.map f := by
  obtain ⟨rest, rfl⟩ := h
  exact ⟨rest.map f, by simp⟩

theorem measuredLoop_spec :
    Triple (Done env job P before [])
      (forEach (fun step => forEach (measuredRun env job step) job.runs) job.workload.measuredSteps)
      (fun _ => Done env job P before (schedule job)) (fun _ => Halted env job P before) := by
  refine Triple.forEach (fun steps => Done env job P before
    (steps.flatMap fun step => job.runs.map fun runIdx => (step, runIdx))) _ fun done step hstep => ?_
  have row := flatMap_prefix (fun step => job.runs.map fun runIdx => (step, runIdx)) hstep
  have inner : Triple _ (forEach (measuredRun env job step) job.runs) _
      (fun _ => Halted env job P before) :=
    Triple.forEach
      (fun idxs => Done env job P before
        ((done.flatMap fun step => job.runs.map fun runIdx => (step, runIdx)) ++
          idxs.map fun runIdx => (step, runIdx))) job.runs ?_
  · refine inner.weaken (fun s hs => by simpa using hs) (fun _ s hs => by simpa using hs)
      (fun _ _ h => h)
  · intro idxs runIdx hidx
    have here := map_prefix (fun runIdx => (step, runIdx)) hidx
    have next := ((List.prefix_append_right_inj (done.flatMap fun step =>
      job.runs.map fun runIdx => (step, runIdx))).mpr here).trans row
    rw [← List.append_assoc] at next
    have one : Triple _ (measuredRun env job step runIdx) _ (fun _ => Halted env job P before) :=
      measuredRun_done next
    simpa using one

/-! ## Cleanup -/

/-- Every run is in the file; only cleanup steps have run since. -/
def CleaningUp (env : Environment) (job : Job) (P : Str) (before : List Event) (w : World) : Prop :=
  ∃ runs tail, runs.map Run.slot = schedule job ∧
    (∀ e ∈ tail, ∃ step outcome, e = Event.ran .cleanup step outcome) ∧
    Account env job P before runs tail w

theorem CleaningUp.log {w : World} (c : CleaningUp env job P before w) (step : WorkloadStep)
    (outcome : Option StepResult) : CleaningUp env job P before (w.log (.ran .cleanup step outcome)) := by
  obtain ⟨runs, tail, complete, only, account⟩ := c
  refine ⟨runs, tail ++ [.ran .cleanup step outcome], complete, ?_,
    by simp [account.file, piece], by simp [account.records, tornRecord?], by simp [account.history],
    account.purges⟩
  intro e he
  rcases List.mem_append.mp he with he | he
  · exact only e he
  · exact ⟨step, outcome, List.mem_singleton.mp he⟩

theorem CleaningUp.halted {w : World} (c : CleaningUp env job P before w) :
    Halted env job P before w := by
  obtain ⟨runs, tail, complete, only, account⟩ := c
  exact ⟨runs, tail, by simp [complete], .cleanup tail complete only, account⟩

theorem CleaningUp.records {w : World} (c : CleaningUp env job P before w) :
    ∃ runs : List Run, runs.map Run.slot = schedule job ∧ w.records = runs.map (·.record job) := by
  obtain ⟨runs, tail, complete, only, account⟩ := c
  refine ⟨runs, complete, ?_⟩
  have whole : tail.filterMap tornRecord? = [] := List.filterMap_eq_nil_iff.mpr fun e he => by
    obtain ⟨step, outcome, rfl⟩ := only e he
    rfl
  rw [account.records, whole, List.append_nil]

theorem cleanupStep_spec (step : WorkloadStep) :
    Triple (CleaningUp env job P before) (cleanupStep env job step)
      (fun _ => CleaningUp env job P before) (fun _ => Halted env job P before) := by
  refine Triple.ite (fun _ => Triple.pure fun _ h => h) fun _ => ?_
  refine Triple.of_states fun w hw => ?_
  refine Triple.bind (Q := fun _ => CleaningUp env job P before)
    ((runStep_spec .cleanup (job.resolve step) w).weaken (fun _ h => h) ?_ ?_)
    fun _ => Triple.pure fun _ h => h
  · intro result s h
    subst h
    exact hw.log _ _
  · rintro _ s (rfl | rfl)
    · exact hw.halted
    · exact (hw.log _ _).halted

/-! ## Setup -/

/-- The setup steps that ran, with what each did; nothing else has happened. -/
structure SettingUp (job : Job) (P : Str) (setup : List (WorkloadStep × Option StepResult))
    (w : World) : Prop where
  file : w.file = P
  records : w.records = []
  history : w.history = setup.map fun o => .ran .setup o.1 o.2
  order : setup.map Prod.fst <+: applicable job job.workload.setupSteps

def Succeeded (o : WorkloadStep × Option StepResult) : Prop :=
  ∃ r, o.2 = some r ∧ r.exitCode = 0

def Failed (o : WorkloadStep × Option StepResult) : Prop :=
  ∃ r, o.2 = some r ∧ r.exitCode ≠ 0

theorem Succeeded.not_failed {o : WorkloadStep × Option StepResult} (h : Succeeded o) :
    ¬ Failed o := by
  intro failed
  obtain ⟨r, hr, bad⟩ := failed
  obtain ⟨r', hr', good⟩ := h
  rw [hr, Option.some.injEq] at hr'
  exact bad (hr' ▸ good)

/-- These setup steps are through, all of them with exit code 0. -/
def ReadyFor (job : Job) (P : Str) (steps : List WorkloadStep) (w : World) : Prop :=
  ∃ setup, SettingUp job P setup w ∧ setup.map Prod.fst = applicable job steps ∧
    ∀ o ∈ setup, Succeeded o

def Aborted (job : Job) (P : Str) (w : World) : Prop :=
  ∃ setup, SettingUp job P setup w ∧ ∃ o ∈ setup, Failed o

def HaltedInSetup (job : Job) (P : Str) (w : World) : Prop :=
  ∃ setup, SettingUp job P setup w ∧ ∀ o ∈ setup, ¬ Failed o

theorem SettingUp.log {setup : List (WorkloadStep × Option StepResult)} {w : World}
    (a : SettingUp job P setup w) {step : WorkloadStep} (outcome : Option StepResult)
    (order : setup.map Prod.fst ++ [step] <+: applicable job job.workload.setupSteps) :
    SettingUp job P (setup ++ [(step, outcome)]) (w.log (.ran .setup step outcome)) :=
  ⟨a.file, a.records, by simp [a.history], by simpa using order⟩

theorem setupStep_spec {done : List WorkloadStep} {step : WorkloadStep}
    (next : done ++ [step] <+: job.workload.setupSteps) :
    Triple (ReadyFor job P done) (setupStep env job step)
      (fun go w => if go then ReadyFor job P (done ++ [step]) w else Aborted job P w)
      (fun _ => HaltedInSetup job P) := by
  refine Triple.ite (fun skip => Triple.pure ?_) fun run => ?_
  · intro w h
    obtain ⟨setup, settingUp, through, good⟩ := h
    refine ⟨setup, settingUp, ?_, good⟩
    simp [applicable, through, skip.1, skip.2]
  refine Triple.of_states ?_
  intro w h
  obtain ⟨setup, settingUp, through, good⟩ := h
  have grown : applicable job (done ++ [step]) = applicable job done ++ [job.resolve step] := by
    simp only [applicable, List.map_append, List.filter_append, List.map_cons, List.map_nil]
    congr 1
    simpa using not_and_or.mp run
  have order : setup.map Prod.fst ++ [job.resolve step] <+: applicable job job.workload.setupSteps := by
    obtain ⟨rest, hrest⟩ := next
    rw [through, ← grown]
    refine ⟨applicable job rest, ?_⟩
    simp only [applicable, ← hrest, List.map_append, List.filter_append]
  refine Triple.bind ((runStep_spec .setup (job.resolve step) w).weaken (fun _ h => h)
    (fun _ _ h => h) ?_) fun result => Triple.pure ?_
  · rintro _ s (rfl | rfl)
    · exact ⟨setup, settingUp, fun o ho => (good o ho).not_failed⟩
    · refine ⟨_, settingUp.log none order, ?_⟩
      intro o ho
      rcases List.mem_append.mp ho with ho | ho
      · exact (good o ho).not_failed
      · intro failed
        obtain ⟨r, hr, -⟩ := failed
        rw [List.mem_singleton.mp ho] at hr
        cases hr
  · intro s h
    subst h
    split
    · rename_i ok
      refine ⟨_, settingUp.log (some result) order, by simp [grown, through], ?_⟩
      intro o ho
      rcases List.mem_append.mp ho with ho | ho
      · exact good o ho
      · exact ⟨result, by simp [List.mem_singleton.mp ho], by simpa using ok⟩
    · rename_i bad
      exact ⟨_, settingUp.log (some result) order, (job.resolve step, some result), by simp,
        result, rfl, by simpa using bad⟩

/-! ## The whole call -/

/-- How a call may have gone: `setup` lists the setup steps that ran, `runs`
the measured runs in the file, `tail` the events after them. -/
structure Conduct (env : Environment) (job : Job) (P : Str)
    (setup : List (WorkloadStep × Option StepResult)) (runs : List Run) (tail : List Event)
    (exit : Except Halt (List Record)) (w : World) : Prop where
  /-- The file is `P`, the runs' records and what a torn line left; the history is
  setup, runs, tail. -/
  account : Account env job P (setup.map fun o => .ran .setup o.1 o.2) runs tail w
  scheduled : runs.map Run.slot <+: schedule job
  rest : Tail env job runs tail
  setupOrder : setup.map Prod.fst <+: applicable job job.workload.setupSteps
  /-- A failing setup step ends the call before any measured step. -/
  aborted : (∃ o ∈ setup, Failed o) → exit = .ok [] ∧ runs = [] ∧ tail = []
  /-- A normal end after a clean setup means the whole schedule ran. -/
  complete : ∀ records, exit = .ok records → (∀ o ∈ setup, Succeeded o) →
    setup.map Prod.fst = applicable job job.workload.setupSteps ∧
      runs.map Run.slot = schedule job
  returned : ∀ records, exit = .ok records → records = runs.map (·.record job)
  coldIff : ∀ r ∈ runs, (r.record job).cold = true ↔ r.runIdx < job.workload.coldRuns
  verifiedCold : ∀ r ∈ runs, (r.record job).purgeVerified = true → (r.record job).cold = true

/-- Where it ends: at a normal end nothing has stopped the call, and what has
stopped any other is the process, an engine call that raised or a write that was
cut short; an exception of the purge hook never does. -/
structure Stops (env : Environment) (exit : Except Halt (List Record)) (w : World) : Prop where
  going : ∀ records, exit = .ok records → Going env w.history
  ended : ∀ h, exit = .error h → Ended env h w.history

theorem Account.verifiedCold {tail : List Event} {w : World}
    (a : Account env job P before runs tail w) {r : Run} (hr : r ∈ runs)
    (verified : (r.record job).purgeVerified = true) : (r.record job).cold = true := by
  have due := a.purges r hr
  cases hp : r.purge with
  | none =>
    rw [show (r.record job).purgeVerified = verifiedOf r.purge from rfl, hp] at verified
    cases verified
  | some o =>
    rw [PurgeDue, hp, Option.isSome_some, eq_comm, Bool.and_eq_true] at due
    exact due.1

theorem record_cold_iff (r : Run) :
    (r.record job).cold = true ↔ r.runIdx < job.workload.coldRuns := by
  simp [Run.record, Job.record, Job.isCold]

/-- The setup part of a call's history. -/
def setupEvents (setup : List (WorkloadStep × Option StepResult)) : List Event :=
  setup.map fun o => .ran .setup o.1 o.2

theorem SettingUp.account {setup : List (WorkloadStep × Option StepResult)} {w : World}
    (a : SettingUp job P setup w) : Account env job P (setupEvents setup) [] [] w :=
  ⟨by simp [a.file], by simp [a.records], by simp [a.history, setupEvents], by simp⟩

/-- How a call may have ended. -/
def Conducted (env : Environment) (job : Job) (P : Str) (exit : Except Halt (List Record))
    (w : World) : Prop :=
  ∃ setup runs tail, Conduct env job P setup runs tail exit w

theorem HaltedInSetup.conducted {h : Halt} {w : World} (a : HaltedInSetup job P w) :
    Conducted env job P (.error h) w := by
  obtain ⟨setup, settingUp, clean⟩ := a
  refine ⟨setup, [], [], settingUp.account, by simp, .nothing, settingUp.order, ?_, nofun, nofun,
    by simp, by simp⟩
  intro failed
  obtain ⟨o, ho, bad⟩ := failed
  exact absurd bad (clean o ho)

theorem Aborted.conducted {w : World} (a : Aborted job P w) :
    Conducted env job P (.ok w.records) w := by
  obtain ⟨setup, settingUp, o, ho, bad⟩ := a
  refine ⟨setup, [], [], settingUp.account, by simp, .nothing, settingUp.order, ?_, ?_, ?_,
    by simp, by simp⟩
  · intro _
    exact ⟨by rw [settingUp.records], rfl, rfl⟩
  · intro _ _ good
    exact absurd bad (good o ho).not_failed
  · intro _ returned
    cases returned
    simp [settingUp.records]

section AfterSetup

variable {setup : List (WorkloadStep × Option StepResult)}
  (through : setup.map Prod.fst = applicable job job.workload.setupSteps)
  (good : ∀ o ∈ setup, Succeeded o)
include through good

theorem Halted.conducted {h : Halt} {w : World} (a : Halted env job P (setupEvents setup) w) :
    Conducted env job P (.error h) w := by
  obtain ⟨runs, tail, scheduled, rest, account⟩ := a
  refine ⟨setup, runs, tail, account, scheduled, rest, by simp [through], ?_, nofun, nofun,
    fun r _ => record_cold_iff r, fun r hr => account.verifiedCold hr⟩
  intro failed
  obtain ⟨o, ho, bad⟩ := failed
  exact absurd bad (good o ho).not_failed

theorem CleaningUp.conducted {w : World} (a : CleaningUp env job P (setupEvents setup) w) :
    Conducted env job P (.ok w.records) w := by
  obtain ⟨runs, tail, complete, only, account⟩ := a
  have whole : tail.filterMap tornRecord? = [] := List.filterMap_eq_nil_iff.mpr fun e he => by
    obtain ⟨step, outcome, rfl⟩ := only e he
    rfl
  refine ⟨setup, runs, tail, account, by simp [complete], .cleanup tail complete only,
    by simp [through], ?_, fun _ _ _ => ⟨through, complete⟩, ?_,
    fun r _ => record_cold_iff r, fun r hr => account.verifiedCold hr⟩
  · intro failed
    obtain ⟨o, ho, bad⟩ := failed
    exact absurd bad (good o ho).not_failed
  · intro _ returned
    cases returned
    rw [account.records, whole, List.append_nil]

/-- From a clean setup on: the measured loop, cleanup, and the returned list. -/
theorem afterSetup_spec :
    Triple (Done env job P (setupEvents setup) [])
      (do
        forEach (fun step => forEach (measuredRun env job step) job.runs) job.workload.measuredSteps
        forEach (cleanupStep env job) job.workload.cleanupSteps
        let w ← get
        pure w.records)
      (fun records w => Conducted env job P (.ok records) w)
      (fun h w => Conducted env job P (.error h) w) := by
  have halted : ∀ h w, Halted env job P (setupEvents setup) w → Conducted env job P (.error h) w :=
    fun _ _ h => h.conducted through good
  refine Triple.bind (measuredLoop_spec.weaken (fun _ h => h) (fun _ _ h => h) halted) fun _ => ?_
  have cleanup : Triple _ (forEach (cleanupStep env job) _) _ _ := Triple.forEach
    (fun _ => CleaningUp env job P (setupEvents setup)) job.workload.cleanupSteps
    fun _ step _ => cleanupStep_spec step
  refine Triple.bind (cleanup.weaken ?_ (fun _ _ h => h) halted) fun _ => ?_
  · intro w h
    obtain ⟨runs, complete, account⟩ := h
    exact ⟨runs, [], complete, by simp, account⟩
  refine Triple.read fun v h => Triple.pure ?_
  intro w hw
  subst hw
  exact h.conducted through good

end AfterSetup

theorem runWorkload_spec :
    Triple (· = { file := P }) (runWorkload env job)
      (fun records w => Conducted env job P (.ok records) w)
      (fun h w => Conducted env job P (.error h) w) := by
  have setup : Triple _ (forWhile (setupStep env job) _) _ _ := Triple.forWhile (ReadyFor job P)
    (Aborted job P) job.workload.setupSteps fun _ _ next => setupStep_spec next
  refine Triple.bind (setup.weaken ?_ (fun _ _ h => h) fun _ _ h => h.conducted) fun ready => ?_
  · intro w h
    subst h
    exact ⟨[], ⟨rfl, rfl, rfl, by simp⟩, rfl, by simp⟩
  refine Triple.ite (fun hr => ?_) (fun hr => ?_)
  · refine Triple.of_states fun w hw => ?_
    rw [if_pos hr] at hw
    obtain ⟨setup, settingUp, through, good⟩ := hw
    refine (afterSetup_spec through good).weaken ?_ (fun _ _ h => h) (fun _ _ h => h)
    intro s h
    subst h
    exact ⟨[], rfl, settingUp.account⟩
  · refine Triple.read fun v hv => Triple.pure ?_
    intro w hw
    subst hw
    have aborted : Aborted job P w := by simpa [hr] using hv
    exact aborted.conducted

/-! ## What stops a call -/

/-- Nothing has stopped the call so far. -/
def On (env : Environment) (w : World) : Prop := Going env w.history

def Off (env : Environment) (h : Halt) (w : World) : Prop := Ended env h w.history

theorem checkpoint_on :
    Triple (On env) (checkpoint env) (fun _ w => On env w ∧ env.stops w.history = false) (Off env) := by
  refine Triple.read fun w hw => ?_
  refine Triple.ite (fun hstops => Triple.halt ?_) fun halive => Triple.pure ?_
  · rintro _ rfl
    exact .inl ⟨hw, hstops, rfl⟩
  · rintro _ rfl
    exact ⟨hw, Bool.eq_false_iff.mpr halive⟩

theorem runStep_on (phase : Phase) (step : WorkloadStep) :
    Triple (On env) (runStep env phase step) (fun _ => On env) (Off env) := by
  refine checkpoint_on.bind fun _ => Triple.read fun w hw => ?_
  refine Triple.bind (Triple.modify (Q := fun _ s =>
    s = w.log (.ran phase step (env.runStep w.history step))) ?_) fun _ => ?_
  · rintro _ rfl
    rfl
  cases houtcome : env.runStep w.history step with
  | none =>
    refine Triple.halt ?_
    rintro _ rfl
    exact .inr ⟨w.history, _, rfl, hw.1, hw.2, houtcome.symm, rfl⟩
  | some result =>
    refine Triple.pure ?_
    rintro _ rfl
    exact .snoc hw.1 hw.2 houtcome.symm rfl

theorem coldPurge_on (cold : Bool) :
    Triple (On env) (coldPurge env cold) (fun _ => On env) (Off env) := by
  have still : Triple (On env) (pure false) (fun _ => On env) (Off env) := Triple.pure fun _ h => h
  unfold coldPurge
  split
  · exact still
  · rename_i hook hpurge
    refine Triple.ite (fun _ => ?_) fun _ => still
    refine checkpoint_on.bind fun _ => Triple.read fun w hw => ?_
    refine Triple.bind (Q := fun _ => On env) (Triple.modify ?_) fun _ => Triple.pure fun _ h => h
    rintro _ rfl
    exact .snoc hw.1 hw.2 ⟨hook, hpurge, rfl⟩ rfl

theorem appendRecord_on (rec : Record) :
    Triple (On env) (appendRecord env rec) (fun _ => On env) (Off env) := by
  refine checkpoint_on.bind fun _ => Triple.read fun w hw => ?_
  cases htears : env.tears w.history with
  | none =>
    refine Triple.modify ?_
    rintro _ rfl
    exact .snoc hw.1 hw.2 htears rfl
  | some tear =>
    refine Triple.bind (Q := fun _ s => s.history = w.history ++ [.torn rec tear.1])
      (Triple.modify ?_) fun _ => Triple.halt fun s hs => ?_
    · rintro _ rfl
      rfl
    · exact .inr ⟨w.history, _, hs, hw.1, hw.2, ⟨tear.2, htears⟩, by simp [halts, htears]⟩

theorem setupStep_on (step : WorkloadStep) :
    Triple (On env) (setupStep env job step) (fun _ => On env) (Off env) :=
  Triple.ite (fun _ => Triple.pure fun _ h => h) fun _ =>
    (runStep_on .setup _).bind fun _ => Triple.pure fun _ h => h

theorem measuredRun_on (step : WorkloadStep) (runIdx : Nat) :
    Triple (On env) (measuredRun env job step runIdx) (fun _ => On env) (Off env) := by
  refine (coldPurge_on _).bind fun _ => (runStep_on .measured _).bind fun _ => ?_
  refine Triple.read fun w hw => ?_
  exact (appendRecord_on _).weaken (fun _ h => h ▸ hw) (fun _ _ h => h) fun _ _ h => h

theorem cleanupStep_on (step : WorkloadStep) :
    Triple (On env) (cleanupStep env job step) (fun _ => On env) (Off env) :=
  Triple.ite (fun _ => Triple.pure fun _ h => h) fun _ =>
    (runStep_on .cleanup _).bind fun _ => Triple.pure fun _ h => h

theorem runWorkload_on :
    Triple (On env) (runWorkload env job) (fun _ => On env) (Off env) := by
  have setup : Triple (On env) (forWhile (setupStep env job) job.workload.setupSteps)
      (fun _ => On env) (Off env) := by
    refine (Triple.forWhile (fun _ => On env) (On env) _ fun _ step _ =>
      (setupStep_on step).weaken (fun _ h => h) ?_ fun _ _ h => h).weaken (fun _ h => h) ?_
        fun _ _ h => h
    · intro go w hw
      split <;> exact hw
    · intro go w hw
      split at hw <;> exact hw
  have measured : Triple (On env) (forEach (fun step => forEach (measuredRun env job step) job.runs)
      job.workload.measuredSteps) (fun _ => On env) (Off env) :=
    Triple.forEach (fun _ => On env) job.workload.measuredSteps fun _ step _ =>
      Triple.forEach (fun _ => On env) job.runs fun _ runIdx _ => measuredRun_on step runIdx
  have cleanup : Triple (On env) (forEach (cleanupStep env job) job.workload.cleanupSteps)
      (fun _ => On env) (Off env) :=
    Triple.forEach (fun _ => On env) job.workload.cleanupSteps fun _ step _ =>
      cleanupStep_on step
  have returns : Triple (On env) (do let w ← get; pure w.records) (fun _ => On env) (Off env) :=
    Triple.read fun w hw => Triple.pure fun _ h => h ▸ hw
  refine setup.bind fun ready => Triple.ite (fun _ => ?_) fun _ => returns
  exact measured.bind fun _ => cleanup.bind fun _ => returns

/-- **For every engine behaviour, purge hook, stopping point, torn write and prior
file content, a call follows the schedule, leaves exactly the records of the runs
it completed, and ends early only where something has stopped it.** -/
theorem runWorkload_conduct (env : Environment) (job : Job) (P : Str) :
    ∃ setup runs tail, Conduct env job P setup runs tail
        (runWorkload env job { file := P }).1 (runWorkload env job { file := P }).2 ∧
      Stops env (runWorkload env job { file := P }).1 (runWorkload env job { file := P }).2 := by
  have triple : Triple (· = { file := P }) (runWorkload env job) _ _ :=
    runWorkload_spec.and (runWorkload_on.weaken (fun w h => h ▸ .nil) (fun _ _ h => h) fun _ _ h => h)
  have spec := triple { file := P } rfl
  cases hrun : runWorkload env job { file := P } with
  | mk exit w =>
    rw [hrun] at spec
    cases exit with
    | ok records =>
      obtain ⟨⟨setup, runs, tail, conduct⟩, going⟩ := spec
      exact ⟨setup, runs, tail, conduct, fun _ _ => going, nofun⟩
    | error h =>
      obtain ⟨⟨setup, runs, tail, conduct⟩, ended⟩ := spec
      refine ⟨setup, runs, tail, conduct, nofun, fun h' he => ?_⟩
      cases he
      exact ended

end DeltaForgeBench.Runner.Schedule
