import DeltaForgeBench.Base.Interrupt
import DeltaForgeBench.Runner.Resolve
import DeltaForgeBench.Workloads.Spec

/-! # The run loop of one workload on one engine

`run_workload` drives setup, the measured schedule and cleanup, and appends
one record per measured run to the engine's jsonl file. The engine, the purge
hook, the clock, the moment the process is stopped and the writes that are cut
short are left open: each may depend on everything that happened before. -/
namespace DeltaForgeBench.Runner.RunWorkload
open DeltaForgeBench.Base.Text DeltaForgeBench.Base.Interrupt
open DeltaForgeBench.Engines.Base DeltaForgeBench.Workloads.Spec
open DeltaForgeBench.Runner.Resolve

/-- One line of `raw/<engine>.jsonl`. -/
structure Record where
  workload : Str
  engine : Str
  stepId : Str
  stepKind : StepKind
  stepDescription : Str
  runIdx : Nat
  cold : Bool
  purgeVerified : Bool
  wallMs : ℚ
  engineReportedMs : Option ℚ
  rssPeakMb : Option ℚ
  cpuPctAvg : Option ℚ
  rowsReturned : Option Int
  resultSha256 : Option Str
  exitCode : Int
  error : Option Str
  extra : Option (List (Str × Metric))
  timestampUtc : Str

inductive Phase
  | setup | measured | cleanup
  deriving DecidableEq, Repr

/-- What one call of the purge hook did. -/
inductive PurgeOutcome
  | raised | nothing | result (verified : Bool)
  deriving DecidableEq, Repr

/-- `bool(purge_result and purge_result.verified)`, and `False` after an exception. -/
def PurgeOutcome.verified : PurgeOutcome → Bool
  | .raised => false
  | .nothing => false
  | .result v => v

/-- What an observer of the process sees, in order. A step without outcome raised,
and of a torn line the first characters are in the file. -/
inductive Event
  | ran (phase : Phase) (step : WorkloadStep) (outcome : Option StepResult)
  | purged (outcome : PurgeOutcome)
  | appended (rec : Record)
  | torn (rec : Record) (landed : Nat)

structure World where
  file : Str
  records : List Record := []
  history : List Event := []

def World.log (w : World) (e : Event) : World := { w with history := w.history ++ [e] }

@[simp] theorem World.log_file (w : World) (e : Event) : (w.log e).file = w.file := rfl
@[simp] theorem World.log_records (w : World) (e : Event) : (w.log e).records = w.records := rfl
@[simp] theorem World.log_history (w : World) (e : Event) :
    (w.log e).history = w.history ++ [e] := rfl

/-- Everything outside the loop. `dumps` is the JSON text of a record. -/
structure Environment where
  runStep : List Event → WorkloadStep → Option StepResult
  purge : Option (List Event → PurgeOutcome)
  now : List Event → Str
  stops : List Event → Bool
  /-- How much of a line lands when its write is cut short, and how that ends. -/
  tears : List Event → Option (Nat × Halt)
  dumps : Record → Str

/-- The arguments of one call. -/
structure Job where
  engineName : Str
  workload : Workload
  dataDir : Path
  scale : Int

def Job.resolve (job : Job) (step : WorkloadStep) : WorkloadStep :=
  resolveStep step job.dataDir job.engineName job.scale

def Job.isCold (job : Job) (runIdx : Nat) : Bool := decide (runIdx < job.workload.coldRuns)

/-- The record of one measured run. -/
def Job.record (job : Job) (step : WorkloadStep) (runIdx : Nat) (purgeVerified : Bool)
    (result : StepResult) (timestamp : Str) : Record where
  workload := job.workload.name
  engine := job.engineName
  stepId := step.id
  stepKind := step.kind
  stepDescription := step.description
  runIdx := runIdx
  cold := job.isCold runIdx
  purgeVerified := purgeVerified
  wallMs := result.wallMs
  engineReportedMs := result.engineReportedMs
  rssPeakMb := result.rssPeakMb
  cpuPctAvg := result.cpuPctAvg
  rowsReturned := result.rowsReturned
  resultSha256 := result.resultSha256
  exitCode := result.exitCode
  error := result.error
  extra := result.extra
  timestampUtc := timestamp

/-! ## The program -/

def checkpoint (env : Environment) : Program World Unit := do
  let w ← get
  if env.stops w.history then halt .killed else pure ()

/-- `engine.run_step`. -/
def runStep (env : Environment) (phase : Phase) (step : WorkloadStep) :
    Program World StepResult := do
  checkpoint env
  let w ← get
  let outcome := env.runStep w.history step
  modify (·.log (.ran phase step outcome))
  match outcome with
  | none => halt .raised
  | some result => pure result

/-- The purge hook, called for a cold run only; an exception in it is reported
and the run goes on unverified. -/
def coldPurge (env : Environment) (cold : Bool) : Program World Bool :=
  match env.purge with
  | none => pure false
  | some hook =>
    if cold then do
      checkpoint env
      let w ← get
      let outcome := hook w.history
      modify (·.log (.purged outcome))
      pure outcome.verified
    else pure false

def encode (env : Environment) (rec : Record) : Str := env.dumps rec ++ ['\n']

/-- `_append_record`. -/
def appendRecord (env : Environment) (rec : Record) : Program World Unit := do
  checkpoint env
  let w ← get
  match env.tears w.history with
  | none =>
    modify fun w =>
      { file := w.file ++ encode env rec
        records := w.records ++ [rec]
        history := w.history ++ [.appended rec] }
  | some (landed, h) => do
    -- the list already has the record when its write begins
    modify fun w =>
      { file := w.file ++ (encode env rec).take landed
        records := w.records ++ [rec]
        history := w.history ++ [.torn rec landed] }
    halt h

/-- A setup step; `false` aborts the workload. -/
def setupStep (env : Environment) (job : Job) (step : WorkloadStep) : Program World Bool := do
  let resolved := job.resolve step
  if resolved.sql = none ∧ resolved.fn = none then pure true
  else do
    let result ← runStep env .setup resolved
    pure (result.exitCode == 0)

def measuredRun (env : Environment) (job : Job) (step : WorkloadStep) (runIdx : Nat) :
    Program World Unit := do
  let purgeVerified ← coldPurge env (job.isCold runIdx)
  let result ← runStep env .measured (job.resolve step)
  let w ← get
  appendRecord env (job.record step runIdx purgeVerified result (env.now w.history))

def cleanupStep (env : Environment) (job : Job) (step : WorkloadStep) : Program World Unit := do
  let resolved := job.resolve step
  if resolved.sql = none ∧ resolved.fn = none then pure ()
  else do
    let _ ← runStep env .cleanup resolved

/-- `range(workload.cold_runs + workload.warm_runs)`. -/
def Job.runs (job : Job) : List Nat :=
  List.range (job.workload.coldRuns + job.workload.warmRuns)

/-- `run_workload`. -/
def runWorkload (env : Environment) (job : Job) : Program World (List Record) := do
  let ready ← forWhile (setupStep env job) job.workload.setupSteps
  if ready then do
    forEach (fun step => forEach (measuredRun env job step) job.runs) job.workload.measuredSteps
    forEach (cleanupStep env job) job.workload.cleanupSteps
    let w ← get
    pure w.records
  else do
    let w ← get
    pure w.records

end DeltaForgeBench.Runner.RunWorkload
