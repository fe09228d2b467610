import DeltaForgeBench.Engines.SqlQuery
import DeltaForgeBench.Runner.RunWorkload

/-! # One execution of a measured step

What the run loop makes of one call of an adapter: the record it writes, and
the rows behind it. -/
namespace DeltaForgeBench.Runner.Measured
open DeltaForgeBench.Base.Text DeltaForgeBench.Base.Hashing
open DeltaForgeBench.Engines.Base DeltaForgeBench.Engines.SqlQuery
open DeltaForgeBench.Workloads.Spec DeltaForgeBench.Runner.Resolve
open DeltaForgeBench.Runner.RunWorkload

/-- A measured step of a workload, over the data it runs on. -/
structure MeasuredStep where
  workload : Workload
  step : WorkloadStep
  dataDir : Path
  scale : Int

def MeasuredStep.job (m : MeasuredStep) (adapter : Adapter) : Job :=
  ⟨adapter.name, m.workload, m.dataDir, m.scale⟩

def MeasuredStep.key (m : MeasuredStep) : Str × Str := (m.workload.name, m.step.id)

/-- One execution of the step: the engine, its place in the run loop, and what
the engine did. -/
structure Execution where
  adapter : Adapter
  runIdx : Nat
  purgeVerified : Bool
  call : Call
  timestamp : Str

section
variable (H : Digest) (binary64 : ℚ → ℚ) (m : MeasuredStep)

/-- The record `run_workload` writes of an execution. -/
def Execution.record (e : Execution) : Record :=
  (m.job e.adapter).record m.step e.runIdx e.purgeVerified
    (e.adapter.runStep H binary64 ((m.job e.adapter).resolve m.step) e.call) e.timestamp

/-- The rows of an execution, if it succeeded. -/
def Execution.returned (e : Execution) : Option (List Row) :=
  if (e.record H binary64 m).exitCode = 0 then (e.call.outcome.toOption).map (·.rows) else none

/-- A record without success carries an error; a success carries the wall time
and the adapter's report of the answer. -/
theorem Execution.record_cases (e : Execution) :
    ((e.record H binary64 m).exitCode ≠ 0 ∧ ∃ err, (e.record H binary64 m).error = some err) ∨
    ∃ answer, e.call.outcome = .ok answer ∧
      (e.record H binary64 m).exitCode = 0 ∧
      (e.record H binary64 m).error = none ∧
      (e.record H binary64 m).wallMs = e.call.sample.wallMs ∧
      (e.record H binary64 m).engineReportedMs =
        (e.adapter.report H binary64 ((m.job e.adapter).resolve m.step) answer).1 ∧
      (e.record H binary64 m).resultSha256 =
        (e.adapter.report H binary64 ((m.job e.adapter).resolve m.step) answer).2 :=
  e.adapter.runStep_cases H binary64 ((m.job e.adapter).resolve m.step) e.call

end

end DeltaForgeBench.Runner.Measured
