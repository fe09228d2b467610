import DeltaForgeBench.Engines.ShowStats
import DeltaForgeBench.Workloads.Spec

/-! # The `STEP_SQL_QUERY` branch of the adapters

The in-process adapters fetch the rows of the query, count them and hash them
when the step expects rows; Spark adds the time its tracker shows. The df
adapter never sees the rows: the statement it sends returns the statistics of
the query instead. -/
namespace DeltaForgeBench.Engines.SqlQuery
open DeltaForgeBench.Base.Text DeltaForgeBench.Base.Hashing
open DeltaForgeBench.Engines.Base DeltaForgeBench.Engines.ShowStats
open DeltaForgeBench.Workloads.Spec

inductive Adapter
  | duckdb | sparkDefault | sparkTuned | df
  deriving DecidableEq, Repr

/-- The engine's name in the registry, and in every record. -/
def Adapter.name : Adapter → Str
  | .duckdb => "duckdb".toList
  | .sparkDefault => "spark-default".toList
  | .sparkTuned => "spark-tuned".toList
  | .df => "df".toList

theorem Adapter.name_injective {a b : Adapter} (h : a.name = b.name) : a = b := by
  cases a <;> cases b <;> first | rfl | exact absurd h (by decide)

/-- What running the query came to: the rows the engine computed, what Spark's
tracker shows (`none` when reading it raised), and the statistics table df
answers with. -/
structure Answer where
  rows : List Row
  phases : Option (List Int)
  stats : List StatRow

/-- The readings the harness takes around a step. -/
structure Sample where
  wallMs : ℚ
  rssPeakMb : Option ℚ
  cpuPctAvg : Option ℚ

/-- One call of `run_step`: whether the adapter's session is missing, what the
client did, and what was measured around it. -/
structure Call where
  session : Option Str
  outcome : Except Str Answer
  sample : Sample

/-- What the branch found out about a query that ran. -/
structure QueryReport where
  engineReportedMs : Option ℚ
  rowsReturned : Int
  resultSha256 : Option Str

/-- `repr(ValueError(message))`. -/
def valueError (message : Str) : Str := "ValueError('".toList ++ message ++ "')".toList

/-- The branch's frame: the query text is required, an exception becomes the
error of the result, and the measurements are attached either way. -/
def measuredQuery (requires : Str) (step : WorkloadStep) (call : Call)
    (report : Answer → QueryReport) : StepResult :=
  let outcome : Except Str Answer :=
    match step.sql.filter (· ≠ []) with
    | none => .error (valueError requires)
    | some _ => call.outcome
  match outcome with
  | .error e =>
    { stepId := step.id, wallMs := call.sample.wallMs, engineReportedMs := none,
      rssPeakMb := call.sample.rssPeakMb, cpuPctAvg := call.sample.cpuPctAvg,
      rowsReturned := none, resultSha256 := none, exitCode := 1, error := some (e.take 2000) }
  | .ok answer =>
    let r := report answer
    { stepId := step.id, wallMs := call.sample.wallMs, engineReportedMs := r.engineReportedMs,
      rssPeakMb := call.sample.rssPeakMb, cpuPctAvg := call.sample.cpuPctAvg,
      rowsReturned := some r.rowsReturned, resultSha256 := r.resultSha256,
      exitCode := 0, error := none }

section Adapters
variable (H : Digest) (binary64 : ℚ → ℚ) (step : WorkloadStep)

/-- The hash of the fetched rows, for a step that expects rows. -/
def fingerprint (rows : List Row) : Option Str :=
  if step.expectsRows then some (hashResultRows H rows).1 else none

/-- The in-process adapters refuse a step when they have no session. -/
def inProcess (step : WorkloadStep) (call : Call) (report : Answer → QueryReport) : StepResult :=
  match call.session with
  | some message => failure step.id message
  | none => measuredQuery "SQL_QUERY requires sql".toList step call report

/-- `DuckDBEngine.run_step`. -/
def duckdbRunStep (call : Call) : StepResult :=
  inProcess step call fun answer =>
    { engineReportedMs := none, rowsReturned := answer.rows.length
      resultSha256 := fingerprint H step answer.rows }

/-- The time of Spark's tracker: the sum of the phases, in nanoseconds on the
way, and only when it is positive. -/
def trackerMs (phases : Option (List Int)) : Option ℚ :=
  phases.bind fun durations =>
    let totalNs : Int := (durations.map (· * 1000000)).sum
    if 0 < totalNs then some (totalNs / 1000000) else none

/-- `SparkDefaultEngine.run_step` and `SparkTunedEngine.run_step`: the tuned
engine overrides the session's configuration only. -/
def sparkRunStep (call : Call) : StepResult :=
  inProcess step call fun answer =>
    { engineReportedMs := trackerMs answer.phases, rowsReturned := answer.rows.length
      resultSha256 := fingerprint H step answer.rows }

/-- `DeltaForgeEngine.run_step`: time and row count come out of the statistics,
and there is nothing to hash. -/
def dfRunStep (call : Call) : StepResult :=
  measuredQuery (step.kind.text ++ " step requires query text".toList) step call fun answer =>
    let reading := sqlReading binary64 answer.stats
    { engineReportedMs := reading.engineReportedMs
      rowsReturned := reading.innerRowCount.getD 0, resultSha256 := none }

/-- `run_step` of each adapter. -/
def Adapter.runStep (adapter : Adapter) (call : Call) : StepResult :=
  match adapter with
  | .duckdb => duckdbRunStep H step call
  | .sparkDefault => sparkRunStep H step call
  | .sparkTuned => sparkRunStep H step call
  | .df => dfRunStep binary64 step call

end Adapters

/-! ## What a result says about its call -/

theorem measuredQuery_cases (requires : Str) (step : WorkloadStep) (call : Call)
    (report : Answer → QueryReport) :
    ((measuredQuery requires step call report).exitCode = 1 ∧
      ∃ e, (measuredQuery requires step call report).error = some e) ∨
    ∃ answer, call.outcome = .ok answer ∧
      (measuredQuery requires step call report).exitCode = 0 ∧
      (measuredQuery requires step call report).error = none ∧
      (measuredQuery requires step call report).wallMs = call.sample.wallMs ∧
      (measuredQuery requires step call report).engineReportedMs =
        (report answer).engineReportedMs ∧
      (measuredQuery requires step call report).resultSha256 = (report answer).resultSha256 := by
  unfold measuredQuery
  cases step.sql.filter (· ≠ []) with
  | none => exact .inl ⟨rfl, _, rfl⟩
  | some text =>
    cases call.outcome with
    | error e => exact .inl ⟨rfl, _, rfl⟩
    | ok answer => exact .inr ⟨answer, rfl, rfl, rfl, rfl, rfl, rfl⟩

/-- What each adapter reports of a query that ran. -/
def Adapter.report (H : Digest) (binary64 : ℚ → ℚ) (step : WorkloadStep) (adapter : Adapter)
    (answer : Answer) : Option ℚ × Option Str :=
  match adapter with
  | .duckdb => (none, fingerprint H step answer.rows)
  | .sparkDefault => (trackerMs answer.phases, fingerprint H step answer.rows)
  | .sparkTuned => (trackerMs answer.phases, fingerprint H step answer.rows)
  | .df => ((sqlReading binary64 answer.stats).engineReportedMs, none)

/-- A result without success carries an error; a success carries the wall time
and the adapter's report of the answer. -/
theorem Adapter.runStep_cases (H : Digest) (binary64 : ℚ → ℚ) (step : WorkloadStep)
    (adapter : Adapter) (call : Call) :
    ((adapter.runStep H binary64 step call).exitCode ≠ 0 ∧
      ∃ e, (adapter.runStep H binary64 step call).error = some e) ∨
    ∃ answer, call.outcome = .ok answer ∧
      (adapter.runStep H binary64 step call).exitCode = 0 ∧
      (adapter.runStep H binary64 step call).error = none ∧
      (adapter.runStep H binary64 step call).wallMs = call.sample.wallMs ∧
      (adapter.runStep H binary64 step call).engineReportedMs =
        (adapter.report H binary64 step answer).1 ∧
      (adapter.runStep H binary64 step call).resultSha256 =
        (adapter.report H binary64 step answer).2 := by
  have framed : ∀ requires report,
      ((measuredQuery requires step call report).exitCode = 1 ∧
        ∃ e, (measuredQuery requires step call report).error = some e) →
      (measuredQuery requires step call report).exitCode ≠ 0 ∧
        ∃ e, (measuredQuery requires step call report).error = some e := by
    intro requires report h
    obtain ⟨hexit, herr⟩ := h
    exact ⟨by rw [hexit]; decide, herr⟩
  cases adapter with
  | df => exact (measuredQuery_cases _ step call _).imp_left (framed _ _)
  | _ =>
    simp only [Adapter.runStep, duckdbRunStep, sparkRunStep, inProcess]
    cases call.session with
    | some message => exact .inl ⟨by simp [Base.failure], _, rfl⟩
    | none => exact (measuredQuery_cases _ step call _).imp_left (framed _ _)

end DeltaForgeBench.Engines.SqlQuery
