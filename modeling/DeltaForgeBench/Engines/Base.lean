import DeltaForgeBench.Base.Text
import Mathlib.Data.Rat.Defs

/-! # The engine adapter contract

Steps, the structured result an adapter hands back, and the helpers every
adapter shares. Times are exact rationals; a step's callable is known by its
name only, since nothing the runner decides depends on what it does. -/
namespace DeltaForgeBench.Engines.Base
open DeltaForgeBench.Base.Text

/-- `STEP_SQL_QUERY`, `STEP_SQL_DML`, ... in the source's order. -/
inductive StepKind
  | sqlQuery | sqlDml | sqlDdl | maintenance | python | cypherQuery | cypherDml
  deriving DecidableEq, Repr

/-- The text the kind is recorded under. -/
def StepKind.text : StepKind → Str
  | .sqlQuery => "sql_query".toList
  | .sqlDml => "sql_dml".toList
  | .sqlDdl => "sql_ddl".toList
  | .maintenance => "maintenance".toList
  | .python => "python".toList
  | .cypherQuery => "cypher_query".toList
  | .cypherDml => "cypher_dml".toList

theorem StepKind.text_injective : Function.Injective StepKind.text := by
  intro a b h
  cases a <;> cases b <;> first | rfl | exact absurd h (by decide)

structure WorkloadStep where
  id : Str
  kind : StepKind
  sql : Option Str := none
  perEngineSql : Option (List (Str × Str)) := none
  perEngineKind : Option (List (Str × StepKind)) := none
  fn : Option Str := none
  description : Str := []
  measured : Bool := true
  expectsRows : Bool := false
  deriving DecidableEq

/-- A value of the free-form `extra` metrics. -/
inductive Metric
  | num (x : ℚ)
  | text (s : Str)
  deriving DecidableEq

structure StepResult where
  stepId : Str
  wallMs : ℚ
  engineReportedMs : Option ℚ
  rssPeakMb : Option ℚ
  cpuPctAvg : Option ℚ
  rowsReturned : Option Int
  resultSha256 : Option Str
  exitCode : Int
  error : Option Str
  extra : Option (List (Str × Metric)) := none
  deriving DecidableEq

/-- `_failure(step_id, message)` of the in-process adapters. -/
def failure (stepId message : Str) : StepResult where
  stepId := stepId
  wallMs := 0
  engineReportedMs := none
  rssPeakMb := none
  cpuPctAvg := none
  rowsReturned := none
  resultSha256 := none
  exitCode := 2
  error := some message

end DeltaForgeBench.Engines.Base
