import DeltaForgeBench.Base.Dict
import DeltaForgeBench.Base.Numeral
import DeltaForgeBench.Base.Sorted
import DeltaForgeBench.Reports.BuildPublished

/-! # The printed summaries

Three scripts read record files on their own and print medians: one for the
write runs, one for the queries of a run, and one that compares an engine's
queries across two runs. Each has its own idea of which records count. -/
namespace DeltaForgeBench.Reports.Summarizers
open DeltaForgeBench.Base.Text DeltaForgeBench.Base.Dict DeltaForgeBench.Base.Numeral
open DeltaForgeBench.Base.Sorted DeltaForgeBench.Reports.BuildPublished
open DeltaForgeBench.Runner.RunWorkload

/-- A line of a record file with the two fields the published pages never read. -/
structure SummaryRecord extends RawRecord where
  stepKind : Option Str
  exitCode : Option Int

/-- What the scripts see of a record of the run loop. -/
def summaryOf (r : Record) : SummaryRecord where
  toRawRecord := rawOf r
  stepKind := some r.stepKind.text
  exitCode := some r.exitCode

/-- `r.get("error")` as a condition. -/
def SummaryRecord.hasError (r : SummaryRecord) : Bool := r.error.any (· ≠ [])

/-- `r.get("exit_code", 0) == 0`. -/
def SummaryRecord.exitedOk (r : SummaryRecord) : Bool := r.exitCode.getD 0 = 0

/-! ## `summarize_write` -/

/-- `SRC_ROWS`. -/
def srcRows : Nat := 6001215

/-- `SRC_BYTES`. -/
def srcBytes : Nat := 274753951

/-- The successful writes. -/
def SummaryRecord.isWrite (r : SummaryRecord) : Bool :=
  (r.stepKind = some "sql_ddl".toList || r.stepKind = some "sql_dml".toList) &&
    !r.hasError && r.exitedOk

/-- `int(len(warm) * 0.9) - 1 if len(warm) > 1 else 0`. -/
def p90Index (n : Nat) : Nat := if 1 < n then 9 * n / 10 - 1 else 0

structure WriteSummary where
  cold : Option ℚ
  med : ℚ
  p90 : ℚ
  mn : ℚ
  rps : ℚ
  mbs : ℚ

inductive EngineSummary
  | noSuccessfulRuns | noWarmRuns
  | measured (s : WriteSummary)

/-- The warm wall times of one engine; `none` when one is null, which nothing sorts. -/
def warmWrites (recs : List SummaryRecord) : Option (List ℚ) :=
  ((recs.filter (·.isWrite)).filter fun r => !r.cold).mapM (·.wallMs)

/-- One engine of the loop in `main`; `none` when it raises, as on a median of zero. -/
def engineSummary (recs : List SummaryRecord) : Option EngineSummary :=
  let ok := recs.filter (·.isWrite)
  if ok.isEmpty then some .noSuccessfulRuns
  else do
    let warm ← warmWrites recs
    match median warm, (sorted warm)[p90Index warm.length]?, warm.min? with
    | some med, some p90, some mn =>
      if med = 0 then none
      else
        let s : WriteSummary :=
          { cold := (ok.find? (·.cold)).bind (·.wallMs)
            med := med, p90 := p90, mn := mn
            rps := srcRows * 1000 / med
            mbs := srcBytes / 1000000 * 1000 / med }
        return .measured s
    | _, _, _ => return .noWarmRuns

/-- The line of one engine. -/
def engineLine (engine : Str) : EngineSummary → Str
  | .noSuccessfulRuns => ljust 16 engine ++ "  (no successful runs)".toList
  | .noWarmRuns => ljust 16 engine ++ "  (no warm runs)".toList
  | .measured s =>
    ljust 16 engine ++ rjust 10 (s.cold.elim ['-'] (fixedWhole false)) ++
      rjust 13 (fixedWhole false s.med) ++ rjust 13 (fixedWhole false s.p90) ++
      rjust 13 (fixedWhole false s.mn) ++ rjust 14 (fixedWhole true s.rps) ++
      rjust 11 (fixed true 1 s.mbs)

/-- `results[engine]`, by engine. -/
def writeMedians (summaries : List (Str × EngineSummary)) : List (Str × ℚ) :=
  summaries.filterMap fun entry => match entry.2 with
    | .measured s => some (entry.1, s.med)
    | _ => none

def speedupLines (medians : List (Str × ℚ)) : List Str :=
  match get? medians "df".toList with
  | none => []
  | some df => [[], "Speedup vs df (warm median, higher = faster than df):".toList] ++
      (medians.filter fun m => m.1 ≠ "df".toList).map fun m =>
        "  ".toList ++ ljust 16 m.1 ++ rjust 6 (fixed false 2 (df / m.2)) ++ ['x']

def header : Str :=
  ljust 16 "engine".toList ++ rjust 10 "cold_ms".toList ++ rjust 13 "warm_med_ms".toList ++
    rjust 13 "warm_p90_ms".toList ++ rjust 13 "warm_min_ms".toList ++
    rjust 14 "rows/s warm".toList ++ rjust 11 "MB/s warm".toList

/-- `main` on the record files of a run directory, by engine; `none` when it exits
for want of files or raises. -/
def summarizeWrite (files : List (Str × List SummaryRecord)) : Option (List Str) :=
  if files.isEmpty then none
  else do
    let summaries ← files.mapM fun f => (engineSummary f.2).map fun s => (f.1, s)
    return [[], "Parquet input: lineitem.parquet  rows=".toList ++ grouped srcRows ++
        "  bytes=".toList ++ grouped srcBytes,
      "Targets: df=Delta on disk, duckdb=parquet on disk, spark-default=Delta on disk".toList,
      [], header, List.replicate header.length '-'] ++
      summaries.map (fun s => engineLine s.1 s.2) ++ speedupLines (writeMedians summaries)

/-! ## `summarize_run` and `compare_df` -/

/-- `(cold, elapsed)`. -/
abbrev Timed := Bool × ℚ

/-- The engine's own time where there is one, else the wall time, of the records a
script keeps; `none` is the `float(None)` of a record without times. -/
def timedBy (keeps : SummaryRecord → Bool) (lines : List SummaryRecord) :
    Option (List (Str × Timed)) :=
  (lines.filter keeps).mapM fun r => do
    let elapsed ← r.ms
    let stepId ← r.stepId
    return (stepId, (r.cold, elapsed))

/-- `by.setdefault(step_id, []).append(..)`. -/
def byQuery (timed : List (Str × Timed)) : List (Str × List Timed) :=
  (groupBy Prod.fst timed).map fun (q, runs) => (q, runs.map Prod.snd)

/-- The records `_load` of `summarize_run` keeps. -/
def SummaryRecord.inRun (r : SummaryRecord) : Bool :=
  !(r.hasError || !r.exitedOk) && r.stepKind = some "sql_query".toList

/-- `_load`. -/
def loadRun (lines : List SummaryRecord) : Option (List (Str × List Timed)) :=
  (timedBy (·.inRun) lines).map byQuery

/-- `_warm_median`. -/
def warmMedian (runs : List Timed) : Option ℚ :=
  median ((runs.filter fun run => !run.1).map Prod.snd)

/-- The records `load` of `compare_df` keeps. -/
def SummaryRecord.inComparison (r : SummaryRecord) : Bool :=
  !(r.stepKind ≠ some "sql_query".toList || r.hasError)

/-- `load`. -/
def loadComparison (lines : List SummaryRecord) : Option (List (Str × List Timed)) :=
  (timedBy (·.inComparison) lines).map byQuery

/-- `statistics.median(sorted(m for c, m in runs if not c))`, if there is one. -/
def comparedMedian (runs : List Timed) : Option ℚ :=
  median (sorted ((runs.filter fun run => !run.1).map Prod.snd))

/-- `by.get(q, [])`. -/
def runsOf (byQ : List (Str × List Timed)) (q : Str) : List Timed := (get? byQ q).getD []

end DeltaForgeBench.Reports.Summarizers
