import DeltaForgeBench.Base.Dict
import DeltaForgeBench.Base.Numeral
import DeltaForgeBench.Base.Sorted
import DeltaForgeBench.Engines.SqlQuery
import DeltaForgeBench.Runner.RunWorkload

/-! # The published pages

A page is rendered from the record files of the four engines. The loader of a
read page and the loop of the write page look at the step ids and the times of
the records they find; the tables below are the ones the page shows. -/
namespace DeltaForgeBench.Reports.BuildPublished
open DeltaForgeBench.Base.Text DeltaForgeBench.Base.Dict DeltaForgeBench.Base.Numeral
open DeltaForgeBench.Base.Sorted DeltaForgeBench.Engines.SqlQuery
open DeltaForgeBench.Runner.RunWorkload

/-- A line of a record file, as `.get` reads it. -/
structure RawRecord where
  workload : Option Str
  stepId : Option Str
  wallMs : Option ℚ
  engineReportedMs : Option ℚ
  error : Option Str
  cold : Bool
  deriving DecidableEq

/-- What the readers see of a record of the run loop. -/
def rawOf (r : Record) : RawRecord where
  workload := some r.workload
  stepId := some r.stepId
  wallMs := some r.wallMs
  engineReportedMs := r.engineReportedMs
  error := r.error
  cold := r.cold

/-- `r.get("step_id") or ""`. -/
def RawRecord.sid (r : RawRecord) : Str := r.stepId.getD []

/-- `(r.get("error") or "unknown").splitlines()[0][:140]`. -/
def RawRecord.errorLine (r : RawRecord) : Str :=
  let text := (r.error.filter (· ≠ [])).getD "unknown".toList
  ((splitlines text).headD []).take 140

/-! ## Read pages -/

/-- What `load_engine_records` has seen so far. -/
structure LoadState where
  warm : List (Str × List ℚ) := []
  cold : List (Str × ℚ) := []
  ok : Nat := 0
  fail : Nat := 0
  firstError : Option Str := none

/-- The engine's own time where there is one, else the wall time. -/
def RawRecord.ms (r : RawRecord) : Option ℚ := r.engineReportedMs.or r.wallMs

/-- One line of the loop in `load_engine_records`. -/
def loadStep (s : LoadState) (r : RawRecord) : LoadState :=
  if ¬ ['q'].isPrefixOf r.sid then s
  else match r.ms, r.error with
    | some ms, none =>
      if r.cold then { s with ok := s.ok + 1, cold := set s.cold r.sid ms }
      else { s with ok := s.ok + 1,
                    warm := set s.warm r.sid (((get? s.warm r.sid).getD []) ++ [ms]) }
    | _, _ => { s with fail := s.fail + 1, firstError := s.firstError.or (some r.errorLine) }

structure Summary where
  ok : Nat
  fail : Nat
  firstError : Option Str
  nQueries : Nat
  deriving DecidableEq

/-- `load_engine_records`: the warm medians by query, and the summary. -/
def loadEngineRecords (lines : List RawRecord) : List (Str × Option ℚ) × Summary :=
  let s := lines.foldl loadStep {}
  (s.warm.map fun (q, v) => (q, median v),
    { ok := s.ok, fail := s.fail, firstError := s.firstError, nQueries := s.warm.length })

/-- The record files of a results directory; an engine may have none. -/
abbrev RecordFiles := Adapter → Option (List RawRecord)

/-- `ENGINE_ORDER`. -/
def engineOrder : List Adapter := [.df, .duckdb, .sparkDefault, .sparkTuned]

/-- `ENGINE_LABEL`. -/
def engineLabel : Adapter → Str
  | .df => "DeltaForge".toList
  | .duckdb => "DuckDB".toList
  | .sparkDefault => "Spark (default)".toList
  | .sparkTuned => "Spark (tuned)".toList

def notRun : Summary := ⟨0, 0, some "engine not run".toList, 0⟩

def loaded (files : RecordFiles) (engine : Adapter) : List (Str × Option ℚ) × Summary :=
  match files engine with
  | none => ([], notRun)
  | some lines => loadEngineRecords lines

/-- `fmt_ms`. -/
def fmtMs (ms : Option ℚ) : Str :=
  match ms with
  | none => ['-']
  | some x => fixed true 2 x

/-- `speedup`. -/
def speedup (dfMs otherMs : Option ℚ) : Str :=
  match dfMs, otherMs with
  | some d, some o => if o ≤ 0 then ['-'] else fixed false 2 (d / o) ++ ['x']
  | _, _ => ['-']

/-- The published value of a query on an engine: `medians[eng].get(q)`. -/
def published (medians : List (Str × Option ℚ)) (q : Str) : Option ℚ := (get? medians q).join

/-- `sorted(queries)` over the engines' queries. -/
def queriesOf (medians : Adapter → List (Str × Option ℚ)) : List Str :=
  sorted (engineOrder.flatMap fun e => (medians e).map Prod.fst).dedup

/-- The median over an engine's completed queries. -/
def aggregate (medians : List (Str × Option ℚ)) : Option ℚ :=
  median (medians.filterMap Prod.snd)

/-- `a or b` over texts. -/
def orText (a : Option Str) (b : Str) : Str := (a.filter (· ≠ [])).getD b

/-- The tables of a read page. -/
structure BenchTables where
  completion : List (List Str)
  perQuery : List (List Str)
  medianRow : List Str
  speedups : List (List Str)
  deriving DecidableEq

/-- The tables of `render_bench_md`, from what was loaded for each engine. -/
def benchTablesOf (medians : Adapter → List (Str × Option ℚ))
    (firstError : Adapter → Option Str) : BenchTables :=
  let qs := queriesOf medians
  let agg := fun e => aggregate (medians e)
  { completion := engineOrder.map fun e =>
      [engineLabel e,
       ((medians e).countP fun m => m.2.isSome).repr.toList ++ " / ".toList ++ qs.length.repr.toList,
       fmtMs (agg e), orText (firstError e) "no failures".toList]
    perQuery := qs.map fun q => q :: engineOrder.map fun e => fmtMs (published (medians e) q)
    medianRow := "**median (across completed queries)**".toList ::
      engineOrder.map fun e => "**".toList ++ fmtMs (agg e) ++ "**".toList
    speedups := qs.map fun q => q :: (engineOrder.filter (· ≠ .df)).map fun e =>
      speedup (published (medians .df) q) (published (medians e) q) }

/-- The tables `render_bench_md` puts on the page of a benchmark. -/
def renderBench (files : RecordFiles) : BenchTables :=
  benchTablesOf (fun e => (loaded files e).1) (fun e => (loaded files e).2.firstError)

/-! ## What the loader publishes -/

/-- The time a record adds to the warm column. -/
def RawRecord.warmMs (r : RawRecord) : Option ℚ :=
  if ['q'].isPrefixOf r.sid then
    match r.ms, r.error with
    | some ms, none => if r.cold then none else some ms
    | _, _ => none
  else none

/-- The times the loader keeps for a query. -/
def warmSamples (lines : List RawRecord) (q : Str) : List ℚ :=
  lines.filterMap fun r => if r.sid = q then r.warmMs else none

theorem loadStep_warm (s : LoadState) (r : RawRecord) :
    (loadStep s r).warm = match r.warmMs with
      | none => s.warm
      | some ms => set s.warm r.sid (((get? s.warm r.sid).getD []) ++ [ms]) := by
  unfold loadStep RawRecord.warmMs
  by_cases hq : ['q'].isPrefixOf r.sid = true
  · rw [if_neg (by simp [hq]), if_pos hq]
    cases r.ms with
    | none => rfl
    | some ms =>
      cases r.error with
      | some e => rfl
      | none =>
        simp only
        split <;> rfl
  · rw [if_pos hq, if_neg hq]

theorem get?_warm (lines : List RawRecord) (q : Str) :
    get? (lines.foldl loadStep {}).warm q =
      if warmSamples lines q = [] then none else some (warmSamples lines q) := by
  induction lines using List.reverseRecOn with
  | nil => rfl
  | append_singleton lines r ih =>
    rw [List.foldl_append, List.foldl_cons, List.foldl_nil, loadStep_warm]
    have grow : warmSamples (lines ++ [r]) q =
        warmSamples lines q ++ (if r.sid = q then r.warmMs else none).toList := by
      cases h : (if r.sid = q then r.warmMs else none) <;> simp [warmSamples, h]
    rw [grow]
    cases hw : r.warmMs with
    | none => simpa using ih
    | some ms =>
      simp only [get?_set]
      by_cases hsid : r.sid = q
      · subst hsid
        simp only [if_true, Option.toList_some, ih]
        split
        · rename_i hnil
          simp [hnil]
        · simp
      · simpa [hsid] using ih

/-- The published value of a query is the median of what the loader kept. -/
theorem published_eq (lines : List RawRecord) (q : Str) :
    published (loadEngineRecords lines).1 q = median (warmSamples lines q) := by
  have h : get? (loadEngineRecords lines).1 q =
      (get? (lines.foldl loadStep {}).warm q).map median :=
    get?_map (fun _ v => median v) _ q
  rw [published, h, get?_warm]
  split
  · rename_i hnil
    simp [hnil]
  · rfl

/-! ## The write page -/

/-- What the loop of `render_write_md` has seen of one engine. -/
structure WriteState where
  warmWall : List ℚ := []
  coldWall : Option ℚ := none
  ok : Nat := 0
  fail : Nat := 0
  firstError : Option Str := none

/-- `sid.endswith(suffix)`. -/
def endsWith (suffix t : Str) : Bool := suffix.isSuffixOf t

/-- The steps the write page passes over. -/
def skippedOnWrite (r : RawRecord) : Bool :=
  r.sid = [] || endsWith "setup".toList r.sid || endsWith "cleanup".toList r.sid

def writeStep (s : WriteState) (r : RawRecord) : WriteState :=
  if skippedOnWrite r then s
  else match r.wallMs, r.error with
    | some wall, none =>
      if r.cold then { s with ok := s.ok + 1, coldWall := some wall }
      else { s with ok := s.ok + 1, warmWall := s.warmWall ++ [wall] }
    | _, _ => { s with fail := s.fail + 1, firstError := s.firstError.or (some r.errorLine) }

structure WriteStats where
  warmMedianMs : ℚ
  warmMinMs : ℚ
  warmMaxMs : ℚ
  warmP95Ms : ℚ
  coldMs : Option ℚ
  rowsPerSec : ℚ
  firstError : Option Str
  ok : Nat
  fail : Nat

/-- `max(0, int(0.95 * n) - 1)`. -/
def p95Index (n : Nat) : Nat := 19 * n / 20 - 1

/-- The statistics of one engine. A file without a warm run counts as not run;
a median of zero is a `ZeroDivisionError`, the outer `none`. -/
def writeStats (nRows : Nat) (lines : Option (List RawRecord)) : Option (Option WriteStats) :=
  match lines with
  | none => some none
  | some lines =>
    let s := lines.foldl writeStep {}
    match median s.warmWall, s.warmWall.min?, s.warmWall.max?,
        (sorted s.warmWall)[p95Index s.warmWall.length]? with
    | some med, some lo, some hi, some p95 =>
      if med = 0 then none
      else some (some
        { warmMedianMs := med, warmMinMs := lo, warmMaxMs := hi, warmP95Ms := p95
          coldMs := s.coldWall, rowsPerSec := nRows / (med / 1000)
          firstError := s.firstError, ok := s.ok, fail := s.fail })
    | _, _, _, _ => some none

structure WriteTables where
  headline : List (List Str)
  detail : List (List Str)
  speeds : List (List Str)
  deriving DecidableEq

def headlineRow (e : Adapter) (s : Option WriteStats) : List Str :=
  match s with
  | none => [engineLabel e, "skipped".toList, ['-'], ['-'], ['-'], "engine not run".toList]
  | some s =>
    [engineLabel e, s.ok.repr.toList ++ " / ".toList ++ (s.ok + s.fail).repr.toList,
     fmtMs (some s.warmMedianMs), fixed false 2 (s.rowsPerSec / 1000000) ++ ['M'],
     fixed false 1 (s.rowsPerSec * 100 / 1000000), orText s.firstError "ok".toList]

def detailRow (e : Adapter) (s : WriteStats) : List Str :=
  [engineLabel e, fmtMs s.coldMs, fmtMs (some s.warmMinMs), fmtMs (some s.warmMedianMs),
   fmtMs (some s.warmP95Ms), fmtMs (some s.warmMaxMs)]

def speedRow (df s : Option WriteStats) (e : Adapter) : List Str :=
  match df, s with
  | some d, some s => [engineLabel e, fixed false 2 (s.rowsPerSec / d.rowsPerSec) ++ ['x']]
  | _, _ => [engineLabel e, ['-']]

def writeTablesOf (stats : Adapter → Option WriteStats) : WriteTables where
  headline := engineOrder.map fun e => headlineRow e (stats e)
  detail := engineOrder.filterMap fun e => (stats e).map (detailRow e)
  speeds := (engineOrder.filter (· ≠ .df)).map fun e => speedRow (stats .df) (stats e) e

/-- The tables `render_write_md` puts on the page; `none` when it raises. -/
def renderWrite (nRows : Nat) (files : RecordFiles) : Option WriteTables :=
  if engineOrder.all fun e => (writeStats nRows (files e)).isSome then
    some (writeTablesOf fun e => (writeStats nRows (files e)).join)
  else none

end DeltaForgeBench.Reports.BuildPublished
