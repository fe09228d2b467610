import DeltaForgeBench.Runner.Measured
import DeltaForgeBench.Reports.BuildPublished

/-! # The clock behind a published time

The page promises wall times for DuckDB and Spark and the server's own time
for df. The loader takes whatever the record reports and falls back to the wall
time, whichever engine wrote the record. -/
namespace DeltaForgeBench.Reports.MeasurementBasis
open DeltaForgeBench.Base.Text DeltaForgeBench.Base.Dict DeltaForgeBench.Base.Sorted
open DeltaForgeBench.Base.Hashing DeltaForgeBench.Engines.ShowStats
open DeltaForgeBench.Engines.SqlQuery DeltaForgeBench.Runner.RunWorkload
open DeltaForgeBench.Runner.Measured DeltaForgeBench.Reports.BuildPublished

/-! ## The contract -/

/-- An execution of some measured step. -/
structure StepRun where
  measured : MeasuredStep
  execution : Execution

section
variable (H : Digest) (binary64 : ℚ → ℚ)

def StepRun.record (p : StepRun) : Record := p.execution.record H binary64 p.measured

/-- The file of one engine: the records of its executions, in order. -/
def fileOf (runs : List StepRun) (adapter : Adapter) : List RawRecord :=
  (runs.filter fun p => p.execution.adapter = adapter).map fun p => rawOf (p.record H binary64)

/-- A successful warm run of a query. -/
def WarmQuery (p : StepRun) : Prop :=
  ['q'].isPrefixOf p.measured.step.id = true ∧ (p.record H binary64).cold = false ∧
    (p.record H binary64).exitCode = 0

instance : DecidablePred (WarmQuery H binary64) := fun _ => inferInstanceAs (Decidable (_ ∧ _))

/-- `SHOW STATS ACTUAL.total_time_ms` of an execution, where it can be read. -/
def serverMs (p : StepRun) : Option ℚ :=
  p.execution.call.outcome.toOption.bind fun answer =>
    lastNumeral (plainNum binary64) (totalTimeCells answer.stats)

/-- The reading the page promises: the server's time for df, else the wall time. -/
def contractMs (p : StepRun) : Option ℚ :=
  if p.execution.adapter = .df then serverMs binary64 p else some p.execution.call.sample.wallMs

/-- The promised readings of a query's successful warm runs on one engine. -/
def contractSamples (runs : List StepRun) (adapter : Adapter) (q : Str) : List ℚ :=
  (runs.filter fun p => p.execution.adapter = adapter).filterMap fun p =>
    if p.measured.step.id = q ∧ WarmQuery H binary64 p then contractMs binary64 p else none

/-- The engine's samples are all wall times or all engine times. -/
def OneBasis (runs : List StepRun) (adapter : Adapter) : Prop :=
  (∀ p ∈ runs, p.execution.adapter = adapter → WarmQuery H binary64 p →
    (rawOf (p.record H binary64)).ms = some (p.record H binary64).wallMs) ∨
  (∀ p ∈ runs, p.execution.adapter = adapter → WarmQuery H binary64 p →
    (rawOf (p.record H binary64)).ms = (p.record H binary64).engineReportedMs)

/-- The page keeps its promise for a run: every published median is the one of
the promised readings, and no column mixes the two clocks. -/
def OnContract (runs : List StepRun) : Prop :=
  ∀ adapter, (∀ q, published (loadEngineRecords (fileOf H binary64 runs adapter)).1 q =
      median (contractSamples H binary64 runs adapter q)) ∧
    OneBasis H binary64 runs adapter

/-- What an execution must show for its reading to be the promised one: Spark's
tracker no positive time (or just the wall time), df a readable total time. -/
def OnClock (p : StepRun) : Prop :=
  match p.execution.adapter with
  | .duckdb => True
  | .sparkDefault => ∀ answer ms, p.execution.call.outcome = .ok answer →
      trackerMs answer.phases = some ms → ms = p.execution.call.sample.wallMs
  | .sparkTuned => ∀ answer ms, p.execution.call.outcome = .ok answer →
      trackerMs answer.phases = some ms → ms = p.execution.call.sample.wallMs
  | .df => (serverMs binary64 p).isSome

/-! ## One run -/

variable {H binary64}

/-- The loader's sample of a successful warm run: the adapter's report, else the wall time. -/
theorem warmQuery_ms {p : StepRun} (h : WarmQuery H binary64 p) :
    ∃ answer, p.execution.call.outcome = .ok answer ∧
      (rawOf (p.record H binary64)).ms =
        (p.execution.adapter.report H binary64 ((p.measured.job p.execution.adapter).resolve p.measured.step) answer).1.or
          (some p.execution.call.sample.wallMs) := by
  rcases p.execution.record_cases H binary64 p.measured with ⟨hexit, -⟩ | ⟨answer, houtcome, -, -, hwall, hrep, -⟩
  · exact absurd h.2.2 hexit
  · refine ⟨answer, houtcome, ?_⟩
    rw [← hwall, ← hrep]
    rfl

/-- The sample is the promised reading exactly when the run is on the clock. -/
theorem ms_eq_contract_iff {p : StepRun} (h : WarmQuery H binary64 p) :
    (rawOf (p.record H binary64)).ms = contractMs binary64 p ↔ OnClock binary64 p := by
  obtain ⟨answer, houtcome, hms⟩ := warmQuery_ms h
  have spark : ∀ wall : ℚ, (trackerMs answer.phases).or (some wall) = some wall ↔
      ∀ a ms, p.execution.call.outcome = .ok a → trackerMs a.phases = some ms → ms = wall := by
    intro wall
    constructor
    · intro heq a ms ha hms
      rw [houtcome] at ha
      cases ha
      rw [hms] at heq
      exact Option.some.inj heq
    · intro hall
      cases ht : trackerMs answer.phases with
      | none => rfl
      | some ms => rw [hall answer ms houtcome ht]; rfl
  rw [hms]
  unfold contractMs OnClock
  cases hadapter : p.execution.adapter with
  | duckdb => simp [Adapter.report]
  | df =>
    have server : serverMs binary64 p = (sqlReading binary64 answer.stats).engineReportedMs := by
      rw [serverMs, houtcome, sqlReading_reported]
      rfl
    simp only [Adapter.report, if_true, server]
    cases (sqlReading binary64 answer.stats).engineReportedMs <;> simp
  | sparkDefault => simpa [Adapter.report] using spark _
  | sparkTuned => simpa [Adapter.report] using spark _

/-- The loader keeps a time of exactly the successful warm runs of queries. -/
theorem warmMs_record (p : StepRun) :
    (rawOf (p.record H binary64)).warmMs =
      if WarmQuery H binary64 p then (rawOf (p.record H binary64)).ms else none := by
  have sid : (rawOf (p.record H binary64)).sid = p.measured.step.id := rfl
  unfold RawRecord.warmMs
  by_cases h : WarmQuery H binary64 p
  · obtain ⟨answer, houtcome, hms⟩ := warmQuery_ms h
    obtain ⟨hq, hcold, hexit⟩ := h
    have herr : (rawOf (p.record H binary64)).error = none := by
      rcases p.execution.record_cases H binary64 p.measured with ⟨hne, -⟩ | ⟨_, -, -, herr, -⟩
      · exact absurd hexit hne
      · exact herr
    have hwarm : (rawOf (p.record H binary64)).cold = false := hcold
    obtain ⟨ms, hsome⟩ : ∃ ms, (rawOf (p.record H binary64)).ms = some ms := by
      rw [hms]
      cases (p.execution.adapter.report H binary64 _ answer).1 <;> exact ⟨_, rfl⟩
    rw [sid, if_pos hq, if_pos ⟨hq, hcold, hexit⟩]
    simp only [hsome, herr, hwarm, Bool.false_eq_true, if_false]
  · rw [if_neg h]
    split
    · rename_i hq
      split
      · rename_i ms hms herr
        split
        · rfl
        · rename_i hcold
          refine absurd ⟨hq, eq_false_of_ne_true hcold, ?_⟩ h
          rcases p.execution.record_cases H binary64 p.measured with ⟨-, e, he⟩ | ⟨_, -, hexit, -⟩
          · exact absurd (he.symm.trans herr) (by simp)
          · exact hexit
      · rfl
    · rfl

theorem warmSamples_fileOf (runs : List StepRun) (adapter : Adapter) (q : Str) :
    warmSamples (fileOf H binary64 runs adapter) q =
      (runs.filter fun p => p.execution.adapter = adapter).filterMap fun p =>
        if p.measured.step.id = q ∧ WarmQuery H binary64 p then (rawOf (p.record H binary64)).ms
        else none := by
  rw [warmSamples, fileOf, List.filterMap_map]
  refine List.filterMap_congr fun p _ => ?_
  have sid : (rawOf (p.record H binary64)).sid = p.measured.step.id := rfl
  simp only [Function.comp_apply, sid, warmMs_record]
  split
  · rename_i hid
    simp [hid]
  · rename_i hid
    simp [hid]

/-! ## Whole runs -/

theorem onContract_of_onClock {runs : List StepRun}
    (h : ∀ p ∈ runs, WarmQuery H binary64 p → OnClock binary64 p) :
    OnContract H binary64 runs := by
  intro adapter
  refine ⟨fun q => ?_, ?_⟩
  · rw [published_eq, warmSamples_fileOf, contractSamples]
    congr 1
    refine List.filterMap_congr fun p hp => ?_
    split
    · rename_i hq
      exact (ms_eq_contract_iff hq.2).mpr (h p (List.mem_filter.mp hp).1 hq.2)
    · rfl
  · by_cases hdf : adapter = .df
    · refine .inr fun p hp hadapter hq => ?_
      have honclock := h p hp hq
      obtain ⟨answer, houtcome, hms⟩ := warmQuery_ms hq
      have hreport : (p.record H binary64).engineReportedMs.isSome := by
        rcases p.execution.record_cases H binary64 p.measured with
          ⟨hexit, -⟩ | ⟨answer', houtcome', -, -, -, hrep, -⟩
        · exact absurd hq.2.2 hexit
        · simp only [OnClock, hadapter, hdf, serverMs, houtcome', Except.toOption,
            Option.bind_some] at honclock
          change (p.execution.record H binary64 p.measured).engineReportedMs.isSome
          rw [hrep, hadapter, hdf]
          simpa [Adapter.report, sqlReading_reported] using honclock
      obtain ⟨ms, hms⟩ := Option.isSome_iff_exists.mp hreport
      change (p.record H binary64).engineReportedMs.or _ = _
      rw [hms]
      rfl
    · refine .inl fun p hp hadapter hq => ?_
      rw [(ms_eq_contract_iff hq).mpr (h p hp hq), contractMs, if_neg (hadapter ▸ hdf)]
      rcases p.execution.record_cases H binary64 p.measured with ⟨hexit, -⟩ | ⟨_, -, -, -, hwall, -⟩
      · exact absurd hq.2.2 hexit
      · exact congrArg some hwall.symm

theorem onClock_of_onContract {p : StepRun} (hq : WarmQuery H binary64 p)
    (h : OnContract H binary64 [p]) : OnClock binary64 p := by
  have hpub := (h p.execution.adapter).1 p.measured.step.id
  rw [published_eq, warmSamples_fileOf, contractSamples] at hpub
  rw [← ms_eq_contract_iff hq]
  obtain ⟨answer, houtcome, hms⟩ := warmQuery_ms hq
  obtain ⟨ms, hsome⟩ : ∃ ms, (rawOf (p.record H binary64)).ms = some ms := by
    rw [hms]
    cases (p.execution.adapter.report H binary64 _ answer).1 <;> exact ⟨_, rfl⟩
  simp only [List.filter_cons, decide_true, if_true, List.filter_nil, List.filterMap_cons, true_and,
    hq, hsome, List.filterMap_nil] at hpub
  rw [hsome]
  cases hc : contractMs binary64 p with
  | none => simp [hc, median, sorted] at hpub
  | some c => simpa [hc, median, sorted] using hpub

/-- **The basis of the published times.** A run and every part of it are
published on the promised clocks exactly when each successful warm run of a
query shows no other clock to its adapter. -/
theorem onContract_iff (H : Digest) (binary64 : ℚ → ℚ) (runs : List StepRun) :
    (∀ part, part.Sublist runs → OnContract H binary64 part) ↔
      ∀ p ∈ runs, WarmQuery H binary64 p → OnClock binary64 p := by
  constructor
  · intro h p hp hq
    exact onClock_of_onContract hq (h [p] (List.singleton_sublist.mpr hp))
  · intro h part hpart
    exact onContract_of_onClock fun p hp => h p (hpart.subset hp)

end

/-- A warm `q01` on stock Spark: half a second of wall time, of which the
tracker saw 200 ms. -/
def trackedRun : StepRun where
  measured :=
    { workload := { name := "tpch_read_delta".toList, description := [] }
      step := { id := "q01".toList, kind := .sqlQuery, sql := some "select 1".toList }
      dataDir := ["data".toList, "tpch_sf1".toList]
      scale := 1 }
  execution :=
    { adapter := .sparkDefault, runIdx := 1, purgeVerified := false, timestamp := []
      call := { session := none
                outcome := .ok { rows := [[.int 1]], phases := some [50, 150], stats := [] }
                sample := { wallMs := 500, rssPeakMb := none, cpuPctAvg := none } } }

/-- Stock Spark is published with its tracker's time. -/
theorem spark_published_off_contract : ¬ ∀ (H : Digest) (binary64 : ℚ → ℚ) (runs : List StepRun),
    OnContract H binary64 runs := by
  intro h
  have hq : WarmQuery spelled id trackedRun := ⟨rfl, rfl, rfl⟩
  have honclock := onClock_of_onContract hq (h spelled id [trackedRun])
  have same : (200 : ℚ) = 500 := honclock _ 200 rfl (by decide +kernel)
  exact absurd same (by decide +kernel)

end DeltaForgeBench.Reports.MeasurementBasis
