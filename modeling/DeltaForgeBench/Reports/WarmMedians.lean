import DeltaForgeBench.Reports.Summarizers

/-! # The three warm medians

The published page, the printed summary and the comparison of two runs pick the
records of a query each in its own way: by the step's id or by its kind, by the
error being null or empty, with or without the exit code. On records of the run
loop these tests coincide, and the three medians are one. -/
namespace DeltaForgeBench.Reports.WarmMedians
open DeltaForgeBench.Base.Text DeltaForgeBench.Base.Dict DeltaForgeBench.Base.Sorted
open DeltaForgeBench.Engines.Base DeltaForgeBench.Runner.RunWorkload
open DeltaForgeBench.Reports.BuildPublished DeltaForgeBench.Reports.Summarizers

/-! ## Records of the run loop -/

/-- A failed run has an error and says what it was, and no other run has one. -/
structure Reported (r : Record) : Prop where
  exit_iff : r.exitCode = 0 ↔ r.error = none
  error_nonempty : r.error ≠ some []

/-- The ids of the queries start with a `q`, and no other step's do. -/
def NamedByKind (r : Record) : Prop := ['q'].isPrefixOf r.stepId = true ↔ r.stepKind = .sqlQuery

/-- The time a record adds to the warm times of a query. -/
def warmTime (q : Str) (r : Record) : Option ℚ :=
  if r.stepId = q ∧ r.stepKind = .sqlQuery ∧ r.exitCode = 0 ∧ r.cold = false then
    some (r.engineReportedMs.getD r.wallMs)
  else none

section Filters
variable {r : Record} (reported : Reported r)
include reported

theorem hasError_iff : (summaryOf r).hasError = true ↔ r.exitCode ≠ 0 := by
  have hnonempty := reported.error_nonempty
  rw [ne_eq, reported.exit_iff]
  cases herror : r.error with
  | none => simp [SummaryRecord.hasError, summaryOf, rawOf, herror]
  | some text =>
    have htext : text ≠ [] := fun h => hnonempty (by rw [herror, h])
    simp [SummaryRecord.hasError, summaryOf, rawOf, herror, htext]

omit reported in
theorem stepKind_iff :
    (summaryOf r).stepKind = some "sql_query".toList ↔ r.stepKind = .sqlQuery := by
  have htext : "sql_query".toList = StepKind.sqlQuery.text := rfl
  rw [htext]
  exact Option.some_inj.trans StepKind.text_injective.eq_iff

theorem inRun_iff : (summaryOf r).inRun = true ↔ r.stepKind = .sqlQuery ∧ r.exitCode = 0 := by
  have hexit : (summaryOf r).exitedOk = true ↔ r.exitCode = 0 := decide_eq_true_iff
  have herror := hasError_iff reported
  have both : ∀ e x : Bool, (!(e || !x)) = true ↔ ¬ e = true ∧ x = true := by decide
  rw [SummaryRecord.inRun, Bool.and_eq_true, both, decide_eq_true_iff, stepKind_iff, hexit, herror,
    not_not, and_self, and_comm]

theorem inComparison_iff :
    (summaryOf r).inComparison = true ↔ r.stepKind = .sqlQuery ∧ r.exitCode = 0 := by
  have herror := hasError_iff reported
  rw [SummaryRecord.inComparison, Bool.not_eq_true', Bool.or_eq_false_iff, decide_eq_false_iff_not,
    ne_eq, not_not, stepKind_iff, ← Bool.not_eq_true, herror, not_not]

/-- What the published page takes of a record for a query. -/
theorem warmMs_eq (named : NamedByKind r) (q : Str) :
    (if (rawOf r).sid = q then (rawOf r).warmMs else none) = warmTime q r := by
  have hsid : (rawOf r).sid = r.stepId := rfl
  have hms : (rawOf r).ms = some (r.engineReportedMs.getD r.wallMs) := by
    cases h : r.engineReportedMs <;> simp [RawRecord.ms, rawOf, h]
  have hwarm : (rawOf r).warmMs = if r.stepKind = .sqlQuery ∧ r.exitCode = 0 ∧ r.cold = false then
      some (r.engineReportedMs.getD r.wallMs) else none := by
    have hkind : ['q'].isPrefixOf (rawOf r).sid = true ↔ r.stepKind = .sqlQuery := named
    have hexit := reported.exit_iff
    unfold RawRecord.warmMs
    rw [hms]
    by_cases hk : r.stepKind = .sqlQuery
    · rw [if_pos (hkind.mpr hk)]
      cases herror : r.error with
      | none =>
        have hzero : r.exitCode = 0 := hexit.mpr herror
        cases hcold : r.cold <;> simp [rawOf, herror, hcold, hk, hzero]
      | some text =>
        have hfailed : r.exitCode ≠ 0 := fun h => Option.some_ne_none text (herror ▸ hexit.mp h)
        simp [rawOf, herror, hfailed]
    · rw [if_neg fun h => hk (hkind.mp h), if_neg fun h => hk h.1]
  rw [hsid, hwarm, warmTime]
  by_cases hq : r.stepId = q
  · simp [hq]
  · simp [hq]

end Filters

/-! ## One time for each record -/

/-- What the two scripts read from the records they keep. -/
theorem timedBy_eq (keeps : SummaryRecord → Bool) (records : List Record) :
    timedBy keeps (records.map summaryOf) =
      some ((records.filter fun r => keeps (summaryOf r)).map fun r =>
        (r.stepId, (r.cold, r.engineReportedMs.getD r.wallMs))) := by
  have hfilter : (records.map summaryOf).filter keeps =
      (records.filter fun r => keeps (summaryOf r)).map summaryOf := List.filter_map ..
  have hread : ∀ r : Record, (do
      let elapsed ← (summaryOf r).ms
      let stepId ← (summaryOf r).stepId
      return (stepId, ((summaryOf r).cold, elapsed)) : Option (Str × Timed)) =
        some (r.stepId, (r.cold, r.engineReportedMs.getD r.wallMs)) := by
    intro r
    cases h : r.engineReportedMs <;> simp [RawRecord.ms, summaryOf, rawOf, h]
  rw [timedBy, hfilter, List.mapM_map]
  exact mapM_some fun r _ => hread r

theorem runsOf_byQuery (timed : List (Str × Timed)) (q : Str) :
    runsOf (byQuery timed) q = (timed.filter fun t => t.1 = q).map Prod.snd := by
  have hget : get? (byQuery timed) q = (get? (groupBy Prod.fst timed) q).map (List.map Prod.snd) :=
    get?_map (fun _ => List.map Prod.snd) (groupBy Prod.fst timed) q
  rw [runsOf, hget, get?_groupBy]
  split
  · rename_i hnil
    rw [hnil]
    rfl
  · rfl

/-- The warm times either script has for a query. -/
theorem warm_runsOf {keeps : SummaryRecord → Bool} {records : List Record}
    (hkeeps : ∀ r ∈ records, keeps (summaryOf r) = true ↔ r.stepKind = .sqlQuery ∧ r.exitCode = 0)
    (q : Str) :
    ∃ byQ, (timedBy keeps (records.map summaryOf)).map byQuery = some byQ ∧
      ((runsOf byQ q).filter fun run => !run.1).map Prod.snd = records.filterMap (warmTime q) := by
  rw [timedBy_eq, Option.map_some]
  refine ⟨_, rfl, ?_⟩
  rw [runsOf_byQuery]
  induction records with
  | nil => rfl
  | cons r rest ih =>
    obtain ⟨hr, hrest⟩ := List.forall_mem_cons.mp hkeeps
    have tail := ih hrest
    rw [List.filterMap_cons]
    by_cases hkept : keeps (summaryOf r) = true
    · obtain ⟨hkind, hzero⟩ := hr.mp hkept
      rw [List.filter_cons, if_pos hkept, List.map_cons]
      by_cases hq : r.stepId = q
      · rw [List.filter_cons_of_pos (by simpa using hq), List.map_cons]
        cases hcold : r.cold with
        | true => simpa [warmTime, hq, hkind, hzero, hcold] using tail
        | false => simpa [warmTime, hq, hkind, hzero, hcold] using tail
      · rw [List.filter_cons_of_neg (by simpa using hq)]
        simpa [warmTime, hq] using tail
    · have hdropped : warmTime q r = none := if_neg fun h => hkept (hr.mpr ⟨h.2.1, h.2.2.1⟩)
      rw [List.filter_cons, if_neg hkept, hdropped]
      exact tail

theorem median_sorted (l : List ℚ) : median (sorted l) = median l := by
  rw [median, median, sorted_congr (sorted_perm l), length_sorted]

/-- **The three warm medians agree** on the records of the run loop. -/
theorem medians_agree {records : List Record} (reported : ∀ r ∈ records, Reported r)
    (named : ∀ r ∈ records, NamedByKind r) (q : Str) :
    ∃ run comparison, loadRun (records.map summaryOf) = some run ∧
      loadComparison (records.map summaryOf) = some comparison ∧
      published (loadEngineRecords (records.map rawOf)).1 q = warmMedian (runsOf run q) ∧
      warmMedian (runsOf run q) = comparedMedian (runsOf comparison q) := by
  obtain ⟨run, hrun, hwarm⟩ := warm_runsOf (fun r hr => inRun_iff (reported r hr)) q
  obtain ⟨comparison, hcomparison, hwarm'⟩ :=
    warm_runsOf (fun r hr => inComparison_iff (reported r hr)) q
  have hpublished : warmSamples (records.map rawOf) q = records.filterMap (warmTime q) := by
    rw [warmSamples, List.filterMap_map]
    exact List.filterMap_congr fun r hr => warmMs_eq (reported r hr) (named r hr) q
  refine ⟨run, comparison, hrun, hcomparison, ?_, ?_⟩
  · rw [published_eq, hpublished, warmMedian, hwarm]
  · rw [warmMedian, hwarm, comparedMedian, hwarm', median_sorted]

/-- A run of a query that took as long as it says and ended with the error, if any. -/
def queryRun (cold : Bool) (wallMs : ℚ) (error : Option Str) : Record where
  workload := "ssb".toList
  engine := "df".toList
  stepId := "q11".toList
  stepKind := .sqlQuery
  stepDescription := []
  runIdx := 0
  cold := cold
  purgeVerified := false
  wallMs := wallMs
  engineReportedMs := none
  rssPeakMb := none
  cpuPctAvg := none
  rowsReturned := none
  resultSha256 := none
  exitCode := if error = none then 0 else 1
  error := error
  extra := none
  timestampUtc := []

/-- A cold run, a warm one and one that failed. -/
def threeRuns : List Record :=
  [queryRun true 90 none, queryRun false 40 none, queryRun false 5 (some "boom".toList)]

theorem medians_agree_threeRuns : ∃ run comparison,
    loadRun (threeRuns.map summaryOf) = some run ∧
    loadComparison (threeRuns.map summaryOf) = some comparison ∧
    published (loadEngineRecords (threeRuns.map rawOf)).1 "q11".toList =
      warmMedian (runsOf run "q11".toList) ∧
    warmMedian (runsOf run "q11".toList) = comparedMedian (runsOf comparison "q11".toList) := by
  refine medians_agree ?_ ?_ _
  · intro r hr
    simp only [threeRuns, List.mem_cons, List.not_mem_nil, or_false] at hr
    rcases hr with rfl | rfl | rfl
    all_goals exact ⟨by decide, by decide⟩
  · intro r hr
    simp only [threeRuns, List.mem_cons, List.not_mem_nil, or_false] at hr
    rcases hr with rfl | rfl | rfl
    all_goals exact ⟨fun _ => rfl, fun _ => rfl⟩

end DeltaForgeBench.Reports.WarmMedians
