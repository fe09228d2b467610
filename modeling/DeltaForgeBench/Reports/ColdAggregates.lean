import DeltaForgeBench.Reports.GenerateReport

/-! # Cold aggregates and unverified purges

The runner labels a cold run whose purge was not confirmed. The cells never
look at the label, so what keeps unverified runs out of the cold columns is
only that none of them succeeded. -/
namespace DeltaForgeBench.Reports.ColdAggregates
open DeltaForgeBench.Base.Text DeltaForgeBench.Base.Dict DeltaForgeBench.Base.Sorted
open DeltaForgeBench.Runner.RunWorkload DeltaForgeBench.Reports.GenerateReport

def unverifiedCold (r : Record) : Bool := r.cold && !r.purgeVerified

/-- No successful cold run is unverified. -/
def Clean (records : List Record) : Prop :=
  ∀ r ∈ records, r.cold = true → succeeded r = true → r.purgeVerified = true

/-- The times the cold columns are to be computed from. -/
def verifiedColdMs (records : List Record) (key : CellKey) : List ℚ :=
  ((recordsOf records key).filter fun r => r.cold && r.purgeVerified && succeeded r).map (·.wallMs)

/-- `cold_ms`, `cold_n` and `cold_median` of a cell; an absent cell has none. -/
def coldAggregates (records : List Record) (key : CellKey) : List ℚ × Nat × Option ℚ :=
  match get? (cellize records) key with
  | some c => (c.coldMs, c.coldN, c.coldMedian)
  | none => ([], 0, none)

/-- Every cell's cold columns come from verified runs. -/
def OnlyVerified (records : List Record) : Prop :=
  ∀ key, coldAggregates records key =
    (verifiedColdMs records key, (verifiedColdMs records key).length,
      median (verifiedColdMs records key))

/-- Two lists that differ in unverified cold records only. -/
def AgreeOutside (rs rs' : List Record) : Prop :=
  rs.filter (fun r => !unverifiedCold r) = rs'.filter (fun r => !unverifiedCold r)

/-- All successful cold times of a cell, verified or not. -/
def coldMsOf (records : List Record) (key : CellKey) : List ℚ :=
  ((recordsOf records key).filter fun r => r.cold && succeeded r).map (·.wallMs)

theorem coldAggregates_eq (records : List Record) (key : CellKey) :
    coldAggregates records key =
      (coldMsOf records key, (coldMsOf records key).length, median (coldMsOf records key)) := by
  rw [coldAggregates, get?_cellize]
  split
  · rename_i c h
    split at h
    · cases h
    · cases h
      rfl
  · rename_i h
    split at h
    · rename_i hnil
      simp [coldMsOf, hnil]
    · cases h

/-- The two lists of times have one length exactly when they are one list. -/
theorem length_filter_eq_iff {α : Type*} {p q : α → Bool} (hqp : ∀ a, q a = true → p a = true)
    (l : List α) :
    (l.filter q).length = (l.filter p).length ↔ ∀ a ∈ l, p a = true → q a = true := by
  have sub : (l.filter p).filter q = l.filter q := by
    rw [List.filter_filter]
    congr 1
    funext a
    cases hq : q a with
    | true => simp [hqp a hq]
    | false => simp
  rw [← sub, List.length_filter_eq_length_iff]
  simp only [List.mem_filter]
  exact ⟨fun h a ha hp => h a ⟨ha, hp⟩, fun h a ha => h a ha.1 ha.2⟩

theorem verified_length_iff (records : List Record) (key : CellKey) :
    (verifiedColdMs records key).length = (coldMsOf records key).length ↔
      Clean (recordsOf records key) := by
  simp only [verifiedColdMs, coldMsOf, List.length_map]
  rw [length_filter_eq_iff (by
    intro r hr
    simp only [Bool.and_eq_true] at hr ⊢
    exact ⟨hr.1.1, hr.2⟩)]
  simp only [Clean, Bool.and_eq_true]
  exact forall₂_congr fun r _ => ⟨fun h hc hs => (h ⟨hc, hs⟩).1.2, fun h hp => ⟨⟨hp.1, h hp.1 hp.2⟩, hp.2⟩⟩

theorem verifiedColdMs_of_clean {records : List Record} {key : CellKey}
    (h : Clean (recordsOf records key)) : verifiedColdMs records key = coldMsOf records key := by
  unfold verifiedColdMs coldMsOf
  congr 1
  refine List.filter_congr fun r hr => ?_
  by_cases hc : r.cold = true
  · by_cases hs : succeeded r = true
    · simp [hc, hs, h r hr hc hs]
    · simp [hs]
  · simp [hc]

theorem clean_iff_recordsOf (records : List Record) :
    Clean records ↔ ∀ key, Clean (recordsOf records key) := by
  constructor
  · intro h key r hr
    exact h r (List.mem_filter.mp hr).1
  · intro h r hr
    exact h (recordKey r) r (List.mem_filter.mpr ⟨hr, by simp⟩)

theorem onlyVerified_iff (records : List Record) : OnlyVerified records ↔ Clean records := by
  rw [clean_iff_recordsOf]
  refine forall_congr' fun key => ?_
  rw [coldAggregates_eq, ← verified_length_iff]
  constructor
  · intro h
    exact (congrArg (fun t => t.2.1) h).symm
  · intro h
    rw [verifiedColdMs_of_clean ((verified_length_iff records key).mp h)]

/-- The verified times do not see unverified records. -/
theorem verifiedColdMs_agree {rs rs' : List Record} (h : AgreeOutside rs rs') (key : CellKey) :
    verifiedColdMs rs key = verifiedColdMs rs' key := by
  have keep : ∀ l : List Record, verifiedColdMs l key =
      ((recordsOf (l.filter fun r => !unverifiedCold r) key).filter fun r =>
        r.cold && r.purgeVerified && succeeded r).map (·.wallMs) := by
    intro l
    simp only [verifiedColdMs, recordsOf, List.filter_filter]
    congr 1
    refine List.filter_congr fun r _ => ?_
    cases hc : r.cold <;> cases hp : r.purgeVerified <;> simp [unverifiedCold, hc, hp]
  rw [keep rs, keep rs', h]

/-- A cold run of `q01` without a verified purge. -/
def unverifiedRun (wallMs : ℚ) : Record where
  workload := "tpch_read_delta".toList
  engine := "duckdb".toList
  stepId := "q01".toList
  stepKind := .sqlQuery
  stepDescription := []
  runIdx := 0
  cold := true
  purgeVerified := false
  wallMs := wallMs
  engineReportedMs := none
  rssPeakMb := none
  cpuPctAvg := none
  rowsReturned := some 4
  resultSha256 := none
  exitCode := 0
  error := none
  extra := none
  timestampUtc := []

/-- **The cold columns come from verified runs exactly when no successful cold
run is unverified**; and a list whose unverified cold runs all failed shares
its cold columns with just those lists, equal to it elsewhere, of the same kind. -/
theorem coldAggregates_verified_iff (rs : List Record) :
    (OnlyVerified rs ↔ Clean rs) ∧
      ∀ rs', AgreeOutside rs rs' → Clean rs →
        ((∀ key, coldAggregates rs key = coldAggregates rs' key) ↔ Clean rs') := by
  refine ⟨onlyVerified_iff rs, fun rs' agree clean => ?_⟩
  have only := (onlyVerified_iff rs).mpr clean
  rw [← onlyVerified_iff rs']
  refine forall_congr' fun key => ?_
  rw [only key, verifiedColdMs_agree agree key, eq_comm]

/-- The same run behind a purge that was verified. -/
def verifiedRun (wallMs : ℚ) : Record := { unverifiedRun wallMs with purgeVerified := true }

def warmRun (wallMs : ℚ) : Record := { unverifiedRun wallMs with cold := false, runIdx := 1 }

def failed (r : Record) : Record :=
  { r with exitCode := 1, error := some "out of memory".toList, rowsReturned := none }

theorem agreeOutside_insert {before behind : List Record} {r r' : Record}
    (h : unverifiedCold r = true) (h' : unverifiedCold r' = true) :
    AgreeOutside (before ++ r :: behind) (before ++ r' :: behind) := by
  simp [AgreeOutside, h, h']

/-- Two lists with the same verified, failed and warm runs; the unverified run failed in
the one and succeeded in the other. -/
theorem coldAggregates_verified_iff_shared :
    (∀ key, coldAggregates ([verifiedRun 100, failed (verifiedRun 5)] ++
        failed (unverifiedRun 70) :: [warmRun 40]) key =
      coldAggregates ([verifiedRun 100, failed (verifiedRun 5)] ++
        unverifiedRun 60 :: [warmRun 40]) key) ↔
      Clean ([verifiedRun 100, failed (verifiedRun 5)] ++ unverifiedRun 60 :: [warmRun 40]) := by
  have clean : Clean ([verifiedRun 100, failed (verifiedRun 5)] ++
      failed (unverifiedRun 70) :: [warmRun 40]) := by
    simp only [Clean, List.cons_append, List.nil_append, List.forall_mem_cons]
    exact ⟨fun _ _ => rfl, fun _ _ => rfl, fun _ h => Bool.noConfusion h, fun h => Bool.noConfusion h,
      fun r hr => absurd hr List.not_mem_nil⟩
  exact (coldAggregates_verified_iff _).2 _ (agreeOutside_insert rfl rfl) clean

/-- Two such runs differ in their unverified time only, and so do the columns. -/
theorem coldAggregates_unverified : ¬ ∀ rs rs' : List Record, AgreeOutside rs rs' →
    ∀ key, coldAggregates rs key = coldAggregates rs' key := by
  intro h
  have same := h [unverifiedRun 100] [unverifiedRun 200] rfl
    ⟨"tpch_read_delta".toList, "duckdb".toList, "q01".toList⟩
  revert same
  decide +kernel

end DeltaForgeBench.Reports.ColdAggregates
