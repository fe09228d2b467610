import DeltaForgeBench.Base.Quantile
import DeltaForgeBench.Reports.Summarizers

/-! # The tails of the write times

The write page shows a p95 of the warm times and the printed summary a p90.
Both take the `⌊p * n⌋`-th smallest of the `n` times, the smallest if that is
none. It falls short of the share by one place unless `p * n` is whole. -/
namespace DeltaForgeBench.Reports.WriteTails
open DeltaForgeBench.Base.Sorted DeltaForgeBench.Base.Quantile
open DeltaForgeBench.Reports.BuildPublished DeltaForgeBench.Reports.Summarizers

/-- The warm wall times the write page reads from a record file. -/
def publishedWarm (lines : List RawRecord) : List ℚ := (lines.foldl writeStep {}).warmWall

/-- The share `num / den` of the times is a whole number of them, or the time at
the place that is taken equals the next one. -/
def TailReached (num den : Nat) (warm : List ℚ) : Prop :=
  den ∣ num * warm.length ∨
    orderStat warm (num * warm.length / den - 1) = orderStat warm (num * warm.length / den)

theorem p95_eq {nRows : Nat} {lines : List RawRecord} {stats : WriteStats}
    (h : writeStats nRows (some lines) = some (some stats)) :
    publishedWarm lines ≠ [] ∧
      stats.warmP95Ms = orderStat (publishedWarm lines) (p95Index (publishedWarm lines).length) := by
  simp only [writeStats] at h
  split at h
  · rename_i med lo hi p95 hmed _ _ hp95
    have hne : publishedWarm lines ≠ [] := by
      intro hnil
      rw [publishedWarm] at hnil
      rw [hnil] at hmed
      cases hmed
    have hpos := List.length_pos_iff.mpr hne
    have hindex : p95Index (publishedWarm lines).length < (publishedWarm lines).length := by
      unfold p95Index
      omega
    have hget : p95 = orderStat (publishedWarm lines) (p95Index (publishedWarm lines).length) :=
      Option.some.inj (hp95.symm.trans (getElem?_sorted hindex))
    split at h
    · cases h
    · obtain rfl := Option.some.inj (Option.some.inj h)
      exact ⟨hne, hget⟩
  · cases h

theorem p90_eq {recs : List SummaryRecord} {s : WriteSummary}
    (h : engineSummary recs = some (.measured s)) :
    ∃ warm, warmWrites recs = some warm ∧ warm ≠ [] ∧
      s.p90 = orderStat warm (9 * warm.length / 10 - 1) := by
  simp only [engineSummary] at h
  split at h
  · cases h
  · obtain ⟨warm, hwarm, h⟩ := Option.bind_eq_some_iff.mp h
    split at h
    · rename_i med p90 mn hmed hp90 _
      have hne : warm ≠ [] := by
        intro hnil
        rw [hnil] at hmed
        cases hmed
      have hpos := List.length_pos_iff.mpr hne
      have hindex : p90Index warm.length = 9 * warm.length / 10 - 1 := by
        unfold p90Index
        split <;> omega
      have hget : p90 = orderStat warm (9 * warm.length / 10 - 1) := by
        rw [hindex] at hp90
        exact Option.some.inj (hp90.symm.trans (getElem?_sorted (by omega)))
      split at h
      · cases h
      · obtain rfl := EngineSummary.measured.inj (Option.some.inj h)
        exact ⟨warm, hwarm, hne, hget⟩
    · cases h

theorem p95_upperTail_iff {nRows : Nat} {lines : List RawRecord} {stats : WriteStats}
    (h : writeStats nRows (some lines) = some (some stats)) :
    UpperTail (95 / 100) (publishedWarm lines) stats.warmP95Ms ↔
      TailReached 19 20 (publishedWarm lines) := by
  obtain ⟨hne, hp95⟩ := p95_eq h
  have hshare : (95 / 100 : ℚ) = (19 : Nat) / (20 : Nat) := by norm_num
  rw [hp95, hshare]
  exact upperTail_floor_iff hne (by decide) (by decide) (by decide)

theorem p90_upperTail_iff {recs : List SummaryRecord} {s : WriteSummary}
    (h : engineSummary recs = some (.measured s)) :
    ∃ warm, warmWrites recs = some warm ∧
      (UpperTail (90 / 100) warm s.p90 ↔ TailReached 9 10 warm) := by
  obtain ⟨warm, hwarm, hne, hp90⟩ := p90_eq h
  have hshare : (90 / 100 : ℚ) = (9 : Nat) / (10 : Nat) := by norm_num
  refine ⟨warm, hwarm, ?_⟩
  rw [hp90, hshare]
  exact upperTail_floor_iff hne (by decide) (by decide) (by decide)

/-- **The published p95 and the printed p90 are upper tails exactly when** the share
of the warm times is whole, or the time taken equals the next one. -/
theorem tails_upper_iff {nRows : Nat} {lines : List RawRecord} {stats : WriteStats}
    (hpage : writeStats nRows (some lines) = some (some stats)) {recs : List SummaryRecord}
    {s : WriteSummary} (hprint : engineSummary recs = some (.measured s)) :
    (UpperTail (95 / 100) (publishedWarm lines) stats.warmP95Ms ↔
        TailReached 19 20 (publishedWarm lines)) ∧
      ∃ warm, warmWrites recs = some warm ∧
        (UpperTail (90 / 100) warm s.p90 ↔ TailReached 9 10 warm) :=
  ⟨p95_upperTail_iff hpage, p90_upperTail_iff hprint⟩

/-! ## Nine runs -/

/-- Nine warm runs, the usual number, each slower than the one before. -/
def nineTimes : List ℚ := [1000, 1100, 1200, 1300, 1400, 1500, 1600, 1700, 1800]

/-- A successful warm write. -/
def warmWrite (wall : ℚ) : SummaryRecord where
  workload := some "synthetic_write_delta".toList
  stepId := some "write_10m_rows".toList
  wallMs := some wall
  engineReportedMs := none
  error := none
  cold := false
  stepKind := some "sql_dml".toList
  exitCode := some 0

def nineRuns : List SummaryRecord := nineTimes.map warmWrite

theorem nine_median : median nineTimes = some 1400 := by decide +kernel

theorem nine_published : ∃ stats,
    writeStats 10000000 (some (nineRuns.map (·.toRawRecord))) = some (some stats) := by
  have state : (nineRuns.map (·.toRawRecord)).foldl writeStep {} = ⟨nineTimes, none, 9, 0, none⟩ := rfl
  have p95 : (sorted nineTimes)[p95Index nineTimes.length]? = some 1700 := by decide +kernel
  simp only [writeStats, state, nine_median, p95]
  exact ⟨_, rfl⟩

theorem nine_warm : warmWrites nineRuns = some nineTimes := rfl

theorem nine_printed : ∃ s, engineSummary nineRuns = some (.measured s) := by
  have runs : (nineRuns.filter (·.isWrite)).isEmpty = false := rfl
  have p90 : (sorted nineTimes)[p90Index nineTimes.length]? = some 1700 := by decide +kernel
  simp only [engineSummary, runs, nine_warm, Option.bind_eq_bind, Option.bind_some, nine_median, p90]
  exact ⟨_, rfl⟩

theorem tails_upper_iff_nine : ∃ stats s,
    writeStats 10000000 (some (nineRuns.map (·.toRawRecord))) = some (some stats) ∧
    engineSummary nineRuns = some (.measured s) ∧
    (UpperTail (95 / 100) (publishedWarm (nineRuns.map (·.toRawRecord))) stats.warmP95Ms ↔
      TailReached 19 20 (publishedWarm (nineRuns.map (·.toRawRecord)))) ∧
    ∃ warm, warmWrites nineRuns = some warm ∧
      (UpperTail (90 / 100) warm s.p90 ↔ TailReached 9 10 warm) := by
  obtain ⟨stats, hstats⟩ := nine_published
  obtain ⟨s, hs⟩ := nine_printed
  exact ⟨stats, s, hstats, hs, tails_upper_iff hstats hs⟩

/-- Of nine different times both take the eighth, which eight of nine do not exceed. -/
theorem tails_fall_short : ∃ stats s,
    writeStats 10000000 (some (nineRuns.map (·.toRawRecord))) = some (some stats) ∧
    engineSummary nineRuns = some (.measured s) ∧
    ¬ UpperTail (95 / 100) (publishedWarm (nineRuns.map (·.toRawRecord))) stats.warmP95Ms ∧
    ∃ warm, warmWrites nineRuns = some warm ∧ ¬ UpperTail (90 / 100) warm s.p90 := by
  obtain ⟨stats, hstats⟩ := nine_published
  obtain ⟨s, hs⟩ := nine_printed
  have apart : orderStat nineTimes 7 ≠ orderStat nineTimes 8 := by decide +kernel
  refine ⟨stats, s, hstats, hs, ?_, nineTimes, nine_warm, ?_⟩
  · rw [p95_upperTail_iff hstats]
    intro reached
    exact reached.elim (by decide) apart
  · obtain ⟨warm, hwarm, hiff⟩ := p90_upperTail_iff hs
    obtain rfl := Option.some.inj (nine_warm.symm.trans hwarm)
    rw [hiff]
    intro reached
    exact reached.elim (by decide) apart

end DeltaForgeBench.Reports.WriteTails
