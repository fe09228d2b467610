import DeltaForgeBench.Base.Numeral
import DeltaForgeBench.Reports.GenerateReport
import Mathlib.Data.Prod.Lex

/-! # The cells and the order of the records

The cells partition the records: each is one entry of one column of the cell
of its key. A cell depends on the records of its key alone, so the engines'
files may be read in any order, and the table and the check come out alike. -/
namespace DeltaForgeBench.Reports.Cells
open DeltaForgeBench.Base.Text DeltaForgeBench.Base.Dict DeltaForgeBench.Base.Sorted
open DeltaForgeBench.Base.Numeral
open DeltaForgeBench.Runner.RunWorkload DeltaForgeBench.Reports.GenerateReport

/-! ## `write_summary_csv` -/

/-- `warm_p95`. -/
def warmP95 (c : CellStats) : Option ℚ := percentile c.warmMs 95

/-- `warm_mean`; `none` is the not-a-number of an empty list. -/
def warmMean (c : CellStats) : Option ℚ :=
  if c.warmMs = [] then none else some (c.warmMs.sum / c.warmMs.length)

/-- The square of `statistics.stdev`, of two values at least. -/
def sampleVariance (l : List ℚ) : ℚ :=
  let mean := l.sum / l.length
  (l.map fun x => (x - mean) ^ 2).sum / (l.length - 1)

/-- The square root to `k` decimals, ties to the even last digit. -/
def roundedSqrt (k : Nat) (v : ℚ) : ℚ :=
  let scaled := v * 100 ^ k
  let s := Nat.sqrt ⌊scaled⌋₊
  let half : ℚ := (s + 1 / 2) ^ 2
  let n := if scaled < half then s else if half < scaled then s + 1
    else if s % 2 = 0 then s else s + 1
  n / 10 ^ k

/-- `warm_stddev` to two decimals. -/
def warmStddev (c : CellStats) : ℚ :=
  if 2 ≤ c.warmMs.length then roundedSqrt 2 (sampleVariance c.warmMs) else 0

/-- `f"{x:.2f}"`, also of the not-a-number. -/
def twoDecimals (x : Option ℚ) : Str := x.elim "nan".toList (fixed false 2)

def csvHeader : List Str :=
  ["workload".toList, "step_id".toList, "engine".toList, "cold_median_ms".toList,
   "warm_min_ms".toList, "warm_median_ms".toList, "warm_p95_ms".toList, "warm_mean_ms".toList,
   "warm_stddev_ms".toList, "warm_n".toList, "cold_n".toList, "failures".toList,
   "result_sha256".toList]

def csvRow (c : CellStats) : List Str :=
  [c.key.workload, c.key.stepId, c.key.engine, twoDecimals c.coldMedian, twoDecimals c.warmMin,
   twoDecimals c.warmMedian, twoDecimals (warmP95 c), twoDecimals (warmMean c),
   fixed false 2 (warmStddev c), c.warmMs.length.repr.toList, c.coldN.repr.toList,
   c.failures.repr.toList, (truthy c.resultSha256).getD []]

/-- `(c.workload, c.step_id, c.engine)`. -/
def rowKey (c : CellStats) : Str ×ₗ Str ×ₗ Str :=
  toLex (c.key.workload, toLex (c.key.stepId, c.key.engine))

def summaryRows (cells : List (CellKey × CellStats)) : List (List Str) :=
  csvHeader :: (sortedBy rowKey (cells.map Prod.snd)).map csvRow

/-- A field of `csv.writer`. -/
def csvField (t : Str) : Str :=
  if t.any fun c => [',', '"', '\r', '\n'].contains c then
    '"' :: t.flatMap (fun c => if c = '"' then ['"', '"'] else [c]) ++ ['"']
  else t

/-- The text `write_summary_csv` writes. -/
def writeSummaryCsv (cells : List (CellKey × CellStats)) : Str :=
  (summaryRows cells).flatMap fun row => join [','] (row.map csvField) ++ ['\r', '\n']

/-! ## Where a record is counted -/

inductive Column
  | cold | warm | failures
  deriving DecidableEq

/-- The one column that counts a record. -/
def column (r : Record) : Column :=
  if succeeded r then (if r.cold then .cold else .warm) else .failures

/-- The records of a cell that a column counts. -/
def counted (records : List Record) (key : CellKey) (col : Column) : List Record :=
  records.filter fun r => recordKey r = key ∧ column r = col

/-- How many entries the columns of a cell have. -/
def CellStats.total (c : CellStats) : Nat := c.coldMs.length + c.warmMs.length + c.failures

/-- The cells hold the records: each in the cell of its key, in its own column, once. -/
structure Conserved (records : List Record) : Prop where
  keys : ((cellize records).map Prod.fst).Nodup
  covered : ∀ r ∈ records, ∃ c, get? (cellize records) (recordKey r) = some c
  cold : ∀ key c, get? (cellize records) key = some c →
    c.coldMs = (counted records key .cold).map (·.wallMs)
  warm : ∀ key c, get? (cellize records) key = some c →
    c.warmMs = (counted records key .warm).map (·.wallMs)
  failures : ∀ key c, get? (cellize records) key = some c →
    c.failures = (counted records key .failures).length
  total : ((cellize records).map fun cell => CellStats.total cell.2).sum = records.length

theorem filter_recordsOf (records : List Record) (key : CellKey) (col : Column)
    {p : Record → Bool} (hp : ∀ r, p r = true ↔ column r = col) :
    (recordsOf records key).filter p = counted records key col := by
  rw [recordsOf, counted, List.filter_filter]
  refine List.filter_congr fun r _ => ?_
  rw [Bool.eq_iff_iff]
  simp [hp, and_comm]

theorem get?_cellize_eq_some {records : List Record} {key : CellKey} {c : CellStats}
    (h : get? (cellize records) key = some c) : c = cellStats key (recordsOf records key) := by
  rw [get?_cellize] at h
  split at h
  · cases h
  · exact (Option.some.inj h).symm

theorem total_cellStats (key : CellKey) (recs : List Record) :
    CellStats.total (cellStats key recs) = recs.length := by
  induction recs with
  | nil => rfl
  | cons r rest ih =>
    simp only [CellStats.total, cellStats, List.length_map] at ih ⊢
    cases hok : succeeded r with
    | true => cases hcold : r.cold <;> simp [hok, hcold] <;> omega
    | false => simp [hok]; omega

theorem conserved (records : List Record) : Conserved records where
  keys := nodup_keys_cellize records
  covered r hr := by
    have hne : recordsOf records (recordKey r) ≠ [] :=
      List.ne_nil_of_mem (List.mem_filter.mpr ⟨hr, decide_eq_true rfl⟩)
    exact ⟨_, by rw [get?_cellize, if_neg hne]⟩
  cold key c h := by
    rw [get?_cellize_eq_some h]
    refine congrArg (List.map (·.wallMs)) (filter_recordsOf records key .cold fun r => ?_)
    cases hok : succeeded r <;> cases hcold : r.cold <;> simp [column, hok, hcold]
  warm key c h := by
    rw [get?_cellize_eq_some h]
    refine congrArg (List.map (·.wallMs)) (filter_recordsOf records key .warm fun r => ?_)
    cases hok : succeeded r <;> cases hcold : r.cold <;> simp [column, hok, hcold]
  failures key c h := by
    rw [get?_cellize_eq_some h]
    refine List.countP_eq_length_filter.trans
      (congrArg List.length (filter_recordsOf records key .failures fun r => ?_))
    cases hok : succeeded r <;> cases hcold : r.cold <;> simp [column, hok, hcold]
  total := by
    have sizes : (cellize records).map (fun cell => CellStats.total cell.2) =
        (groupBy recordKey records).map fun g => g.2.length := by
      rw [cellize, List.map_map]
      exact List.map_congr_left fun g _ => total_cellStats g.1 g.2
    rw [sizes, ← List.length_flatMap]
    exact (flatMap_groupBy recordKey records).length_eq

/-! ## Any interleaving -/

/-- The records of each cell come in the same order. -/
def SameOrder (records records' : List Record) : Prop :=
  ∀ key, recordsOf records key = recordsOf records' key

section Interleaving
variable {records records' : List Record} (h : SameOrder records records')
include h

theorem get?_cellize_congr (key : CellKey) :
    get? (cellize records) key = get? (cellize records') key := by
  rw [get?_cellize, get?_cellize, h key]

theorem cellize_perm : (cellize records).Perm (cellize records') :=
  perm_of_get? (nodup_keys_cellize records) (nodup_keys_cellize records') (get?_cellize_congr h)

omit h in
/-- The order of the rows tells the cells apart. -/
theorem rowKey_injective : ∀ a ∈ (cellize records).map Prod.snd,
    ∀ b ∈ (cellize records).map Prod.snd, rowKey a = rowKey b → a = b := by
  intro a ha b hb hkey
  obtain ⟨⟨k, _⟩, hka, rfl⟩ := List.mem_map.mp ha
  obtain ⟨⟨k', _⟩, hkb, rfl⟩ := List.mem_map.mp hb
  obtain ⟨rfl, -⟩ := mem_cellize_iff.mp hka
  obtain ⟨rfl, -⟩ := mem_cellize_iff.mp hkb
  have hsame : k = k' := by
    obtain ⟨w, e, s⟩ := k
    obtain ⟨w', e', s'⟩ := k'
    simp only [rowKey, cellStats, EmbeddingLike.apply_eq_iff_eq, Prod.mk.injEq] at hkey
    rw [hkey.1, hkey.2.1, hkey.2.2]
  rw [hsame]

theorem summaryRows_congr : summaryRows (cellize records) = summaryRows (cellize records') := by
  rw [summaryRows, summaryRows, sortedBy_congr ((cellize_perm h).map Prod.snd) rowKey_injective]

theorem hashOf_congr (step : Str × Str) (engine : Str) :
    hashOf (cellize records) step engine = hashOf (cellize records') step engine := by
  rw [hashOf_cellize, hashOf_cellize, h]

/-- A step that is reported from one order is reported from the other, with the same
hashes in some order. -/
theorem discrepancies_congr {entry : (Str × Str) × EngineHashes}
    (hentry : entry ∈ discrepancies (cellize records)) :
    ∃ hashes, (entry.1, hashes) ∈ discrepancies (cellize records') ∧ entry.2.Perm hashes := by
  obtain ⟨step, hashes⟩ := entry
  obtain ⟨hmem, hdisagree⟩ := List.mem_filter.mp hentry
  obtain ⟨outer, inner⟩ := byStep_distinctKeys (cellize records)
  obtain ⟨outer', inner'⟩ := byStep_distinctKeys (cellize records')
  have hget := (get?_eq_some_iff outer).mpr hmem
  have lookup : ∀ engine, get? hashes engine =
      get? ((get? (byStep (cellize records')) step).getD []) engine := by
    intro engine
    have hsame := hashOf_congr h step engine
    rw [hashOf, hashOf, hget] at hsame
    exact hsame
  have differ : ∃ x ∈ hashes.map Prod.snd, ∃ y ∈ hashes.map Prod.snd, x ≠ y :=
    one_lt_dedup_iff.mp (of_decide_eq_true hdisagree)
  cases hget' : get? (byStep (cellize records')) step with
  | none =>
    obtain ⟨x, hx, -⟩ := differ
    obtain ⟨⟨engine, _⟩, hfirst, rfl⟩ := List.mem_map.mp hx
    have habsent := lookup engine
    rw [hget', (get?_eq_some_iff (inner _ hmem)).mpr hfirst] at habsent
    cases habsent
  | some hashes' =>
    rw [hget'] at lookup
    have hmem' := (get?_eq_some_iff outer').mp hget'
    have hperm : hashes.Perm hashes' := perm_of_get? (inner _ hmem) (inner' _ hmem') lookup
    refine ⟨hashes', List.mem_filter.mpr ⟨hmem', decide_eq_true ?_⟩, hperm⟩
    refine one_lt_dedup_iff.mpr ?_
    simpa only [(hperm.map Prod.snd).mem_iff] using differ

end Interleaving

/-- Hashes of distinct engines are listed alike from any order. -/
theorem hashDetails_congr {hashes hashes' : EngineHashes} (h : hashes.Perm hashes')
    (hnd : (hashes.map Prod.fst).Nodup) : hashDetails hashes = hashDetails hashes' := by
  have hsorted : sortedBy Prod.fst hashes = sortedBy Prod.fst hashes' :=
    sortedBy_congr h fun a ha b hb heq => List.inj_on_of_nodup_map hnd ha hb heq
  unfold sortedBy at hsorted
  rw [hashDetails, hashDetails, hsorted]

theorem issues_subset {records records' : List Record} (h : SameOrder records records') :
    correctnessCheck (cellize records) ⊆ correctnessCheck (cellize records') := by
  intro issue hissue
  obtain ⟨entry, hentry, rfl⟩ := List.mem_map.mp hissue
  obtain ⟨hashes, hmem, hperm⟩ := discrepancies_congr h hentry
  have hnd := (byStep_distinctKeys (cellize records)).2 entry (List.mem_filter.mp hentry).1
  refine List.mem_map.mpr ⟨_, hmem, ?_⟩
  simp only [issueText, hashDetails_congr hperm hnd]

/-- **The cells lose and duplicate no record, and ignore the order** in which the
records of different cells come: so do the table and the check. -/
theorem cells_conserve_records :
    (∀ records, Conserved records) ∧
      ∀ records records', SameOrder records records' →
        (∀ key, get? (cellize records) key = get? (cellize records') key) ∧
          summaryRows (cellize records) = summaryRows (cellize records') ∧
            ∀ issue, issue ∈ correctnessCheck (cellize records) ↔
              issue ∈ correctnessCheck (cellize records') := by
  refine ⟨conserved, fun records records' h => ⟨get?_cellize_congr h, summaryRows_congr h, ?_⟩⟩
  intro issue
  exact ⟨fun hissue => issues_subset h hissue,
    fun hissue => issues_subset (fun key => (h key).symm) hissue⟩

/-- A warm run of one step on an engine. -/
def stepRun (engine : Str) (wallMs : ℚ) : Record where
  workload := "ssb".toList
  engine := engine
  stepId := "q11".toList
  stepKind := .sqlQuery
  stepDescription := []
  runIdx := 1
  cold := false
  purgeVerified := false
  wallMs := wallMs
  engineReportedMs := none
  rssPeakMb := none
  cpuPctAvg := none
  rowsReturned := none
  resultSha256 := some engine
  exitCode := 0
  error := none
  extra := none
  timestampUtc := []

def dfRun : Record := stepRun "df".toList 4
def duckdbRun : Record := stepRun "duckdb".toList 7

theorem cells_conserve_records_swapped :
    summaryRows (cellize [dfRun, duckdbRun]) = summaryRows (cellize [duckdbRun, dfRun]) := by
  refine (cells_conserve_records.2 _ _ fun key => ?_).2.1
  by_cases hdf : recordKey dfRun = key
  · subst hdf
    rfl
  · simp [recordsOf, List.filter_cons, hdf]

end DeltaForgeBench.Reports.Cells
