import Mathlib
import DeltaForgeBench.Base.Dict
import DeltaForgeBench.Base.Numeral
import DeltaForgeBench.Engines.Base

/-! # Reading a `SHOW STATS ACTUAL` table

The df adapter measures a SQL step and a Cypher step with the same statement
and reads the long-form answer twice, in two loops. The SQL loop calls
`float` on the cell and keeps the last value it can read; the Cypher loop
strips the thousands separators first, takes the last time cell whatever it
holds, and refuses to report without one. This file has both loops and says
when they agree. -/
namespace DeltaForgeBench.Engines.ShowStats
open DeltaForgeBench.Base.Text DeltaForgeBench.Base.Dict DeltaForgeBench.Base.Numeral
open DeltaForgeBench.Engines.Base

/-! ## Rows -/

/-- The spellings `float` accepts beyond plain decimals: the special names and
digits grouped with underscores. -/
def isSpecialSpelling (v : Str) : Bool :=
  v.contains '_' ||
    ["inf".toList, "infinity".toList, "nan".toList].contains (signed (lower (strip v))).2

/-- One `(category, metric, value, unit)` row, as `.get` sees it. The engine
writes its numbers in plain or comma-grouped decimals. -/
structure StatRow where
  category : Option Str
  metric : Option Str
  value : Option Str
  wf : ∀ v ∈ value, isSpecialSpelling v = false

def StatRow.isTotalTime (r : StatRow) : Bool :=
  r.category == some "time".toList && r.metric == some "total_time_ms".toList

def StatRow.isEngineTime (r : StatRow) : Bool :=
  r.category == some "time".toList && r.metric == some "total_engine_time_ms".toList

def StatRow.isRowsReturned (r : StatRow) : Bool :=
  r.category == some "rows".toList && r.metric == some "rows_returned".toList

/-! ## Cells -/

section Reading
variable (binary64 : ℚ → ℚ)

/-- `float(v)` behind `if v not in (None, "None")`; `none` also where `float`
raises `ValueError`. -/
def plainNum (val : Option Str) : Option ℚ :=
  match val with
  | none => none
  | some v => if v = "None".toList then none else (decimal? v).map binary64

/-- `_stats_num`. -/
def statsNum (val : Option Str) : Option ℚ :=
  match val with
  | none => none
  | some v =>
    if v = "None".toList then none else (decimal? (v.filter (· ≠ ','))).map binary64

/-- A cell the SQL loop can read is read alike by the Cypher loop. -/
theorem statsNum_of_plainNum {val : Option Str} {x : ℚ} (h : plainNum binary64 val = some x) :
    statsNum binary64 val = some x := by
  cases val with
  | none => cases h
  | some v =>
    simp only [plainNum, statsNum] at h ⊢
    split at h
    · cases h
    · rename_i hne
      obtain ⟨y, hy, -⟩ := Option.map_eq_some_iff.mp h
      have hcomma := comma_not_mem_of_decimal? hy
      have hself : v.filter (· ≠ ',') = v := List.filter_eq_self.mpr fun c hc => by
        simpa using fun he : c = ',' => hcomma (he ▸ hc)
      rw [if_neg hne, hself, h]

/-! ## The two loops -/

/-- What a loop has seen so far. -/
structure Reading where
  engineReportedMs : Option ℚ := none
  innerRowCount : Option Int := none
  phaseMetrics : List (Str × Metric) := []

/-- One row of the loop in the `STEP_SQL_QUERY` branch. -/
def sqlStatsStep (s : Reading) (r : StatRow) : Reading :=
  if r.isTotalTime then
    match plainNum binary64 r.value with
    | some x => { s with engineReportedMs := some x }
    | none => s
  else if r.isRowsReturned then
    match plainNum binary64 r.value with
    | some x => { s with innerRowCount := some (truncate x) }
    | none => s
  else s

/-- One row of the loop in the `STEP_CYPHER_QUERY` branch. -/
def cypherStatsStep (s : Reading) (r : StatRow) : Reading :=
  if r.isTotalTime then { s with engineReportedMs := statsNum binary64 r.value }
  else if r.isEngineTime then
    match statsNum binary64 r.value with
    | some x =>
      { s with phaseMetrics := set s.phaseMetrics "time.total_engine_time_ms".toList (.num x) }
    | none => s
  else if r.isRowsReturned then
    match statsNum binary64 r.value with
    | some x => { s with innerRowCount := some (truncate x) }
    | none => s
  else match r.category, r.value with
    | some cat, some val =>
      if "cypher.".toList.isPrefixOf cat && val ≠ "None".toList then
        let name := cat ++ ['.'] ++ r.metric.getD "None".toList
        { s with phaseMetrics := set s.phaseMetrics name (.text val) }
      else s
    | _, _ => s

def sqlReading (rows : List StatRow) : Reading := rows.foldl (sqlStatsStep binary64) {}

def cypherReading (rows : List StatRow) : Reading := rows.foldl (cypherStatsStep binary64) {}

/-- What a measured step reports of a statistics table. -/
structure Measurement where
  engineReportedMs : Option ℚ
  rowsReturned : Int
  extra : Option (List (Str × Metric))
  deriving DecidableEq

/-- The SQL branch reports whatever the loop found. -/
def sqlMeasurement (rows : List StatRow) : Except Str Measurement :=
  let s := sqlReading binary64 rows
  .ok { engineReportedMs := s.engineReportedMs, rowsReturned := s.innerRowCount.getD 0, extra := none }

def noTotalTimeError (rows : List StatRow) : Str :=
  "SHOW STATS ACTUAL returned no time/total_time_ms row (".toList ++
    (rows.length.repr.toList ++
      " stats rows parsed); refusing to report an untrusted measurement".toList)

/-- The Cypher branch fails the step when the loop found no time. -/
def cypherMeasurement (rows : List StatRow) : Except Str Measurement :=
  let s := cypherReading binary64 rows
  if s.engineReportedMs.isNone then .error (noTotalTimeError rows)
  else .ok { engineReportedMs := s.engineReportedMs, rowsReturned := s.innerRowCount.getD 0,
             extra := if s.phaseMetrics.isEmpty then none else some s.phaseMetrics }

/-! ## What the loops end with -/

def totalTimeCells (rows : List StatRow) : List (Option Str) :=
  (rows.filter StatRow.isTotalTime).map StatRow.value

def rowsReturnedCells (rows : List StatRow) : List (Option Str) :=
  (rows.filter StatRow.isRowsReturned).map StatRow.value

/-- The last cell a reader can make a number of. -/
def lastNumeral (read : Option Str → Option ℚ) (cells : List (Option Str)) : Option ℚ :=
  (cells.filterMap read).getLast?

theorem totalTime_not_rows {r : StatRow} (h : r.isTotalTime = true) : r.isRowsReturned = false := by
  simp only [StatRow.isTotalTime, StatRow.isRowsReturned, Bool.and_eq_true, beq_iff_eq] at h ⊢
  simp [h.1]

theorem sqlStatsStep_reported (s : Reading) (r : StatRow) :
    (sqlStatsStep binary64 s r).engineReportedMs =
      ((if r.isTotalTime then plainNum binary64 r.value else none).or s.engineReportedMs) := by
  unfold sqlStatsStep
  by_cases ht : r.isTotalTime = true
  · simp only [ht, if_true]
    cases plainNum binary64 r.value <;> rfl
  · simp only [ht, Bool.false_eq_true, if_false]
    split
    · split <;> rfl
    · rfl

theorem sqlStatsStep_rows (s : Reading) (r : StatRow) :
    (sqlStatsStep binary64 s r).innerRowCount =
      ((if r.isRowsReturned then (plainNum binary64 r.value).map truncate else none).or
        s.innerRowCount) := by
  unfold sqlStatsStep
  by_cases ht : r.isTotalTime = true
  · simp only [ht, if_true, totalTime_not_rows ht]
    split <;> rfl
  · by_cases hr : r.isRowsReturned = true
    · simp only [ht, hr, if_true]
      cases plainNum binary64 r.value <;> rfl
    · simp [ht, hr]

theorem cypherStatsStep_rows (s : Reading) (r : StatRow) :
    (cypherStatsStep binary64 s r).innerRowCount =
      ((if r.isRowsReturned then (statsNum binary64 r.value).map truncate else none).or
        s.innerRowCount) := by
  unfold cypherStatsStep
  by_cases ht : r.isTotalTime = true
  · simp [ht, totalTime_not_rows ht]
  · by_cases hr : r.isRowsReturned = true
    · have he : r.isEngineTime = false := by
        simp only [StatRow.isEngineTime, StatRow.isRowsReturned, Bool.and_eq_true, beq_iff_eq] at hr ⊢
        simp [hr.1]
      simp only [ht, he, hr, if_true]
      cases statsNum binary64 r.value <;> rfl
    · simp only [ht, hr, Bool.false_eq_true, if_false]
      split
      · split <;> rfl
      · split
        · split <;> rfl
        · rfl

theorem cypherStatsStep_reported (s : Reading) (r : StatRow) :
    (cypherStatsStep binary64 s r).engineReportedMs =
      (if r.isTotalTime then some (statsNum binary64 r.value) else none).getD s.engineReportedMs := by
  unfold cypherStatsStep
  by_cases ht : r.isTotalTime = true
  · simp [ht]
  · simp only [ht, Bool.false_eq_true, if_false]
    split
    · split <;> rfl
    · split
      · split <;> rfl
      · split
        · split <;> rfl
        · rfl

theorem sqlReading_reported (rows : List StatRow) :
    (sqlReading binary64 rows).engineReportedMs =
      lastNumeral (plainNum binary64) (totalTimeCells rows) := by
  rw [sqlReading, foldl_last_write (sqlStatsStep_reported binary64), lastNumeral, totalTimeCells,
    List.filterMap_map, List.filterMap_filter]
  exact Option.or_none

theorem sqlReading_rows (rows : List StatRow) :
    (sqlReading binary64 rows).innerRowCount =
      (lastNumeral (plainNum binary64) (rowsReturnedCells rows)).map truncate := by
  rw [sqlReading, foldl_last_write (sqlStatsStep_rows binary64), lastNumeral, rowsReturnedCells,
    List.filterMap_map, List.filterMap_filter, ← List.getLast?_map, List.map_filterMap]
  simp only [Option.or_none, Function.comp_apply]
  congr 2
  funext r
  split <;> rfl

theorem cypherReading_rows (rows : List StatRow) :
    (cypherReading binary64 rows).innerRowCount =
      (lastNumeral (statsNum binary64) (rowsReturnedCells rows)).map truncate := by
  rw [cypherReading, foldl_last_write (cypherStatsStep_rows binary64), lastNumeral,
    rowsReturnedCells, List.filterMap_map, List.filterMap_filter, ← List.getLast?_map,
    List.map_filterMap]
  simp only [Option.or_none, Function.comp_apply]
  congr 2
  funext r
  split <;> rfl

theorem cypherReading_reported (rows : List StatRow) :
    (cypherReading binary64 rows).engineReportedMs =
      (totalTimeCells rows).getLast?.bind (statsNum binary64) := by
  rw [cypherReading, foldl_overwrite (cypherStatsStep_reported binary64), totalTimeCells,
    List.getLast?_map]
  have hfm : (rows.filterMap fun r =>
      if r.isTotalTime then some (statsNum binary64 r.value) else none) =
      (rows.filter StatRow.isTotalTime).map fun r => statsNum binary64 r.value := by
    rw [← List.filterMap_eq_map, List.filterMap_filter]
    rfl
  rw [hfm, List.getLast?_map]
  cases (rows.filter StatRow.isTotalTime).getLast? <;> rfl

/-! ## When the branches agree -/

/-- Both branches report the same time and row count, or both fail. -/
def Agree (a b : Except Str Measurement) : Prop :=
  match a, b with
  | .ok m, .ok n => m.engineReportedMs = n.engineReportedMs ∧ m.rowsReturned = n.rowsReturned
  | .error _, .error _ => True
  | _, _ => False

/-- The last `total_time_ms` cell is a numeral; if it is comma-grouped, the
last plain cell before it holds the same number. -/
def TimeReadable (cells : List (Option Str)) : Prop :=
  ∃ v x, cells.getLast? = some v ∧ statsNum binary64 v = some x ∧
    (plainNum binary64 v = none → lastNumeral (plainNum binary64) cells = some x)

/-- If the last numeral among the `rows_returned` cells is comma-grouped, its
count is the one of the last plain cell, or zero when there is no plain one. -/
def CountReadable (cells : List (Option Str)) : Prop :=
  ∀ v x, (cells.filter fun c => (statsNum binary64 c).isSome).getLast? = some v →
    statsNum binary64 v = some x → plainNum binary64 v = none →
    truncate x = ((lastNumeral (plainNum binary64) cells).map truncate).getD 0

theorem timeReadable_iff (cells : List (Option Str)) :
    TimeReadable binary64 cells ↔ ∃ x, cells.getLast?.bind (statsNum binary64) = some x ∧
      lastNumeral (plainNum binary64) cells = some x := by
  constructor
  · intro h
    obtain ⟨v, x, hv, hx, hplain⟩ := h
    refine ⟨x, by simp [hv, hx], ?_⟩
    cases hp : plainNum binary64 v with
    | none => exact hplain hp
    | some y =>
      have hxy : some y = some x := (statsNum_of_plainNum binary64 hp).symm.trans hx
      rw [lastNumeral, getLast?_filterMap_of_last hv hp, hxy]
  · intro h
    obtain ⟨x, hbind, hlast⟩ := h
    obtain ⟨v, hv, hx⟩ := Option.bind_eq_some_iff.mp hbind
    exact ⟨v, x, hv, hx, fun _ => hlast⟩

/-- Reading past the cells no reader understands changes nothing. -/
theorem lastNumeral_filter {r w : Option Str → Option ℚ}
    (hw : ∀ c x, r c = some x → (w c).isSome) (cells : List (Option Str)) :
    lastNumeral r (cells.filter fun c => (w c).isSome) = lastNumeral r cells := by
  rw [lastNumeral, lastNumeral, List.filterMap_filter]
  congr 2
  funext c
  cases hr : r c with
  | none => simp
  | some x => simp [hw c x hr]

theorem countReadable_iff (cells : List (Option Str)) :
    CountReadable binary64 cells ↔
      ((lastNumeral (statsNum binary64) cells).map truncate).getD 0 =
        ((lastNumeral (plainNum binary64) cells).map truncate).getD 0 := by
  have hwide : ∀ c x, plainNum binary64 c = some x → (statsNum binary64 c).isSome := fun c x h => by
    rw [statsNum_of_plainNum binary64 h]; rfl
  have hstats := lastNumeral_filter (r := statsNum binary64) (w := statsNum binary64)
    (fun c x h => by rw [h]; rfl) cells
  have hplain := lastNumeral_filter hwide cells
  unfold CountReadable
  rw [← hstats, ← hplain]
  generalize hnum : (cells.filter fun c => (statsNum binary64 c).isSome) = numerals
  cases hlast : numerals.getLast? with
  | none =>
    have hnil : numerals = [] := List.getLast?_eq_none_iff.mp hlast
    simp [hnil, lastNumeral]
  | some v =>
    have hv : (statsNum binary64 v).isSome := by
      have hmem := List.mem_of_getLast? hlast
      rw [← hnum] at hmem
      simpa using (List.mem_filter.mp hmem).2
    obtain ⟨x, hx⟩ := Option.isSome_iff_exists.mp hv
    have hs : lastNumeral (statsNum binary64) numerals = some x :=
      getLast?_filterMap_of_last hlast hx
    rw [hs]
    constructor
    · intro h
      cases hp : plainNum binary64 v with
      | none => exact h v x rfl hx hp
      | some y =>
        have hxy : some y = some x := (statsNum_of_plainNum binary64 hp).symm.trans hx
        rw [lastNumeral, getLast?_filterMap_of_last hlast hp, hxy]
    · intro h w y hw hy _
      obtain rfl := Option.some.inj hw
      obtain rfl := Option.some.inj (hx.symm.trans hy)
      exact h

/-- **Agreement of the two branches.** They report the same measurement of a
statistics table exactly when its last `total_time_ms` cell and its last
`rows_returned` numeral are ones that reading without the thousands separators
does not change. -/
theorem measurements_agree_iff (rows : List StatRow) :
    Agree (sqlMeasurement binary64 rows) (cypherMeasurement binary64 rows) ↔
      TimeReadable binary64 (totalTimeCells rows) ∧
        CountReadable binary64 (rowsReturnedCells rows) := by
  rw [timeReadable_iff, countReadable_iff, ← cypherReading_reported, ← sqlReading_reported]
  simp only [sqlMeasurement, cypherMeasurement]
  cases hc : (cypherReading binary64 rows).engineReportedMs with
  | none => simp [Agree]
  | some x =>
    simp only [Option.isNone_some, Bool.false_eq_true, if_false, Agree, sqlReading_rows,
      cypherReading_rows]
    constructor
    · intro h
      obtain ⟨ht, hr⟩ := h
      exact ⟨⟨x, rfl, ht⟩, hr.symm⟩
    · intro h
      obtain ⟨⟨y, hy, ht⟩, hr⟩ := h
      obtain rfl := Option.some.inj hy
      exact ⟨ht, hr.symm⟩

end Reading

/-- A table of one comma-grouped time and one comma-grouped row count. -/
def groupedStats : List StatRow :=
  [⟨some "time".toList, some "total_time_ms".toList, some "5,123.4".toList, by decide⟩,
   ⟨some "rows".toList, some "rows_returned".toList, some "10,000,000".toList, by decide⟩]

/-- On large results the branches part: one reports ten million rows and a
time, the other no row and no time. -/
theorem measurements_disagree_grouped : ¬ ∀ (binary64 : ℚ → ℚ) (rows : List StatRow),
    Agree (sqlMeasurement binary64 rows) (cypherMeasurement binary64 rows) := by
  intro h
  have hs : sqlMeasurement id groupedStats = .ok ⟨none, 0, none⟩ := by decide +kernel
  have hc : cypherMeasurement id groupedStats = .ok ⟨some (25617 / 5), 10000000, none⟩ := by
    decide +kernel
  have := h id groupedStats
  simp [hs, hc, Agree] at this

end DeltaForgeBench.Engines.ShowStats
