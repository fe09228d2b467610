import DeltaForgeBench.Base.Sorted
import DeltaForgeBench.Base.Text
import Mathlib.Data.Rat.Defs
import Mathlib.Algebra.Order.Ring.Rat
import Mathlib.Algebra.Field.Rat

/-! # Timings of one driver

Each iteration of the driver bench fills one record of phase times. The warm
median reads the measured iterations only, and of these only the ones whose
`error` stayed empty. Times are exact numbers here. -/
namespace DeltaForgeBench.Drivers
open DeltaForgeBench.Base.Text DeltaForgeBench.Base

/-- The connection settings of a run. -/
structure Config where
  odbcDsn : Str
  odbcUid : Str
  odbcPwd : Str
  adbcSo : Str
  adbcUri : Str
  adbcCompute : Str
  adbcUser : Str
  adbcPwd : Str
  adbcToken : Str

/-- `std::to_string`. -/
def number (n : Int) : Str := (toString n).toList

structure PhaseTimings where
  tConnect : ℚ := 0
  tPrepare : ℚ := 0
  tExecute : ℚ := 0
  tBind : ℚ := 0
  tDrain : ℚ := 0
  tRelease : ℚ := 0
  tTotal : ℚ := 0
  rows : Int := 0
  columns : Int := 0
  /-- Filled if the iteration failed. -/
  error : Str := []

structure DriverResult where
  driver : Str
  iters : List PhaseTimings
  warmMedian : PhaseTimings
  warmupCount : Int
  measuredCount : Nat
  errorCount : Nat
  sql : Str

/-- `median`, which reads nothing as zero. -/
def median (v : List ℚ) : ℚ := (Sorted.median v).getD 0

/-- The iterations behind the warmups. -/
def afterWarmup (iters : List PhaseTimings) (warmupCount : Int) : List PhaseTimings :=
  iters.drop warmupCount.toNat

def measured (iters : List PhaseTimings) (warmupCount : Int) : List PhaseTimings :=
  (afterWarmup iters warmupCount).filter (·.error = [])

/-- `compute_warm_median`. -/
def computeWarmMedian (r : DriverResult) (warmupCount : Int) : DriverResult :=
  let m := measured r.iters warmupCount
  { r with
    warmupCount := warmupCount
    measuredCount := m.length
    errorCount := (afterWarmup r.iters warmupCount).countP (·.error ≠ [])
    warmMedian := { r.warmMedian with
      tConnect := median (m.map (·.tConnect))
      tPrepare := median (m.map (·.tPrepare))
      tExecute := median (m.map (·.tExecute))
      tBind := median (m.map (·.tBind))
      tDrain := median (m.map (·.tDrain))
      tRelease := median (m.map (·.tRelease))
      tTotal := median (m.map (·.tTotal))
      rows := (m.map (·.rows)).headD 0
      columns := (m.map (·.columns)).headD 0 } }

/-- The warm median is what it would be without the iteration, which is counted as an error. -/
def Excluded (it : PhaseTimings) : Prop :=
  ∀ (r : DriverResult) (before after : List PhaseTimings) (warmupCount : Int),
    warmupCount ≤ before.length →
      let withIt := computeWarmMedian { r with iters := before ++ it :: after } warmupCount
      let without := computeWarmMedian { r with iters := before ++ after } warmupCount
      withIt.warmMedian = without.warmMedian ∧ withIt.measuredCount = without.measuredCount ∧
        withIt.errorCount = without.errorCount + 1

theorem afterWarmup_append {before rest : List PhaseTimings} {warmupCount : Int}
    (h : warmupCount ≤ before.length) :
    afterWarmup (before ++ rest) warmupCount = afterWarmup before warmupCount ++ rest := by
  rw [afterWarmup, List.drop_append_of_le_length (by omega), afterWarmup]

/-- An iteration is left out exactly when its error is filled. -/
theorem excluded_iff (it : PhaseTimings) : Excluded it ↔ it.error ≠ [] := by
  constructor
  · intro h hempty
    obtain ⟨-, hcount, -⟩ := h ⟨[], [], it, 0, 0, 0, []⟩ [] [] 0 (Int.le_refl 0)
    have hone : (measured [it] 0).length = 1 := by
      simp [measured, afterWarmup, hempty]
    have hnone : (measured [] 0).length = 0 := rfl
    have hsame : (measured [it] 0).length = (measured [] 0).length := hcount
    omega
  · intro h r before after warmupCount hle
    have hmeasured : measured (before ++ it :: after) warmupCount =
        measured (before ++ after) warmupCount := by
      simp [measured, afterWarmup_append hle, h]
    refine ⟨?_, ?_, ?_⟩
    · simp only [computeWarmMedian, hmeasured]
    · simp only [computeWarmMedian, hmeasured]
    · have hit : decide (it.error ≠ []) = true := decide_eq_true h
      simp only [computeWarmMedian, afterWarmup_append hle, List.countP_append, List.countP_cons,
        if_pos hit]
      omega

/-- When an iteration ends with an error set or else with nothing checked amiss, its
faults are reported unless one of them is silent. -/
theorem reported_iff_of_end {out : PhaseTimings} {faulty passes silent : Prop}
    (h : (out.error = [] ∧ passes ∧ (faulty ↔ silent)) ∨ (out.error ≠ [] ∧ ¬ passes)) :
    (faulty → out.error ≠ [] ∧ Excluded out) ↔ (passes → ¬ silent) := by
  rw [excluded_iff, and_self]
  rcases h with ⟨herror, hpasses, hfaulty⟩ | ⟨herror, hpasses⟩
  · rw [hfaulty]
    exact ⟨fun h _ hsilent => h hsilent herror, fun h hsilent => absurd hsilent (h hpasses)⟩
  · exact ⟨fun _ h => absurd h hpasses, fun _ _ => herror⟩

end DeltaForgeBench.Drivers
