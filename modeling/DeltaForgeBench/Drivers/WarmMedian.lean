import DeltaForgeBench.Base.Quantile
import DeltaForgeBench.Drivers.Timings
import Mathlib.Data.Rat.Floor

/-! # The warm medians of the two driver benches

The C++ bench and the .NET bench each fill parallel vectors in one loop over the
iterations, which passes by the warmups and counts the failed ones. Both loops
are instances of one loop that keeps the list of what it has measured, so both
benches obey the same laws and agree on the phases they share. -/
namespace DeltaForgeBench.Drivers.WarmMedian
open DeltaForgeBench.Base.Text DeltaForgeBench.Base DeltaForgeBench.Base.Quantile

/-! ## A loop that skips and counts -/

section Loop
variable {α S : Type*}

/-- `for (i = 0; i < l.size(); ++i)`. -/
def scan (step : S → Nat → α → S) : Nat → S → List α → S
  | _, s, [] => s
  | i, s, a :: l => scan step (i + 1) (step s i a) l

/-- The state of the loop is made of what it has measured and how often it has failed. -/
structure Tallies (failed : α → Bool) (w : Int) (step : S → Nat → α → S)
    (state : List α → Nat → S) : Prop where
  warmup : ∀ (m : List α) (e i : Nat) (a : α), (i : Int) < w →
    step (state m e) i a = state m e
  failure : ∀ (m : List α) (e i : Nat) (a : α), ¬ (i : Int) < w → failed a = true →
    step (state m e) i a = state m (e + 1)
  success : ∀ (m : List α) (e i : Nat) (a : α), ¬ (i : Int) < w → failed a = false →
    step (state m e) i a = state (m ++ [a]) e

variable {failed : α → Bool} {w : Int} {step : S → Nat → α → S} {state : List α → Nat → S}

theorem Tallies.scan_eq (h : Tallies failed w step state) (l : List α) (i : Nat) (m : List α)
    (e : Nat) : scan step i (state m e) l =
      state (m ++ (l.drop (w - i).toNat).filter (!failed ·))
        (e + (l.drop (w - i).toNat).countP failed) := by
  induction l generalizing i m e with
  | nil => simp [scan]
  | cons a l ih =>
    rw [scan]
    by_cases hi : (i : Int) < w
    · have hdrop : (w - i).toNat = (w - (i + 1 : Nat)).toNat + 1 := by omega
      rw [h.warmup m e i a hi, ih, hdrop, List.drop_succ_cons]
    · have here : (w - i).toNat = 0 := by omega
      have next : (w - (i + 1 : Nat)).toNat = 0 := by omega
      cases ha : failed a with
      | true =>
        rw [h.failure m e i a hi ha, ih, here, next]
        simp only [List.drop_zero, List.filter_cons, List.countP_cons, ha]
        simp only [Bool.not_true, Bool.false_eq_true, if_false, if_true]
        congr 1
        omega
      | false =>
        rw [h.success m e i a hi ha, ih, here, next]
        simp only [List.drop_zero, List.filter_cons, List.countP_cons, ha]
        simp

end Loop

/-! ## The C++ loop -/

namespace Cpp

/-- The vectors of the loop and its two counts. -/
structure Vectors where
  connect : List ℚ := []
  prepare : List ℚ := []
  execute : List ℚ := []
  bind : List ℚ := []
  drain : List ℚ := []
  release : List ℚ := []
  total : List ℚ := []
  rows : List Int := []
  cols : List Int := []
  measuredCount : Nat := 0
  errorCount : Nat := 0

/-- One pass through the loop. -/
def visit (warmupCount : Int) (v : Vectors) (i : Nat) (it : PhaseTimings) : Vectors :=
  if (i : Int) < warmupCount then v
  else if it.error ≠ [] then { v with errorCount := v.errorCount + 1 }
  else
    { v with
      measuredCount := v.measuredCount + 1
      connect := v.connect ++ [it.tConnect]
      prepare := v.prepare ++ [it.tPrepare]
      execute := v.execute ++ [it.tExecute]
      bind := v.bind ++ [it.tBind]
      drain := v.drain ++ [it.tDrain]
      release := v.release ++ [it.tRelease]
      total := v.total ++ [it.tTotal]
      rows := v.rows ++ [it.rows]
      cols := v.cols ++ [it.columns] }

/-- `compute_warm_median`, as its loop runs. -/
def computeWarmMedian (r : DriverResult) (warmupCount : Int) : DriverResult :=
  let v := scan (visit warmupCount) 0 {} r.iters
  { r with
    warmupCount := warmupCount
    measuredCount := v.measuredCount
    errorCount := v.errorCount
    warmMedian := { r.warmMedian with
      tConnect := median v.connect
      tPrepare := median v.prepare
      tExecute := median v.execute
      tBind := median v.bind
      tDrain := median v.drain
      tRelease := median v.release
      tTotal := median v.total
      rows := v.rows.headD 0
      columns := v.cols.headD 0 } }

/-- The vectors after `m` was measured and `e` iterations have failed. -/
def vectors (m : List PhaseTimings) (e : Nat) : Vectors where
  connect := m.map (·.tConnect)
  prepare := m.map (·.tPrepare)
  execute := m.map (·.tExecute)
  bind := m.map (·.tBind)
  drain := m.map (·.tDrain)
  release := m.map (·.tRelease)
  total := m.map (·.tTotal)
  rows := m.map (·.rows)
  cols := m.map (·.columns)
  measuredCount := m.length
  errorCount := e

def failed (it : PhaseTimings) : Bool := it.error ≠ []

theorem tallies (w : Int) : Tallies failed w (visit w) vectors where
  warmup m e i it hi := by rw [visit, if_pos hi]
  failure m e i it hi hfailed := by
    have herror : it.error ≠ [] := of_decide_eq_true hfailed
    rw [visit, if_neg hi, if_pos herror]
    rfl
  success m e i it hi hfailed := by
    have herror : ¬ it.error ≠ [] := of_decide_eq_false hfailed
    rw [visit, if_neg hi, if_neg herror]
    simp [vectors]

theorem scan_visit (iters : List PhaseTimings) (w : Int) : scan (visit w) 0 {} iters =
    vectors (measured iters w) ((afterWarmup iters w).countP failed) := by
  have h := (tallies w).scan_eq iters 0 [] 0
  simp only [Nat.cast_zero, Int.sub_zero, List.nil_append, Nat.zero_add] at h
  have hmeasured : measured iters w = (iters.drop w.toNat).filter (!failed ·) := by
    simp [measured, afterWarmup, failed]
  rw [hmeasured]
  exact h

/-- The loop computes the warm median of the measured iterations. -/
theorem computeWarmMedian_eq (r : DriverResult) (w : Int) :
    computeWarmMedian r w = Drivers.computeWarmMedian r w := by
  simp only [computeWarmMedian, scan_visit]
  rfl

end Cpp

/-! ## The .NET loop -/

namespace Dotnet

structure PhaseTimings where
  tConnect : ℚ := 0
  tExecute : ℚ := 0
  tDrain : ℚ := 0
  tRelease : ℚ := 0
  tTotal : ℚ := 0
  rows : Int := 0
  columns : Int := 0
  /-- Not null if the iteration failed. -/
  error : Option Str := none

structure DriverResult where
  driver : Str := []
  iters : List PhaseTimings := []
  warmMedian : PhaseTimings := {}
  warmupCount : Int := 0
  measuredCount : Nat := 0
  errorCount : Nat := 0
  sql : Str := []

/-- The lists of the loop and its two counts. -/
structure Vectors where
  connect : List ℚ := []
  execute : List ℚ := []
  drain : List ℚ := []
  release : List ℚ := []
  total : List ℚ := []
  rows : List Int := []
  cols : List Int := []
  measuredCount : Nat := 0
  errorCount : Nat := 0

/-- One pass through the loop. -/
def visit (warmups : Int) (v : Vectors) (i : Nat) (it : PhaseTimings) : Vectors :=
  if (i : Int) < warmups then v
  else if it.error.isSome then { v with errorCount := v.errorCount + 1 }
  else
    { v with
      measuredCount := v.measuredCount + 1
      connect := v.connect ++ [it.tConnect]
      execute := v.execute ++ [it.tExecute]
      drain := v.drain ++ [it.tDrain]
      release := v.release ++ [it.tRelease]
      total := v.total ++ [it.tTotal]
      rows := v.rows ++ [it.rows]
      cols := v.cols ++ [it.columns] }

/-- `Med`. -/
def med (v : List ℚ) : ℚ :=
  if v.length = 0 then 0
  else
    let s := Sorted.sorted v
    let n := v.length
    if n % 2 = 1 then s.getD (n / 2) 0 else 1 / 2 * (s.getD (n / 2 - 1) 0 + s.getD (n / 2) 0)

/-- `ComputeWarmMedian`. -/
def computeWarmMedian (r : DriverResult) (warmups : Int) : DriverResult :=
  let v := scan (visit warmups) 0 {} r.iters
  { r with
    warmupCount := warmups
    measuredCount := v.measuredCount
    errorCount := v.errorCount
    warmMedian :=
      { tConnect := med v.connect
        tExecute := med v.execute
        tDrain := med v.drain
        tRelease := med v.release
        tTotal := med v.total
        rows := v.rows.headD 0
        columns := v.cols.headD 0 } }

/-- The lists after `m` was measured and `e` iterations have failed. -/
def vectors (m : List PhaseTimings) (e : Nat) : Vectors where
  connect := m.map (·.tConnect)
  execute := m.map (·.tExecute)
  drain := m.map (·.tDrain)
  release := m.map (·.tRelease)
  total := m.map (·.tTotal)
  rows := m.map (·.rows)
  cols := m.map (·.columns)
  measuredCount := m.length
  errorCount := e

def failed (it : PhaseTimings) : Bool := it.error.isSome

theorem tallies (w : Int) : Tallies failed w (visit w) vectors where
  warmup m e i it hi := by rw [visit, if_pos hi]
  failure m e i it hi hfailed := by
    have herror : it.error.isSome = true := hfailed
    rw [visit, if_neg hi, if_pos herror]
    rfl
  success m e i it hi hfailed := by
    have herror : ¬ it.error.isSome = true := Bool.eq_false_iff.mp hfailed
    rw [visit, if_neg hi, if_neg herror]
    simp [vectors]

/-- The median of the .NET bench is that of the C++ bench. -/
theorem med_eq (v : List ℚ) : med v = median v := by
  rw [med, median, Sorted.median]
  by_cases hempty : v.length = 0
  · rw [if_pos hempty, List.eq_nil_of_length_eq_zero hempty]
    rfl
  · have hlen : (Sorted.sorted v).length = v.length := Sorted.length_sorted v
    have hupper : v.length / 2 < (Sorted.sorted v).length := by omega
    have hlower : v.length / 2 - 1 < (Sorted.sorted v).length := by omega
    simp only [if_neg hempty, List.getD_eq_getElem?_getD, List.getElem?_eq_getElem hupper,
      List.getElem?_eq_getElem hlower, Option.getD_some]
    split
    · rfl
    · exact one_div_mul_eq_div _ _

end Dotnet

/-! ## Benches -/

/-- What a bench makes of its iterations. -/
structure Summary (ι : Type) where
  measuredCount : Nat
  errorCount : Nat
  warmMedian : ι

/-- A bench with iterations `ι` that times the phases `π`. -/
structure Bench (ι π : Type) where
  failed : ι → Bool
  time : π → ι → ℚ
  /-- From the iterations and the number of warmups. -/
  run : List ι → Int → Summary ι

section Laws
variable {ι π : Type} (b : Bench ι π)

/-- The iterations from the index of the warmup count on that have not failed. -/
def Bench.measured (iters : List ι) (w : Int) : List ι :=
  (iters.zipIdx.filter fun p => !decide ((p.2 : Int) < w) && !b.failed p.1).map Prod.fst

def Bench.times (p : π) (iters : List ι) (w : Int) : List ℚ := (b.measured iters w).map (b.time p)

/-- Two runs that differ in warmups and in iterations that fail in both. -/
structure Bench.Alters (w : Int) (iters altered : List ι) : Prop where
  length_eq : altered.length = iters.length
  getElem : ∀ (i : Nat) (h : i < iters.length) (h' : i < altered.length), ¬ (i : Int) < w →
    iters[i] = altered[i] ∨ (b.failed iters[i] = true ∧ b.failed altered[i] = true)

/-- What a bench owes to its readers. -/
structure Bench.Lawful : Prop where
  counts (iters : List ι) (w : Int) : 0 ≤ w →
    ((b.run iters w).measuredCount + (b.run iters w).errorCount : Int) = max 0 (iters.length - w)
  measuredCount (iters : List ι) (w : Int) : 0 ≤ w →
    (b.run iters w).measuredCount = (b.measured iters w).length
  median (iters : List ι) (w : Int) (p : π) : 0 ≤ w → b.times p iters w ≠ [] →
    Sorted.median (b.times p iters w) = some (b.time p (b.run iters w).warmMedian)
  between (iters : List ι) (w : Int) (p : π) : 0 ≤ w → b.times p iters w ≠ [] →
    ∃ lo ∈ b.times p iters w, ∃ hi ∈ b.times p iters w,
      (∀ t ∈ b.times p iters w, lo ≤ t ∧ t ≤ hi) ∧
        lo ≤ b.time p (b.run iters w).warmMedian ∧ b.time p (b.run iters w).warmMedian ≤ hi
  zero_iff (iters : List ι) (w : Int) (p : π) : 0 ≤ w →
    (b.time p (b.run iters w).warmMedian = 0 ↔
      b.times p iters w = [] ∨ Sorted.median (b.times p iters w) = some 0)
  altered (iters altered : List ι) (w : Int) : 0 ≤ w → b.Alters w iters altered →
    b.run altered w = b.run iters w
  permuted (iters permuted : List ι) (w : Int) (p : π) : 0 ≤ w →
    (b.measured iters w).Perm (b.measured permuted w) →
      b.time p (b.run iters w).warmMedian = b.time p (b.run permuted w).warmMedian

variable {b}

/-- The measured iterations are those behind the warmups that have not failed. -/
theorem filter_zipIdx (q : ι → Bool) (w : Int) (l : List ι) (i : Nat) :
    ((l.zipIdx i).filter fun p => !decide ((p.2 : Int) < w) && q p.1).map Prod.fst =
      (l.drop (w - i).toNat).filter q := by
  induction l generalizing i with
  | nil => simp
  | cons a l ih =>
    rw [List.zipIdx_cons]
    by_cases hi : (i : Int) < w
    · have hdrop : (w - i).toNat = (w - (i + 1 : Nat)).toNat + 1 := by omega
      rw [List.filter_cons_of_neg (by simp [hi]), ih, hdrop, List.drop_succ_cons]
    · have here : (w - i).toNat = 0 := by omega
      have next : (w - (i + 1 : Nat)).toNat = 0 := by omega
      have tail := ih (i + 1)
      rw [next, List.drop_zero] at tail
      rw [here, List.drop_zero, List.filter_cons, List.filter_cons]
      cases hq : q a with
      | true => simp [hi, tail]
      | false => simp [tail]

theorem Bench.measured_eq (iters : List ι) (w : Int) :
    b.measured iters w = (iters.drop w.toNat).filter (!b.failed ·) := by
  have h := filter_zipIdx (!b.failed ·) w iters 0
  rwa [Nat.cast_zero, Int.sub_zero] at h

/-- A bench that makes its summary of the iterations measured and of the number of failures. -/
structure Bench.Summarises (b : Bench ι π) (medianOf : List ι → ι) : Prop where
  run_eq : ∀ (iters : List ι) (w : Int), b.run iters w =
    { measuredCount := ((iters.drop w.toNat).filter (!b.failed ·)).length
      errorCount := (iters.drop w.toNat).countP b.failed
      warmMedian := medianOf ((iters.drop w.toNat).filter (!b.failed ·)) }
  time_eq : ∀ (p : π) (m : List ι), b.time p (medianOf m) = Drivers.median (m.map (b.time p))

theorem median_eq_of_ne_nil {v : List ℚ} (h : v ≠ []) : Sorted.median v = some (median v) := by
  obtain ⟨x, hx⟩ := Option.isSome_iff_exists.mp (Sorted.median_isSome h)
  rw [median, hx, Option.getD_some]

theorem median_perm {v u : List ℚ} (h : v.Perm u) : median v = median u := by
  rw [median, median, Sorted.median, Sorted.median, Sorted.sorted_congr h, h.length_eq]

/-- The median lies between the smallest and the largest value. -/
theorem median_between {v : List ℚ} (h : v ≠ []) :
    ∃ lo ∈ v, ∃ hi ∈ v, (∀ t ∈ v, lo ≤ t ∧ t ≤ hi) ∧ lo ≤ median v ∧ median v ≤ hi := by
  have hmedian : median v = quantile v (1 / 2) :=
    Option.some_inj.mp ((median_eq_of_ne_nil h).symm.trans (median_eq_quantile h))
  obtain ⟨a, ha, c, hc, hlo, hhi⟩ := quantile_between h (one_div_nonneg.mpr zero_le_two)
  refine ⟨_, orderStat_mem h 0, _, orderStat_mem h (v.length - 1), fun t ht => mem_between ht, ?_⟩
  rw [hmedian]
  exact ⟨(mem_between ha).1.trans hlo, hhi.trans (mem_between hc).2⟩

/-- Failed iterations are counted and leave nothing else behind. -/
theorem tally_congr {failed : ι → Bool} {l m : List ι}
    (h : List.Forall₂ (fun a a' => a = a' ∨ (failed a = true ∧ failed a' = true)) l m) :
    m.filter (!failed ·) = l.filter (!failed ·) ∧ m.countP failed = l.countP failed := by
  induction h with
  | nil => exact ⟨rfl, rfl⟩
  | cons hhead _ ih =>
    obtain ⟨hfilter, hcount⟩ := ih
    rcases hhead with rfl | ⟨ha, ha'⟩
    · rw [List.filter_cons, List.filter_cons, List.countP_cons, List.countP_cons, hfilter, hcount]
      exact ⟨rfl, rfl⟩
    · rw [List.filter_cons_of_neg (by simp [ha']), List.filter_cons_of_neg (by simp [ha]),
        List.countP_cons_of_pos ha', List.countP_cons_of_pos ha, hcount]
      exact ⟨hfilter, rfl⟩

section Summarises
variable {medianOf : List ι → ι} (h : b.Summarises medianOf)
include h

theorem Bench.Summarises.time_warmMedian (iters : List ι) (w : Int) (p : π) :
    b.time p (b.run iters w).warmMedian = Drivers.median (b.times p iters w) := by
  rw [h.run_eq, h.time_eq, Bench.times, Bench.measured_eq]

/-- A negative warmup count leaves no iteration out. -/
theorem Bench.Summarises.counts (iters : List ι) (w : Int) :
    ((b.run iters w).measuredCount + (b.run iters w).errorCount : Int) =
      max 0 (iters.length - max 0 w) := by
  rw [h.run_eq]
  have hsplit := List.length_eq_countP_add_countP b.failed (l := iters.drop w.toNat)
  have hnot : (iters.drop w.toNat).countP (fun a => ¬ b.failed a = true) =
      ((iters.drop w.toNat).filter (!b.failed ·)).length := by
    rw [List.countP_eq_length_filter]
    simp
  rw [hnot, List.length_drop] at hsplit
  simp only
  omega

theorem Bench.Summarises.median {iters : List ι} {w : Int} {p : π} (hne : b.times p iters w ≠ []) :
    Sorted.median (b.times p iters w) = some (b.time p (b.run iters w).warmMedian) := by
  rw [h.time_warmMedian, median_eq_of_ne_nil hne]

theorem Bench.Summarises.altered {iters altered : List ι} {w : Int} (hw : 0 ≤ w)
    (hsame : b.Alters w iters altered) : b.run altered w = b.run iters w := by
  have hrel : List.Forall₂ (fun a a' => a = a' ∨ (b.failed a = true ∧ b.failed a' = true))
      (iters.drop w.toNat) (altered.drop w.toNat) := by
    refine List.forall₂_iff_get.mpr ⟨by simp [hsame.length_eq], ?_⟩
    intro i hi hi'
    rw [List.get_eq_getElem, List.get_eq_getElem, List.getElem_drop, List.getElem_drop]
    exact hsame.getElem (w.toNat + i) _ _ (by omega)
  obtain ⟨hfilter, hcount⟩ := tally_congr hrel
  rw [h.run_eq, h.run_eq, hfilter, hcount]

theorem Bench.Summarises.lawful : b.Lawful where
  counts iters w hw := by rw [h.counts, max_eq_right hw]
  measuredCount iters w _ := by rw [h.run_eq, Bench.measured_eq]
  median _ _ _ _ hne := h.median hne
  between iters w p _ hne := by
    rw [h.time_warmMedian]
    exact median_between hne
  zero_iff iters w p _ := by
    rw [h.time_warmMedian]
    by_cases hne : b.times p iters w = []
    · rw [hne]
      exact ⟨fun _ => .inl rfl, fun _ => rfl⟩
    · rw [median_eq_of_ne_nil hne, Option.some_inj]
      exact (or_iff_right hne).symm
  altered _ _ _ hw hsame := h.altered hw hsame
  permuted iters permuted w p _ hperm := by
    rw [h.time_warmMedian, h.time_warmMedian]
    exact median_perm (hperm.map (b.time p))

end Summarises

end Laws

/-! ## The two benches -/

/-- The phases of the C++ bench. -/
inductive Phase | connect | prepare | execute | bind | drain | release | total

def Phase.time : Phase → PhaseTimings → ℚ
  | .connect => (·.tConnect)
  | .prepare => (·.tPrepare)
  | .execute => (·.tExecute)
  | .bind => (·.tBind)
  | .drain => (·.tDrain)
  | .release => (·.tRelease)
  | .total => (·.tTotal)

/-- The phases of the .NET bench. -/
inductive Dotnet.Phase | connect | execute | drain | release | total

def Dotnet.Phase.time : Dotnet.Phase → Dotnet.PhaseTimings → ℚ
  | .connect => (·.tConnect)
  | .execute => (·.tExecute)
  | .drain => (·.tDrain)
  | .release => (·.tRelease)
  | .total => (·.tTotal)

/-- The C++ bench has each phase of the .NET bench. -/
def Dotnet.Phase.shared : Dotnet.Phase → WarmMedian.Phase
  | .connect => .connect
  | .execute => .execute
  | .drain => .drain
  | .release => .release
  | .total => .total

def Cpp.bench (r : DriverResult) : Bench PhaseTimings Phase where
  failed := Cpp.failed
  time := Phase.time
  run iters w :=
    let out := Cpp.computeWarmMedian { r with iters := iters } w
    { measuredCount := out.measuredCount
      errorCount := out.errorCount
      warmMedian := out.warmMedian }

def Dotnet.bench (r : Dotnet.DriverResult) : Bench Dotnet.PhaseTimings Dotnet.Phase where
  failed := Dotnet.failed
  time := Dotnet.Phase.time
  run iters w :=
    let out := Dotnet.computeWarmMedian { r with iters := iters } w
    { measuredCount := out.measuredCount
      errorCount := out.errorCount
      warmMedian := out.warmMedian }

theorem Cpp.summarises (r : DriverResult) : (Cpp.bench r).Summarises fun m =>
    { r.warmMedian with
      tConnect := median (m.map (·.tConnect))
      tPrepare := median (m.map (·.tPrepare))
      tExecute := median (m.map (·.tExecute))
      tBind := median (m.map (·.tBind))
      tDrain := median (m.map (·.tDrain))
      tRelease := median (m.map (·.tRelease))
      tTotal := median (m.map (·.tTotal))
      rows := (m.map (·.rows)).headD 0
      columns := (m.map (·.columns)).headD 0 } where
  run_eq iters w := by
    have hmeasured : measured iters w = (iters.drop w.toNat).filter (!(Cpp.bench r).failed ·) := by
      simp [measured, afterWarmup, Cpp.bench, Cpp.failed]
    rw [← hmeasured]
    simp only [Cpp.bench, Cpp.computeWarmMedian, Cpp.scan_visit]
    rfl
  time_eq p m := by cases p <;> rfl

theorem Dotnet.scan_visit (iters : List Dotnet.PhaseTimings) (w : Int) :
    scan (Dotnet.visit w) 0 {} iters =
      Dotnet.vectors ((iters.drop w.toNat).filter (!Dotnet.failed ·))
        ((iters.drop w.toNat).countP Dotnet.failed) := by
  have h := (Dotnet.tallies w).scan_eq iters 0 [] 0
  simp only [Nat.cast_zero, Int.sub_zero, List.nil_append, Nat.zero_add] at h
  exact h

theorem Dotnet.summarises (r : Dotnet.DriverResult) : (Dotnet.bench r).Summarises fun m =>
    { tConnect := median (m.map (·.tConnect))
      tExecute := median (m.map (·.tExecute))
      tDrain := median (m.map (·.tDrain))
      tRelease := median (m.map (·.tRelease))
      tTotal := median (m.map (·.tTotal))
      rows := (m.map (·.rows)).headD 0
      columns := (m.map (·.columns)).headD 0 } where
  run_eq iters w := by
    simp only [Dotnet.bench, Dotnet.computeWarmMedian, Dotnet.scan_visit, Dotnet.med_eq]
    rfl
  time_eq p m := by cases p <;> rfl

/-! ## Agreement -/

/-- The same iteration in the two benches. -/
structure SameIteration (it : PhaseTimings) (it' : Dotnet.PhaseTimings) : Prop where
  time_eq (p : Dotnet.Phase) : p.shared.time it = p.time it'
  rows_eq : it.rows = it'.rows
  columns_eq : it.columns = it'.columns
  failed_iff : it.error ≠ [] ↔ it'.error ≠ none

/-- Two runs of the same iterations agree on the counts and on all they both report. -/
structure Agree (s : Summary PhaseTimings) (s' : Summary Dotnet.PhaseTimings) : Prop where
  measuredCount_eq : s.measuredCount = s'.measuredCount
  errorCount_eq : s.errorCount = s'.errorCount
  time_eq (p : Dotnet.Phase) : p.shared.time s.warmMedian = p.time s'.warmMedian
  rows_eq : s.warmMedian.rows = s'.warmMedian.rows
  columns_eq : s.warmMedian.columns = s'.warmMedian.columns

theorem SameIteration.failed_eq {it : PhaseTimings} {it' : Dotnet.PhaseTimings}
    (h : SameIteration it it') : Cpp.failed it = Dotnet.failed it' := by
  rw [Cpp.failed, Dotnet.failed, Bool.eq_iff_iff, decide_eq_true_iff, h.failed_iff,
    Option.isSome_iff_ne_none]

section Forall₂
variable {α β γ : Type*} {R : α → β → Prop} {l : List α} {m : List β}

/-- Related lists are filtered and counted alike by related tests. -/
theorem forall₂_tally {p : α → Bool} {q : β → Bool} (hpq : ∀ a b, R a b → p a = q b)
    (h : List.Forall₂ R l m) :
    List.Forall₂ R (l.filter (!p ·)) (m.filter (!q ·)) ∧ l.countP p = m.countP q := by
  induction h with
  | nil => exact ⟨.nil, rfl⟩
  | @cons a c l m hac _ ih =>
    have hsame := hpq a c hac
    cases hp : p a with
    | true =>
      have hq : q c = true := hsame.symm.trans hp
      rw [List.filter_cons_of_neg (by simp [hp]), List.filter_cons_of_neg (by simp [hq]),
        List.countP_cons_of_pos hp, List.countP_cons_of_pos hq, ih.2]
      exact ⟨ih.1, rfl⟩
    | false =>
      have hq : q c = false := hsame.symm.trans hp
      rw [List.filter_cons_of_pos (by simp [hp]), List.filter_cons_of_pos (by simp [hq]),
        List.countP_cons_of_neg (by simp [hp]), List.countP_cons_of_neg (by simp [hq]), ih.2]
      exact ⟨.cons hac ih.1, rfl⟩

theorem map_eq_of_forall₂ {f : α → γ} {g : β → γ} (hfg : ∀ a b, R a b → f a = g b)
    (h : List.Forall₂ R l m) : l.map f = m.map g := by
  induction h with
  | nil => rfl
  | cons hab _ ih => rw [List.map_cons, List.map_cons, hfg _ _ hab, ih]

end Forall₂

theorem agree (r : DriverResult) (r' : Dotnet.DriverResult) {iters : List PhaseTimings}
    {iters' : List Dotnet.PhaseTimings} (w : Int) (h : List.Forall₂ SameIteration iters iters') :
    Agree ((Cpp.bench r).run iters w) ((Dotnet.bench r').run iters' w) := by
  obtain ⟨hmeasured, hcount⟩ := forall₂_tally (fun _ _ hsame => hsame.failed_eq)
    (List.forall₂_drop w.toNat h)
  rw [(Cpp.summarises r).run_eq, (Dotnet.summarises r').run_eq]
  constructor
  · exact hmeasured.length_eq
  · exact hcount
  · intro p
    have htimes := map_eq_of_forall₂ (fun _ _ hsame => hsame.time_eq p) hmeasured
    have hcpp := (Cpp.summarises r).time_eq p.shared
    have hdotnet := (Dotnet.summarises r').time_eq p
    simp only [Cpp.bench, Dotnet.bench] at hcpp hdotnet ⊢
    rw [hcpp, hdotnet, htimes]
  · exact congrArg (·.headD 0) (map_eq_of_forall₂ (fun _ _ hsame => hsame.rows_eq) hmeasured)
  · exact congrArg (·.headD 0) (map_eq_of_forall₂ (fun _ _ hsame => hsame.columns_eq) hmeasured)

/-- Both benches keep the laws of the warm median, and they agree on what they share. -/
theorem warm_medians_agree (r : DriverResult) (r' : Dotnet.DriverResult) :
    (Cpp.bench r).Lawful ∧ (Dotnet.bench r').Lawful ∧
      ∀ (iters : List PhaseTimings) (iters' : List Dotnet.PhaseTimings) (w : Int), 0 ≤ w →
        List.Forall₂ SameIteration iters iters' →
          Agree ((Cpp.bench r).run iters w) ((Dotnet.bench r').run iters' w) :=
  ⟨(Cpp.summarises r).lawful, (Dotnet.summarises r').lawful, fun _ _ w _ h => agree r r' w h⟩

/-- A warmup, two runs and a failure between them. -/
theorem warm_medians_agree_twoRuns :
    Agree
      ((Cpp.bench ⟨[], [], {}, 0, 0, 0, []⟩).run
        [{ tTotal := 9 }, { tTotal := 3, rows := 7 }, { error := ['x'] }, { tTotal := 5 }] 1)
      ((Dotnet.bench {}).run
        [{ tTotal := 9 }, { tTotal := 3, rows := 7 }, { error := some [] }, { tTotal := 5 }] 1) := by
  refine (warm_medians_agree _ _).2.2 _ _ 1 Int.one_nonneg
    (.cons ?_ (.cons ?_ (.cons ?_ (.cons ?_ .nil))))
  all_goals
    refine ⟨fun p => ?_, rfl, rfl, by simp⟩
    cases p <;> rfl

end DeltaForgeBench.Drivers.WarmMedian
