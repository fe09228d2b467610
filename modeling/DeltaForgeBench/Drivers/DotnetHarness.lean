import DeltaForgeBench.Drivers.DotnetIterations

/-! # The .NET bench

`Main` runs one driver after the other, each for its warmups and its measured
iterations, and writes the report behind the last one. Nothing there catches an
exception, so one that leaves an iteration takes the report with it. -/
namespace DeltaForgeBench.Drivers.DotnetHarness
open DeltaForgeBench.Base DeltaForgeBench.Base.Text DeltaForgeBench.Base.Interrupt
open DeltaForgeBench.Drivers DeltaForgeBench.Drivers.WarmMedian
open DeltaForgeBench.Drivers.DotnetPaths

/-! ## `Main` -/

inductive Mode
  | odbcReader | adbcArrow | both
  deriving DecidableEq, Repr

/-- The settings `Main` reads. -/
structure Settings where
  mode : Mode
  warmups : Int
  iters : Int
  sql : Str
  config : Config

/-- An `int` wraps around. -/
def Settings.total (s : Settings) : Nat := ((s.warmups + s.iters).bmod (2 ^ 32)).toNat

/-- What `RunIter` returns to its caller. -/
def returned {γ ο : Type} (run : Except Halt Unit × World γ ο) : Except Halt Dotnet.PhaseTimings :=
  run.1.map fun _ => run.2.p

/-- `RunDriver`. -/
def runDriver (name : Str) (s : Settings) (iter : Nat → Except Halt Dotnet.PhaseTimings)
    (results : List Dotnet.DriverResult) : Except Halt (List Dotnet.DriverResult) := do
  let iters ← (List.range s.total).mapM iter
  let r : Dotnet.DriverResult := { driver := name, sql := s.sql, iters := iters }
  return results ++ [Dotnet.computeWarmMedian r s.warmups]

def odbcReader : Str := "odbc-reader".toList
def adbcArrow : Str := "adbc-arrow".toList

section Main
variable (s : Settings) (odbc : Nat → OdbcPath.Driver) (adbc : Nat → AdbcPath.Driver)

def odbcRun (i : Nat) : Except Halt Unit × World OdbcPath.Call OdbcPath.Obj :=
  OdbcPath.runIter (odbc i) s.config s.sql {}

def adbcRun (i : Nat) : Except Halt Unit × World AdbcPath.Call AdbcPath.Obj :=
  AdbcPath.runIter (adbc i) s.config s.sql {}

/-- `Main`, up to its report. -/
def main : Except Halt (List Dotnet.DriverResult) := do
  let results ← (if s.mode = .odbcReader ∨ s.mode = .both then
    runDriver odbcReader s (fun i => returned (odbcRun s odbc i)) [] else pure [])
  if s.mode = .adbcArrow ∨ s.mode = .both then
    runDriver adbcArrow s (fun i => returned (adbcRun s adbc i)) results
  else return results

end Main

/-! ## One driver -/

section Driver
variable {γ ο : Type} {run : Nat → Except Halt Unit × World γ ο}

theorem returned_ok {w : Except Halt Unit × World γ ο} {p : Dotnet.PhaseTimings} :
    returned w = .ok p ↔ w.1 = .ok () ∧ p = w.2.p := by
  obtain ⟨exit, w⟩ := w
  cases exit with
  | ok u =>
    show Except.ok w.p = .ok p ↔ _
    simp [eq_comm]
  | error h =>
    show Except.error h = .ok p ↔ _
    simp

theorem mapM_returned {l : List Nat} {ps : List Dotnet.PhaseTimings} :
    l.mapM (fun i => returned (run i)) = .ok ps ↔
      (∀ i ∈ l, (run i).1 = .ok ()) ∧ ps = l.map fun i => (run i).2.p := by
  induction l generalizing ps with
  | nil =>
    show Except.ok [] = .ok ps ↔ _
    simp [eq_comm]
  | cons i l ih =>
    rw [List.mapM_cons, List.forall_mem_cons, List.map_cons]
    constructor
    · intro h
      cases hp : returned (run i) with
      | error e => rw [hp] at h; cases h
      | ok p =>
        cases hps : l.mapM fun i => returned (run i) with
        | error e => rw [hp, hps] at h; cases h
        | ok ps' =>
          rw [hp, hps] at h
          obtain rfl := Except.ok.inj h
          obtain ⟨hi, rfl⟩ := returned_ok.mp hp
          obtain ⟨hl, rfl⟩ := ih.mp hps
          exact ⟨⟨hi, hl⟩, rfl⟩
    · rintro ⟨⟨hi, hl⟩, rfl⟩
      rw [returned_ok.mpr ⟨hi, rfl⟩, ih.mpr ⟨hl, rfl⟩]
      rfl

variable {name : Str}

/-- The result of a driver whose iterations all return. -/
def resultOf (name : Str) (s : Settings) (run : Nat → Except Halt Unit × World γ ο) :
    Dotnet.DriverResult :=
  Dotnet.computeWarmMedian
    { driver := name, sql := s.sql, iters := (List.range s.total).map fun i => (run i).2.p } s.warmups

theorem runDriver_ok {before results : List Dotnet.DriverResult} :
    runDriver name s (fun i => returned (run i)) before = .ok results ↔
      (∀ i < s.total, (run i).1 = .ok ()) ∧ results = before ++ [resultOf name s run] := by
  rw [runDriver]
  constructor
  · intro h
    cases hps : (List.range s.total).mapM fun i => returned (run i) with
    | error e => rw [hps] at h; cases h
    | ok ps =>
      rw [hps] at h
      obtain rfl := Except.ok.inj h
      obtain ⟨hall, rfl⟩ := mapM_returned.mp hps
      exact ⟨fun i hi => hall i (List.mem_range.mpr hi), rfl⟩
  · rintro ⟨hall, rfl⟩
    rw [mapM_returned.mpr ⟨fun i hi => hall i (List.mem_range.mp hi), rfl⟩]
    rfl

/-- What one driver adds to the results: a median of what it measured, and of every
iteration either the timings of a full run or the text of a call that failed. -/
structure Covers [DecidableEq ο] (name : Str) (s : Settings)
    (run : Nat → Except Halt Unit × World γ ο) (path : Nat → Path γ ο)
    (full : Nat → Dotnet.PhaseTimings) (r : Dotnet.DriverResult) : Prop where
  driver : r.driver = name
  sql : r.sql = s.sql
  warmupCount : r.warmupCount = s.warmups
  iters : r.iters = (List.range s.total).map fun i => (run i).2.p
  complete : ∀ i < s.total, (run i).2.p.error = none → (run i).2.p = full i
  honest : ∀ i < s.total, ∀ text, (run i).2.p.error = some text →
    ∃ e ∈ (run i).2.trace, (path i).fails e = some text
  counts : (r.measuredCount + r.errorCount : Int) = max 0 (s.total - max 0 s.warmups)
  median : ∀ phase : Dotnet.Phase,
    (Dotnet.bench r).times phase r.iters s.warmups ≠ [] →
      Sorted.median ((Dotnet.bench r).times phase r.iters s.warmups) =
        some (phase.time r.warmMedian)

variable [DecidableEq ο] {path : Nat → Path γ ο} {full : Nat → Dotnet.PhaseTimings}

theorem covers
    (hreported : ∀ i < s.total, ∃ tried cleaned, (run i).2.trace = tried ++ cleaned ∧
      Reported (path i) (full i) tried (run i).2.p)
    (hfull : ∀ i, (full i).error = none) : Covers name s run path full (resultOf name s run) where
  driver := rfl
  sql := rfl
  warmupCount := rfl
  iters := rfl
  complete i hi hnone := by
    obtain ⟨tried, cleaned, -, reported⟩ := hreported i hi
    exact reported.complete hnone
  honest i hi text hsome := by
    obtain ⟨tried, cleaned, htrace, reported⟩ := hreported i hi
    obtain ⟨e, he, hfails⟩ := reported.honest (hfull i) hsome
    exact ⟨e, htrace ▸ List.mem_append_left cleaned he, hfails⟩
  counts := by
    have h := (Dotnet.summarises {}).counts
      ((List.range s.total).map fun i => (run i).2.p) s.warmups
    rw [List.length_map, List.length_range] at h
    exact h
  median _ hne := (Dotnet.summarises {}).median hne

end Driver

/-! ## Both drivers -/

theorem adbc_returns (s : Settings) (drv : AdbcPath.Driver) :
    (AdbcPath.runIter drv s.config s.sql {}).1 = .ok () ∧
      ∃ tried cleaned, (AdbcPath.runIter drv s.config s.sql {}).2.trace = tried ++ cleaned ∧
        Reported (AdbcPath.path drv) (AdbcPath.full drv) tried
          (AdbcPath.runIter drv s.config s.sql {}).2.p := by
  obtain ⟨w, tried, cleaned, hrun, htrace, -, reported, -⟩ := adbcConducted drv s.config s.sql
  rw [hrun]
  exact ⟨rfl, tried, cleaned, htrace, reported⟩

/-- An ODBC iteration returns unless a `Dispose` of its `finally` throws. -/
theorem odbc_returns (s : Settings) (drv : OdbcPath.Driver) :
    ((OdbcPath.runIter drv s.config s.sql {}).1 = .ok () ↔
      ∀ e ∈ (OdbcPath.runIter drv s.config s.sql {}).2.trace,
        Disposal (OdbcPath.path drv) e → e.thrown = none) ∧
      ∃ tried cleaned, (OdbcPath.runIter drv s.config s.sql {}).2.trace = tried ++ cleaned ∧
        Reported (OdbcPath.path drv) (OdbcPath.full drv) tried
          (OdbcPath.runIter drv s.config s.sql {}).2.p := by
  obtain ⟨exit, w, tried, cleaned, hrun, htrace, htried, hcleaned, reported, ended⟩ :=
    odbcConducted drv s.config s.sql
  rw [hrun]
  refine ⟨?_, tried, cleaned, htrace, reported⟩
  show exit = .ok () ↔ ∀ e ∈ w.trace, _
  rw [htrace]
  rcases ended with ⟨rfl, fine, -⟩ | ⟨rfl, before, last, rfl, thrown, -⟩
  · refine iff_of_true rfl fun e he hdisposal => ?_
    rcases List.mem_append.mp he with he | he
    · obtain ⟨o, -, hcall⟩ := hdisposal
      exact absurd hcall (htried e he o)
    · exact fine e he
  · refine iff_of_false (by simp) fun hall => ?_
    have here : last ∈ tried ++ (before ++ [last]) := by simp
    have disposal : Disposal (OdbcPath.path drv) last := hcleaned last (by simp)
    simp [hall last here disposal] at thrown

/-- The results of a driver that was asked for, and none of one that was not. -/
def Asked (asked : Prop) (C : Dotnet.DriverResult → Prop) (rs : List Dotnet.DriverResult) : Prop :=
  (asked ∧ ∃ r, rs = [r] ∧ C r) ∨ (¬ asked ∧ rs = [])

theorem Asked.imp {asked : Prop} {C D : Dotnet.DriverResult → Prop}
    {rs : List Dotnet.DriverResult} (h : Asked asked C rs) (hCD : ∀ r, C r → D r) :
    Asked asked D rs := by
  rcases h with ⟨hasked, r, rfl, hr⟩ | none
  · exact .inl ⟨hasked, r, rfl, hCD r hr⟩
  · exact .inr none

theorem Asked.exists (asked : Prop) (r : Dotnet.DriverResult) : ∃ rs, Asked asked (· = r) rs := by
  by_cases hasked : asked
  · exact ⟨[r], .inl ⟨hasked, r, rfl, rfl⟩⟩
  · exact ⟨[], .inr ⟨hasked, rfl⟩⟩

section Main
variable (s : Settings) (odbc : Nat → OdbcPath.Driver) (adbc : Nat → AdbcPath.Driver)

/-- No `Dispose` of the `finally` of an ODBC iteration throws. -/
def Contained : Prop :=
  ∀ i < s.total, ∀ e ∈ (odbcRun s odbc i).2.trace, Disposal (OdbcPath.path (odbc i)) e →
    e.thrown = none

variable {s odbc adbc} {before results : List Dotnet.DriverResult}

theorem runOdbc_ok :
    runDriver odbcReader s (fun i => returned (odbcRun s odbc i)) before = .ok results ↔
      Contained s odbc ∧ results = before ++ [resultOf odbcReader s (odbcRun s odbc)] := by
  rw [runDriver_ok, Contained]
  refine and_congr_left' (forall_congr' fun i => forall_congr' fun _ => ?_)
  exact (odbc_returns s (odbc i)).1

theorem runAdbc_ok :
    runDriver adbcArrow s (fun i => returned (adbcRun s adbc i)) before = .ok results ↔
      results = before ++ [resultOf adbcArrow s (adbcRun s adbc)] := by
  rw [runDriver_ok]
  exact and_iff_right fun i _ => (adbc_returns s (adbc i)).1

/-- `Main` runs what the mode asks for, one driver behind the other. -/
theorem main_ok :
    main s odbc adbc = .ok results ↔
      (s.mode = .odbcReader ∨ s.mode = .both → Contained s odbc) ∧
        ∃ odbcs adbcs, results = odbcs ++ adbcs ∧
          Asked (s.mode = .odbcReader ∨ s.mode = .both)
            (· = resultOf odbcReader s (odbcRun s odbc)) odbcs ∧
          Asked (s.mode = .adbcArrow ∨ s.mode = .both)
            (· = resultOf adbcArrow s (adbcRun s adbc)) adbcs := by
  have second : ∀ first : List Dotnet.DriverResult,
      (if s.mode = .adbcArrow ∨ s.mode = .both then
        runDriver adbcArrow s (fun i => returned (adbcRun s adbc i)) first
      else pure first) = .ok results ↔ ∃ adbcs, results = first ++ adbcs ∧
        Asked (s.mode = .adbcArrow ∨ s.mode = .both)
          (· = resultOf adbcArrow s (adbcRun s adbc)) adbcs := by
    intro first
    by_cases hmode : s.mode = .adbcArrow ∨ s.mode = .both
    · rw [if_pos hmode, runAdbc_ok]
      simp [Asked, hmode]
    · rw [if_neg hmode]
      show Except.ok first = .ok results ↔ _
      rw [Except.ok.injEq, eq_comm]
      simp [Asked, hmode]
  rw [main]
  by_cases hmode : s.mode = .odbcReader ∨ s.mode = .both
  · rw [if_pos hmode]
    constructor
    · intro h
      cases hfirst : runDriver odbcReader s (fun i => returned (odbcRun s odbc i)) [] with
      | error e => rw [hfirst] at h; cases h
      | ok first =>
        rw [hfirst] at h
        obtain ⟨contained, rfl⟩ := runOdbc_ok.mp hfirst
        obtain ⟨adbcs, rfl, hadbcs⟩ := (second _).mp h
        exact ⟨fun _ => contained, _, adbcs, rfl, .inl ⟨hmode, _, rfl, rfl⟩, hadbcs⟩
    · rintro ⟨contained, odbcs, adbcs, rfl, ⟨-, _, rfl, rfl⟩ | ⟨hnot, -⟩, hadbcs⟩
      · rw [runOdbc_ok.mpr ⟨contained hmode, rfl⟩]
        exact (second _).mpr ⟨adbcs, rfl, hadbcs⟩
      · exact absurd hmode hnot
  · rw [if_neg hmode]
    show (if _ then _ else _) = _ ↔ _
    rw [second]
    simp [Asked, hmode]

/-- **The bench reports unless a `Dispose` of an ODBC `finally` throws**, whatever
else the drivers throw. Its report has the drivers asked for, in order, each
covering all its iterations. -/
theorem harness_reports (s : Settings) (odbc : Nat → OdbcPath.Driver)
    (adbc : Nat → AdbcPath.Driver) :
    ((∃ results, main s odbc adbc = .ok results) ↔ (s.mode ≠ .adbcArrow → Contained s odbc)) ∧
      ∀ results, main s odbc adbc = .ok results → ∃ odbcs adbcs, results = odbcs ++ adbcs ∧
        Asked (s.mode ≠ .adbcArrow) (Covers odbcReader s (odbcRun s odbc)
          (fun i => OdbcPath.path (odbc i)) fun i => OdbcPath.full (odbc i)) odbcs ∧
        Asked (s.mode ≠ .odbcReader) (Covers adbcArrow s (adbcRun s adbc)
          (fun i => AdbcPath.path (adbc i)) fun i => AdbcPath.full (adbc i)) adbcs := by
  have asksOdbc : s.mode = .odbcReader ∨ s.mode = .both ↔ s.mode ≠ .adbcArrow := by
    cases s.mode <;> simp
  have asksAdbc : s.mode = .adbcArrow ∨ s.mode = .both ↔ s.mode ≠ .odbcReader := by
    cases s.mode <;> simp
  have coversOdbc : Covers odbcReader s (odbcRun s odbc) (fun i => OdbcPath.path (odbc i))
      (fun i => OdbcPath.full (odbc i)) (resultOf odbcReader s (odbcRun s odbc)) :=
    covers (fun i _ => (odbc_returns s (odbc i)).2) fun i => rfl
  have coversAdbc : Covers adbcArrow s (adbcRun s adbc) (fun i => AdbcPath.path (adbc i))
      (fun i => AdbcPath.full (adbc i)) (resultOf adbcArrow s (adbcRun s adbc)) :=
    covers (fun i _ => (adbc_returns s (adbc i)).2) fun i => rfl
  simp only [main_ok, asksOdbc, asksAdbc]
  refine ⟨⟨fun ⟨_, contained, _⟩ => contained, fun contained => ?_⟩, ?_⟩
  · obtain ⟨odbcs, hodbcs⟩ := Asked.exists (s.mode ≠ .adbcArrow) (resultOf odbcReader s (odbcRun s odbc))
    obtain ⟨adbcs, hadbcs⟩ := Asked.exists (s.mode ≠ .odbcReader) (resultOf adbcArrow s (adbcRun s adbc))
    exact ⟨_, contained, odbcs, adbcs, rfl, hodbcs, hadbcs⟩
  · rintro results ⟨-, odbcs, adbcs, rfl, hodbcs, hadbcs⟩
    exact ⟨odbcs, adbcs, rfl, hodbcs.imp (fun _ h => h ▸ coversOdbc),
      hadbcs.imp (fun _ h => h ▸ coversAdbc)⟩

end Main

end DeltaForgeBench.Drivers.DotnetHarness
