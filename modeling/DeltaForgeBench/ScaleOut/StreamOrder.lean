import DeltaForgeBench.Base.Tables
import DeltaForgeBench.Runner.Parent
import DeltaForgeBench.Runner.DataHash
import DeltaForgeBench.Runner.Selection
import DeltaForgeBench.ScaleOut.Discovery
import DeltaForgeBench.ScaleOut.QueryTimings
import DeltaForgeBench.Workloads.ReadDelta

/-! # The order of the queries in a stream

Each stream shuffles the query files with a seed of its own, so that no two
streams go through the dataset alike. The runner measures every file once, and
the aggregator reads the times by query: what the seeds are cannot be seen in the
curve. -/
namespace DeltaForgeBench.ScaleOut.StreamOrder
open DeltaForgeBench.Base.Text DeltaForgeBench.Base.Dict DeltaForgeBench.Base.Tables
open DeltaForgeBench.Base.CommandLine DeltaForgeBench.Engines.Base
open DeltaForgeBench.Workloads.DfCatalog DeltaForgeBench.Workloads.Spec
open DeltaForgeBench.Workloads.ReadDelta
open DeltaForgeBench.Runner.RunWorkload DeltaForgeBench.Runner.Schedule
open DeltaForgeBench.Runner.PartialFiles DeltaForgeBench.Runner.Selection
open DeltaForgeBench.Runner.Parent (oneResult)
open DeltaForgeBench.Runner.DataHash (latin)
open DeltaForgeBench.ScaleOut.Aggregate DeltaForgeBench.ScaleOut.QueryTimings
open DeltaForgeBench.ScaleOut.Curve DeltaForgeBench.ScaleOut.Orchestrate
open DeltaForgeBench.ScaleOut.Matrix DeltaForgeBench.ScaleOut.Discovery

/-! ## The streams -/

/-- `random.Random(seed).shuffle`, which reorders its argument. -/
structure Shuffle where
  shuffled : Int → List QueryFile → List QueryFile
  perm : ∀ seed files, (shuffled seed files).Perm files

/-- `_query_paths_in_stream_order`, by `DF_BENCH_STREAM_SEED`. -/
def queryPathsInStreamOrder (S : Shuffle) (files : List QueryFile) (seed : Option Str) :
    Option (List QueryFile) :=
  let paths := files.insertionSort fun a b => a.stem ++ ".sql".toList ≤ b.stem ++ ".sql".toList
  match seed with
  | none => some paths
  | some text => (int? text).map fun n => S.shuffled n paths

/-- What `run_stream` gives to the runner. -/
def streamArgs (scale : Int) (engines resultsDir tag : Str) : Args where
  scale := scale
  engines := some engines
  workloads := some "tpcds_read_delta".toList
  resultsDir := resultsDir
  tag := some tag
  noPurge := true
  coldRuns := some 0
  warmRuns := some 1

/-- A stream that went through the whole schedule of its order. -/
structure StreamRun (S : Shuffle) (letters : Letters) (files : List QueryFile) where
  level : Int
  seed : Option Str
  paths : List QueryFile
  ordered : queryPathsInStreamOrder S files seed = some paths
  args : Args
  called : ∃ scale engines resultsDir tag, args = streamArgs scale engines resultsDir tag
  job : Job
  scheduled : job.workload = args.override (tpcds.workload letters paths)
  runs : List Run
  ran : runs.map Run.slot = schedule job

variable {S : Shuffle} {letters : Letters} {files : List QueryFile}

/-- The record file of a stream as the aggregator reads it. -/
def StreamRun.lines (s : StreamRun S letters files) : Lines :=
  s.runs.map fun r => some (timingOf (r.record s.job))

/-- Two streams of one level that took the same time for the same query. -/
structure Alike (a b : StreamRun S letters files) : Prop where
  level : a.level = b.level
  times : ∀ r ∈ a.runs, ∀ r' ∈ b.runs, r.step.id = r'.step.id →
    r.result.wallMs = r'.result.wallMs ∧ r.result.exitCode = r'.result.exitCode

/-! ## A file is read by its queries -/

/-- The query of a line. -/
def stepOf (line : Option TimingRecord) : Option Str := line.bind (·.stepId)

theorem stepOf_of_success {q : Str} {cold : Bool} {line : Option TimingRecord}
    (h : (successMs q cold line).isSome) : stepOf line = some q := by
  cases line with
  | none => cases h
  | some r =>
    by_cases hr : r.isQuery = true ∧ r.stepId = some q ∧ r.ok = true ∧ r.cold = cold
    · exact hr.2.1
    · simp [successMs, hr] at h

theorem successes_le_one {lines : Lines} (h : UniqueKey stepOf lines) (q : Str) (cold : Bool) :
    (lines.filterMap (successMs q cold)).length ≤ 1 := by
  rw [List.length_filterMap_eq_countP]
  calc lines.countP (fun line => (successMs q cold line).isSome)
      ≤ lines.countP (fun line => stepOf line == some q) :=
        List.countP_mono_left fun line _ hline => beq_iff_eq.mpr (stepOf_of_success hline)
    _ = (lines.map stepOf).count (some q) := by
        rw [List.count, List.countP_map]
        rfl
    _ ≤ 1 := List.nodup_iff_count_le_one.mp h (some q)

theorem eq_of_perm_short {α : Type*} {l l' : List α} (h : l.Perm l') (hlen : l.length ≤ 1) :
    l = l' := by
  match l, hlen with
  | [], _ => exact h.symm.eq_nil.symm
  | [a], _ => exact (List.singleton_perm.mp h)

/-- Two orders of the same lines, with one line for a query, are read alike. -/
theorem selected_perm {lines lines' : Lines} (hnd : UniqueKey stepOf lines) (h : lines.Perm lines')
    (q : Str) : selected q lines = selected q lines' := by
  have hsame : ∀ cold, lines.filterMap (successMs q cold) = lines'.filterMap (successMs q cold) :=
    fun cold => eq_of_perm_short (h.filterMap _) (successes_le_one hnd q cold)
  rw [selected, selected, hsame, hsame]

theorem loaded_perm {lines lines' : Lines} (h : lines.Perm lines') :
    (loadQueryTimings lines).isSome ↔ (loadQueryTimings lines').isSome := by
  rw [loadQueryTimings_isSome, loadQueryTimings_isSome]
  exact ⟨fun hr l hl => hr l (h.mem_iff.mpr hl), fun hr l hl => hr l (h.mem_iff.mp hl)⟩

theorem contribution_perm {lines lines' : Lines} (hnd : UniqueKey stepOf lines)
    (h : lines.Perm lines') (levels : List Int) (q : Str) (n m : Int) :
    contribution levels q n (m, lines) = contribution levels q n (m, lines') := by
  have hload := loaded_perm h
  unfold contribution
  cases hl : loadQueryTimings lines with
  | none =>
    cases hl' : loadQueryTimings lines' with
    | none => simp
    | some timings' => simp [hl, hl'] at hload
  | some timings =>
    cases hl' : loadQueryTimings lines' with
    | none => simp [hl, hl'] at hload
    | some timings' =>
      simp only [Option.bind_some, get?_loadQueryTimings hl, get?_loadQueryTimings hl',
        selected_perm hnd h]

/-! ## Every stream measures every query once -/

theorem paths_perm {seed : Option Str} {paths : List QueryFile}
    (h : queryPathsInStreamOrder S files seed = some paths) : paths.Perm files := by
  have hsort := List.perm_insertionSort
    (fun a b : QueryFile => a.stem ++ ".sql".toList ≤ b.stem ++ ".sql".toList) files
  cases seed with
  | none => exact Option.some.inj h ▸ hsort
  | some text =>
    obtain ⟨n, -, rfl⟩ := Option.map_eq_some_iff.mp h
    exact (S.perm n _).trans hsort

theorem StreamRun.coldRuns (s : StreamRun S letters files) : s.job.workload.coldRuns = 0 := by
  obtain ⟨scale, engines, resultsDir, tag, hargs⟩ := s.called
  rw [s.scheduled, hargs]
  rfl

theorem StreamRun.schedule_eq (s : StreamRun S letters files) :
    schedule s.job = (tpcds.loadQuerySteps letters s.paths).map fun step => (step, 0) := by
  obtain ⟨scale, engines, resultsDir, tag, hargs⟩ := s.called
  have hruns : s.job.runs = [0] := by
    rw [Job.runs, s.scheduled, hargs]
    rfl
  have hsteps : s.job.workload.measuredSteps = tpcds.loadQuerySteps letters s.paths := by
    rw [s.scheduled, hargs]
    rfl
  rw [schedule, hruns, hsteps]
  exact List.map_eq_flatMap.symm

/-- The queries of a stream, in the order it measured them. -/
theorem StreamRun.steps (s : StreamRun S letters files) :
    s.runs.map (fun r => r.step.id) = s.paths.map (·.stem) := by
  have hslots : s.runs.map (fun r => r.step.id) = (s.runs.map Run.slot).map fun slot => slot.1.id := by
    rw [List.map_map]
    rfl
  rw [hslots, s.ran, s.schedule_eq, List.map_map, Benchmark.loadQuerySteps, List.map_map]
  rfl

theorem StreamRun.kinds (s : StreamRun S letters files) :
    ∀ r ∈ s.runs, r.runIdx = 0 ∧ r.step.kind = .sqlQuery := by
  intro r hr
  have hslot : r.slot ∈ schedule s.job := s.ran ▸ List.mem_map_of_mem hr
  rw [s.schedule_eq] at hslot
  obtain ⟨step, hstep, heq⟩ := List.mem_map.mp hslot
  obtain ⟨file, -, rfl⟩ := List.mem_map.mp hstep
  obtain ⟨hr, hidx⟩ := Prod.mk.inj heq
  exact ⟨hidx.symm, hr ▸ rfl⟩

/-- What the aggregator reads of a run. -/
theorem StreamRun.line (s : StreamRun S letters files) {r : Run} (hr : r ∈ s.runs) :
    timingOf (r.record s.job) =
      ⟨some "sql_query".toList, some r.step.id, some r.result.exitCode, some r.result.wallMs, false⟩ := by
  obtain ⟨hidx, hkind⟩ := s.kinds r hr
  have hcold : (r.record s.job).cold = false := by
    cases hc : (r.record s.job).cold with
    | false => rfl
    | true =>
      have := (record_cold_iff r).mp hc
      rw [s.coldRuns] at this
      exact absurd this (Nat.not_lt_zero _)
  have htext : (r.record s.job).stepKind = .sqlQuery := hkind
  rw [timingOf, hcold, htext]
  rfl

theorem StreamRun.uniqueLines (s : StreamRun S letters files) (hnd : (files.map (·.stem)).Nodup) :
    UniqueKey stepOf s.lines := by
  have hkeys : s.lines.map stepOf = (s.paths.map (·.stem)).map some := by
    rw [← s.steps, StreamRun.lines, List.map_map, List.map_map]
    rfl
  rw [UniqueKey, hkeys]
  exact ((((paths_perm s.ordered).map _).nodup_iff).mpr hnd).map (Option.some_injective _)

theorem Alike.lines_perm {a b : StreamRun S letters files} (h : Alike a b)
    (hnd : (files.map (·.stem)).Nodup) : a.lines.Perm b.lines := by
  have half : ∀ {a b : StreamRun S letters files}, (∀ r ∈ a.runs, ∀ r' ∈ b.runs,
      r.step.id = r'.step.id →
        r.result.wallMs = r'.result.wallMs ∧ r.result.exitCode = r'.result.exitCode) →
      ∀ line ∈ a.lines, line ∈ b.lines := by
    intro a b times line hline
    obtain ⟨r, hr, rfl⟩ := List.mem_map.mp hline
    have hstem : r.step.id ∈ b.runs.map (fun r => r.step.id) := by
      have hmem : r.step.id ∈ a.runs.map (fun r => r.step.id) := List.mem_map_of_mem hr
      rw [StreamRun.steps] at hmem ⊢
      exact ((((paths_perm a.ordered).trans (paths_perm b.ordered).symm).map _).mem_iff).mp hmem
    obtain ⟨r', hr', hid⟩ := List.mem_map.mp hstem
    obtain ⟨hwall, hexit⟩ := times r hr r' hr' hid.symm
    refine List.mem_map.mpr ⟨r', hr', ?_⟩
    rw [a.line hr, b.line hr', hid, hwall, hexit]
  refine (List.perm_ext_iff_of_nodup (List.Nodup.of_map stepOf (a.uniqueLines hnd))
    (List.Nodup.of_map stepOf (b.uniqueLines hnd))).mpr fun line => ⟨half h.times line, ?_⟩
  exact half (fun r hr r' hr' hid => by
    obtain ⟨hwall, hexit⟩ := h.times r' hr' r hr hid.symm
    exact ⟨hwall.symm, hexit.symm⟩) line

/-! ## The curve -/

/-- What a stream leaves at its level. -/
def StreamRun.leaves (s : StreamRun S letters files) : Int × Lines := (s.level, s.lines)

theorem allRead_leaves {streams : List (Int × Lines)} {runs : List (StreamRun S letters files)}
    (h : streams.Perm (runs.map StreamRun.leaves)) (levels : List Int) : AllRead streams levels := by
  intro s hs _
  obtain ⟨run, -, rfl⟩ := List.mem_map.mp (h.mem_iff.mp hs)
  refine loadQueryTimings_isSome.mpr fun line hline => ?_
  obtain ⟨r, -, rfl⟩ := List.mem_map.mp hline
  exact readable_timingOf _

/-- **The curve does not show the seeds**: two matrices whose streams took the
same time for each query give the same curve, in whatever order each stream went
through the queries. -/
theorem curve_of_times (S : Shuffle) (letters : Letters) (files : List QueryFile)
    (hnd : (files.map (·.stem)).Nodup) (m m' : Matrix)
    (pairs : List (StreamRun S letters files × StreamRun S letters files))
    (halike : ∀ p ∈ pairs, Alike p.1 p.2)
    (hm : (m.state.processes.filterMap left).Perm ((pairs.map Prod.fst).map StreamRun.leaves))
    (hm' : (m'.state.processes.filterMap left).Perm ((pairs.map Prod.snd).map StreamRun.leaves))
    (asked : List Int) : m.curve asked = m'.curve asked := by
  have found := (discovered m.stamp m.distinct m.fresh m.reached).trans hm
  have found' := (discovered m'.stamp m'.distinct m'.fresh m'.reached).trans hm'
  refine main_congr asked (fun levels => iff_of_true (allRead_leaves found levels)
    (allRead_leaves found' levels)) fun levels q n => ?_
  refine (found.filterMap _).trans (List.Perm.trans (List.Perm.of_eq ?_) (found'.filterMap _).symm)
  rw [List.map_map, List.map_map, List.filterMap_map, List.filterMap_map]
  refine List.filterMap_congr fun p hp => ?_
  have hpair := halike p hp
  show contribution levels q n (p.1.level, p.1.lines) = contribution levels q n (p.2.level, p.2.lines)
  rw [hpair.level]
  exact contribution_perm (p.1.uniqueLines hnd) (hpair.lines_perm hnd) levels q n _

/-! ## Two orders of two queries -/

def twoFiles : List QueryFile :=
  [⟨"q02".toList, "select 2".toList⟩, ⟨"q01".toList, "select 1".toList⟩]

/-- A shuffle of two files: the seeds 0 and 5 leave them, the seeds from 1 to 4 swap them. -/
def swapOrNot (seed : Int) (files : List QueryFile) : List QueryFile :=
  if seed = 0 ∨ seed = 5 then files else files.reverse

theorem swapOrNot_perm (seed : Int) (files : List QueryFile) :
    (swapOrNot seed files).Perm files := by
  unfold swapOrNot
  split
  · exact .refl _
  · exact files.reverse_perm

def pairShuffle : Shuffle := ⟨swapOrNot, swapOrNot_perm⟩

/-- A warm run of a step that took so long. -/
def ranFor (ms : Str → ℚ) (step : WorkloadStep) : Run where
  step := step
  runIdx := 0
  purge := none
  result := { oneResult with stepId := step.id, wallMs := ms step.id }
  timestamp := []

def dfArgs : Args := streamArgs 1 "df".toList "/results".toList stamp

/-- A stream by its order, and by the time its queries take. -/
def streamRun (level : Int) (seed : Option Str) (paths : List QueryFile)
    (ordered : queryPathsInStreamOrder pairShuffle twoFiles seed = some paths) (ms : Str → ℚ) :
    StreamRun pairShuffle latin twoFiles where
  level := level
  seed := seed
  paths := paths
  ordered := ordered
  args := dfArgs
  called := ⟨1, "df".toList, "/results".toList, stamp, rfl⟩
  job := ⟨"df".toList, dfArgs.override (tpcds.workload latin paths), [], 1⟩
  scheduled := rfl
  runs := (tpcds.loadQuerySteps latin paths).map (ranFor ms)
  ran := by
    rw [List.map_map]
    exact List.map_eq_flatMap

theorem ordered_none : queryPathsInStreamOrder pairShuffle twoFiles none = some twoFiles.reverse := rfl

theorem ordered_one :
    queryPathsInStreamOrder pairShuffle twoFiles (some "1".toList) = some twoFiles := rfl

theorem ordered_two :
    queryPathsInStreamOrder pairShuffle twoFiles (some "2".toList) = some twoFiles := rfl

def msAlone (q : Str) : ℚ := if q = "q01".toList then 100 else 200

def msFirst (q : Str) : ℚ := if q = "q01".toList then 110 else 220

def msSecond (q : Str) : ℚ := if q = "q01".toList then 120 else 210

/-- Every stream with its own seed, and the same streams without seeds. -/
def seededAndNot :
    List (StreamRun pairShuffle latin twoFiles × StreamRun pairShuffle latin twoFiles) :=
  [(streamRun 1 _ _ ordered_one msAlone, streamRun 1 _ _ ordered_none msAlone),
   (streamRun 2 _ _ ordered_one msFirst, streamRun 2 _ _ ordered_none msFirst),
   (streamRun 2 _ _ ordered_two msSecond, streamRun 2 _ _ ordered_none msSecond)]

theorem alike_streamRun (level : Int) {seed seed' : Option Str} {paths paths' : List QueryFile}
    (h : queryPathsInStreamOrder pairShuffle twoFiles seed = some paths)
    (h' : queryPathsInStreamOrder pairShuffle twoFiles seed' = some paths') (ms : Str → ℚ) :
    Alike (streamRun level seed paths h ms) (streamRun level seed' paths' h' ms) := by
  refine ⟨rfl, fun r hr r' hr' hid => ?_⟩
  obtain ⟨step, -, rfl⟩ := List.mem_map.mp hr
  obtain ⟨step', -, rfl⟩ := List.mem_map.mp hr'
  exact ⟨congrArg ms hid, rfl⟩

/-- The three streams in turn, each writing what it is given. -/
def writing (a b c : Lines) : List Orchestrate.Event :=
  List.flatten
    [[.script, .script, .opened 0], a.map (.recorded 0),
     [.exited 0 0, .script, .script, .script, .script, .script, .script, .opened 1, .opened 2],
     b.map (.recorded 1), c.map (.recorded 2),
     [.exited 1 0, .exited 2 0, .script, .script, .script, .script]]

def query (q : String) (wallMs : ℚ) : Option TimingRecord := queryLine q.toList 0 wallMs

def withSeeds : Matrix := onEmptyRoot (writing [query "q02" 200, query "q01" 100]
  [query "q02" 220, query "q01" 110] [query "q02" 210, query "q01" 120])

def withoutSeeds : Matrix := onEmptyRoot (writing [query "q01" 100, query "q02" 200]
  [query "q01" 110, query "q02" 220] [query "q01" 120, query "q02" 210])

theorem withSeeds_left : withSeeds.state.processes.filterMap left =
    [(1, [query "q02" 200, query "q01" 100]), (2, [query "q02" 220, query "q01" 110]),
      (2, [query "q02" 210, query "q01" 120])] := by
  rfl

theorem seeded_leaves : (seededAndNot.map Prod.fst).map StreamRun.leaves =
    [(1, [query "q02" 200, query "q01" 100]), (2, [query "q02" 220, query "q01" 110]),
      (2, [query "q02" 210, query "q01" 120])] := by
  rfl

theorem withoutSeeds_left : withoutSeeds.state.processes.filterMap left =
    [(1, [query "q01" 100, query "q02" 200]), (2, [query "q01" 110, query "q02" 220]),
      (2, [query "q01" 120, query "q02" 210])] := by
  rfl

theorem unseeded_leaves : (seededAndNot.map Prod.snd).map StreamRun.leaves =
    [(1, [query "q01" 100, query "q02" 200]), (2, [query "q01" 110, query "q02" 220]),
      (2, [query "q01" 120, query "q02" 210])] := by
  rfl

theorem curve_of_times_seeded : withSeeds.curve [1, 2] = withoutSeeds.curve [1, 2] := by
  refine curve_of_times pairShuffle latin twoFiles (by simp [twoFiles]) withSeeds withoutSeeds
    seededAndNot ?_ (List.Perm.of_eq (withSeeds_left.trans seeded_leaves.symm))
    (List.Perm.of_eq (withoutSeeds_left.trans unseeded_leaves.symm)) [1, 2]
  intro p hp
  simp only [seededAndNot, List.mem_cons, List.not_mem_nil, or_false] at hp
  rcases hp with rfl | rfl | rfl
  · exact alike_streamRun 1 ordered_one ordered_none msAlone
  · exact alike_streamRun 2 ordered_one ordered_none msFirst
  · exact alike_streamRun 2 ordered_two ordered_none msSecond

end DeltaForgeBench.ScaleOut.StreamOrder
