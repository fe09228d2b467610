import DeltaForgeBench.Base.Sorted
import DeltaForgeBench.Reports.BuildPublished
import DeltaForgeBench.Workloads.GraphSteps

/-! # The report of the graph workload

The records of one engine, sorted into cells by the algorithm, the size and the
device that a step's id names, and the two tables that show from which size on
the second device is faster. Times are exact numbers. -/
namespace DeltaForgeBench.Reports.GraphReport
open DeltaForgeBench.Base DeltaForgeBench.Base.Text DeltaForgeBench.Base.Numeral
open DeltaForgeBench.Engines.Base DeltaForgeBench.Reports.BuildPublished
open DeltaForgeBench.Workloads.GraphSteps

/-! ## `load_df_records` -/

/-- A line of `df.jsonl`, as `.get` reads it. -/
structure GraphRecord extends RawRecord where
  extra : Option (List (Str × Metric))

/-- An algorithm, a size in millions and a device. -/
abbrev Cell := Str × Nat × Device

def algorithmMs : Str := "cypher.algorithm.algorithm_ms".toList

def gpuComputeMs : Str := "cypher.gpu.compute_ms".toList

/-- `_PHASE_KEYS`. -/
def phaseKeys : List Str :=
  ["time.total_engine_time_ms".toList, algorithmMs, "cypher.gpu.gpu_wall_ms".toList, gpuComputeMs,
   "cypher.gpu.transfer_to_gpu_ms".toList, "cypher.gpu.transfer_from_gpu_ms".toList,
   "cypher.csr.load_ms".toList]

/-- `_num`. -/
def num? : Option Metric → Option ℚ
  | none => none
  | some (.num x) => some x
  | some (.text s) => decimal? (s.filter (· ≠ ','))

/-- What the loop collects. -/
structure Runs where
  warmRuns : List (Cell × List ℚ) := []
  coldRuns : List (Cell × ℚ) := []
  sizes : List Nat := []
  phaseRuns : List (Cell × List (Str × List ℚ)) := []

/-- `sizes.add(m)`. -/
def addSize (sizes : List Nat) (m : Nat) : List Nat := if m ∈ sizes then sizes else sizes ++ [m]

/-- `phase_runs[cell][pk].append(pv)`. -/
def appendPhase (d : List (Cell × List (Str × List ℚ))) (cell : Cell) (pk : Str) (pv : ℚ) :
    List (Cell × List (Str × List ℚ)) :=
  Dict.set d cell (Dict.append ((Dict.get? d cell).getD []) pk pv)

def addPhase (cell : Cell) (extra : List (Str × Metric)) (d : List (Cell × List (Str × List ℚ)))
    (pk : Str) : List (Cell × List (Str × List ℚ)) :=
  match num? (Dict.get? extra pk) with
  | some pv => appendPhase d cell pk pv
  | none => d

/-- One line of the file. -/
def visit (s : Runs) (r : GraphRecord) : Runs :=
  match stepRe r.sid with
  | none => s
  | some cell =>
    if r.error.isSome then s
    else
      match r.engineReportedMs.or r.wallMs with
      | none => s
      | some ms =>
        let s := { s with sizes := addSize s.sizes cell.2.1 }
        if r.cold then { s with coldRuns := Dict.set s.coldRuns cell ms }
        else
          { s with
            warmRuns := Dict.append s.warmRuns cell ms
            phaseRuns := phaseKeys.foldl (addPhase cell (r.extra.getD [])) s.phaseRuns }

structure Loaded where
  warm : List (Cell × ℚ)
  cold : List (Cell × ℚ)
  sizes : List Nat
  phases : List (Cell × List (Str × ℚ))

/-- `load_df_records`. -/
def loadDfRecords (lines : List GraphRecord) : Loaded :=
  let s := lines.foldl visit {}
  { warm := Dict.mapValues Sorted.median s.warmRuns
    cold := s.coldRuns
    sizes := s.sizes
    phases := s.phaseRuns.map fun d => (d.1, Dict.mapValues Sorted.median d.2) }

/-! ## The tables -/

/-- `fmt_speedup`. -/
def fmtSpeedup (cpu gpu : Option ℚ) : Str :=
  match cpu, gpu with
  | some cpu, some gpu => if gpu ≤ 0 then "-".toList else fixed false 2 (cpu / gpu) ++ "x".toList
  | _, _ => "-".toList

/-- `f"{m}M"`. -/
def sizeText (m : Nat) : Str := m.repr.toList ++ ['M']

/-- The condition of the two loops over the sizes. -/
def overtakes (cpu gpu : Option ℚ) : Bool :=
  match cpu, gpu with
  | some cpu, some gpu => 0 < gpu ∧ 1 ≤ cpu / gpu
  | _, _ => false

def never : Str := "never (in range)".toList

/-- One size of the loop: the cells so far and the entry `crossover`. -/
def crossoverStep (cpu gpu : Nat → Option ℚ) (s : List Str × Str) (m : Nat) : List Str × Str :=
  (s.1 ++ [fmtSpeedup (cpu m) (gpu m)],
   if overtakes (cpu m) (gpu m) then if s.2 = never then sizeText m else s.2 else s.2)

/-- `KLASS_LABEL.get(klass, klass)`. -/
def klassLabel (klass : Str) : Str :=
  if klass = "memory_bound".toList then "memory-bound".toList
  else if klass = "compute_bound".toList then "compute-bound".toList
  else klass

/-- A row of either table. -/
def crossoverRow (cpu gpu : Nat → Option ℚ) (sizes : List Nat) (a : Algo) : List Str :=
  let s := sizes.foldl (crossoverStep cpu gpu) ([], never)
  [a.label, klassLabel a.klass] ++ s.1 ++ [s.2]

/-- `render_table`. -/
def renderTable (rows : List (List Str)) (header align : List Str) : Str :=
  let line (cells : List Str) : Str := "| ".toList ++ join " | ".toList cells ++ " |".toList
  join ['\n'] (line header :: line align :: rows.map line)

def header (sizes : List Nat) (last : Str) : List Str :=
  ["algorithm".toList, "class".toList] ++ sizes.map sizeText ++ [last]

def align (sizes : List Nat) : List Str :=
  ["---".toList, "---".toList] ++ sizes.map (fun _ => "---:".toList) ++ ["---:".toList]

/-- `warm.get((algo, m, dev))`. -/
def warmAt (warm : List (Cell × ℚ)) (a : Algo) (dev : Device) (m : Nat) : Option ℚ :=
  Dict.get? warm (a.key, m, dev)

/-- `phases.get((algo, m, dev), {}).get(pk)`. -/
def phaseAt (phases : List (Cell × List (Str × ℚ))) (a : Algo) (dev : Device) (pk : Str) (m : Nat) :
    Option ℚ :=
  Dict.get? ((Dict.get? phases (a.key, m, dev)).getD []) pk

/-- The row of an algorithm in `crossover_section`. -/
def warmRow (warm : List (Cell × ℚ)) (sizes : List Nat) (a : Algo) : List Str :=
  crossoverRow (warmAt warm a .cpu) (warmAt warm a .gpu) sizes a

/-- The row of an algorithm in `compute_crossover_section`. -/
def computeRow (phases : List (Cell × List (Str × ℚ))) (sizes : List Nat) (a : Algo) : List Str :=
  crossoverRow (phaseAt phases a .cpu algorithmMs) (phaseAt phases a .gpu gpuComputeMs) sizes a

/-- `crossover_section`. -/
def crossoverSection (warm : List (Cell × ℚ)) (sizes : List Nat) : Str :=
  renderTable (algos.map (warmRow warm sizes)) (header sizes "GPU wins from".toList) (align sizes)

/-- `compute_crossover_section`. -/
def computeCrossoverSection (phases : List (Cell × List (Str × ℚ))) (sizes : List Nat) : Str :=
  renderTable (algos.map (computeRow phases sizes)) (header sizes "compute wins from".toList)
    (align sizes)

/-- The sizes that `render_md` hands to the tables. -/
def sizesOf (l : Loaded) : List Nat := Sorted.sorted l.sizes

end DeltaForgeBench.Reports.GraphReport
