import DeltaForgeBench.Base.Runs
import DeltaForgeBench.ScaleOut.Summary

/-! # The scale-out matrix

The orchestrator launches the streams of a level in the background, each in a
scope of its own processors, and waits for all of them before it goes on to
the next level. The streams run, write their records and exit in any order. -/
namespace DeltaForgeBench.ScaleOut.Orchestrate
open DeltaForgeBench.Base.Text DeltaForgeBench.Base.Dict DeltaForgeBench.Base.Runs
open DeltaForgeBench.ScaleOut.Aggregate DeltaForgeBench.ScaleOut.Summary

/-- The environment of the script. -/
structure Config where
  nValues : List Int
  nMax : Int
  coresPerWorker : Int
  hostCpus : Int
  skipWarmup : Bool

/-- `allowed_cpus`: the first and the last processor of a stream. -/
def allowedCpus (cfg : Config) (streamId : Nat) : Int × Int :=
  let lo := ((streamId : Int) - 1) * cfg.coresPerWorker
  (lo, lo + cfg.coresPerWorker - 1)

/-! ## The phases -/

/-- A phase of the orchestration: the warm-up pass, or a level of the matrix. -/
structure Batch where
  level : Option Int
  tag : Str

/-- `seq 1 "$n"`; the warm-up launches one stream. -/
def Batch.streamIds (b : Batch) : List Nat := List.range' 1 (b.level.getD 1).toNat

def warmup (warmupTs : Str) : Batch := ⟨none, "warmup_".toList ++ warmupTs⟩

def atLevel (runTs : Str) (n : Int) : Batch :=
  ⟨some n, "scaleout_n".toList ++ intText n ++ ['_'] ++ runTs⟩

/-- The phases of a run, by the timestamps it takes. -/
def batches (cfg : Config) (warmupTs runTs : Str) : List Batch :=
  (if cfg.skipWarmup then [] else [warmup warmupTs]) ++ cfg.nValues.map (atLevel runTs)

/-- What `run_stream` passes to a stream. -/
structure Stream where
  level : Option Int
  streamId : Nat
  cpus : Int × Int
  streamTag : Str
  deriving DecidableEq

def runStream (cfg : Config) (b : Batch) (streamId : Nat) : Stream :=
  ⟨b.level, streamId, allowedCpus cfg streamId, b.tag ++ "_s".toList ++ natText streamId⟩

def Batch.streams (cfg : Config) (b : Batch) : List Stream := b.streamIds.map (runStream cfg b)

/-- A stream's process: the record file it has written, once there is one, and
its exit code, once it has exited. -/
structure Process where
  stream : Stream
  log : Option Lines := none
  exit : Option Nat := none

/-- Where the script is. -/
inductive Control
  | next (rest : List Batch)
  | launching (b : Batch) (ids : List Nat) (rest : List Batch)
  | waiting (b : Batch) (pids : List Nat) (rest : List Batch)
  | warmupFailed

structure State where
  control : Control
  /-- Every process that was started; a process id is its index. -/
  processes : List Process
  streamPids : List Nat
  streamsFailed : Nat
  /-- The level and the number of failed streams of each line. -/
  matrixFailSummary : List (Int × Nat)
  /-- The directories under the results root, with the record files in each. -/
  resultsRoot : List (Str × List Lines)

/-- `mkdir -p`. -/
def mkdirP (disk : List (Str × List Lines)) (name : Str) : List (Str × List Lines) :=
  set disk name ((get? disk name).getD [])

/-! ## What the script does next -/

/-- After `wait_streams`: the warm-up aborts the run on a failure, a level is
noted in the summary. -/
def State.settle (s : State) (b : Batch) (rest : List Batch) : State :=
  match b.level with
  | none => if s.streamsFailed = 0 then { s with control := .next rest }
    else { s with control := .warmupFailed }
  | some n => { s with
      control := .next rest
      matrixFailSummary := if s.streamsFailed > 0 then s.matrixFailSummary ++ [(n, s.streamsFailed)]
        else s.matrixFailSummary }

def State.launch (cfg : Config) (s : State) (b : Batch) (i : Nat) (ids : List Nat)
    (rest : List Batch) : State :=
  let stream := runStream cfg b i
  { s with
    control := .launching b ids rest
    processes := s.processes ++ [⟨stream, none, none⟩]
    streamPids := s.streamPids ++ [s.processes.length]
    resultsRoot := mkdirP s.resultsRoot stream.streamTag }

def State.exitOf (s : State) (pid : Nat) : Option Nat := (s.processes[pid]?).bind (·.exit)

/-- One action of the script; `none` when it has ended, or when `wait` blocks. -/
def State.advance (cfg : Config) (s : State) : Option State :=
  match s.control with
  | .next [] | .warmupFailed => none
  | .next (b :: rest) => some { s with control := .launching b b.streamIds rest, streamPids := [] }
  | .launching b (i :: ids) rest => some (s.launch cfg b i ids rest)
  | .launching b [] rest =>
    some { s with control := .waiting b s.streamPids rest, streamsFailed := 0 }
  | .waiting b [] rest => some (s.settle b rest)
  | .waiting b (pid :: pids) rest => (s.exitOf pid).map fun code => { s with
      control := .waiting b pids rest
      streamsFailed := if code = 0 then s.streamsFailed else s.streamsFailed + 1 }

/-! ## What the streams do meanwhile -/

inductive Event
  | script
  | opened (pid : Nat)
  | recorded (pid : Nat) (line : Option TimingRecord)
  | exited (pid : Nat) (code : Nat)

/-- The last record file of a directory grows by a line. -/
def appendLast (line : Option TimingRecord) : List Lines → List Lines
  | [] => []
  | [file] => [file ++ [line]]
  | file :: more => file :: appendLast line more

/-- A running process changes, and the directory of its stream with it. -/
def State.act (s : State) (pid : Nat) (f : Process → Option Process)
    (write : List Lines → List Lines) : Option State := do
  let p ← s.processes[pid]?
  if p.exit.isSome then none
  else
    let p' ← f p
    return { s with
      processes := s.processes.set pid p'
      resultsRoot := set s.resultsRoot p.stream.streamTag
        (write ((get? s.resultsRoot p.stream.streamTag).getD [])) }

/-- A stream starts its record file once, appends to it, and exits at any time. -/
def State.react (s : State) : Event → Option State
  | .script => none
  | .opened pid => s.act pid
      (fun p => if p.log.isNone then some { p with log := some [] } else none) (· ++ [[]])
  | .recorded pid line => s.act pid
      (fun p => p.log.map fun lines => { p with log := some (lines ++ [line]) }) (appendLast line)
  | .exited pid code => s.act pid (fun p => some { p with exit := some code }) id

def State.after (cfg : Config) (s : State) : Event → Option State
  | .script => s.advance cfg
  | e => s.react e

/-- The matrix: the script and its streams over what the results root held before. -/
def matrix (cfg : Config) (warmupTs runTs : Str) (before : List (Str × List Lines)) :
    System State Event where
  start s := s = ⟨.next (batches cfg warmupTs runTs), [], [], 0, [], before⟩
  step s e s' := s.after cfg e = some s'

/-- The state the events lead to, when each of them can happen. -/
def playFrom (cfg : Config) (s : State) (events : List Event) : Option State :=
  events.foldlM (State.after cfg) s

theorem reachable_of_play {cfg : Config} {warmupTs runTs : Str}
    {before : List (Str × List Lines)} {events : List Event} {s s' : State}
    (h : Reachable (matrix cfg warmupTs runTs before) s) (hplay : playFrom cfg s events = some s') :
    Reachable (matrix cfg warmupTs runTs before) s' := by
  obtain ⟨es, hrun⟩ := h
  exact ⟨_, hrun.play (fun _ _ _ hstep => hstep) hplay⟩

/-- The matrix has been measured: what is left is to aggregate it. -/
def State.Measured (s : State) : Prop := s.control = .next []

end DeltaForgeBench.ScaleOut.Orchestrate
