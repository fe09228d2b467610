import DeltaForgeBench.ScaleOut.Phases

/-! # The streams of a matrix

Streams that run at the same time never share a processor, and all of them
stay on the host; when the matrix has been measured, its summary accounts for
every stream of every level. -/
namespace DeltaForgeBench.ScaleOut.Matrix
open DeltaForgeBench.Base.Text DeltaForgeBench.Base.Runs
open DeltaForgeBench.ScaleOut.Aggregate DeltaForgeBench.ScaleOut.Orchestrate
open DeltaForgeBench.ScaleOut.Phases

section
variable {cfg : Config} {warmupTs runTs : Str} {before : List (Str × List Lines)} {s : State}

/-! ## Isolation -/

/-- `AllowedCPUs` lets the stream on this processor. -/
def Owns (stream : Stream) (cpu : Int) : Prop := stream.cpus.1 ≤ cpu ∧ cpu ≤ stream.cpus.2

/-- The largest level, one stream being the least there is to run. -/
def largestLevel (cfg : Config) : Int := cfg.nValues.foldr max 1

/-- What holds of the processors while streams run side by side. -/
structure Isolated (cfg : Config) (s : State) : Prop where
  disjoint : ∀ (i j : Nat) (p q : Process), i ≠ j → s.processes[i]? = some p → s.processes[j]? = some q →
    p.exit = none → q.exit = none → ∀ cpu, ¬ (Owns p.stream cpu ∧ Owns q.stream cpu)
  onHost : ∀ p ∈ s.processes, ∀ cpu, Owns p.stream cpu → 0 ≤ cpu ∧ cpu < cfg.hostCpus
  capped : ((s.processes.countP (·.exit.isNone) : Nat) : Int) ≤ largestLevel cfg

end

/-- `N_VALUES="1 2"` on a host with eight processors. -/
def twoLevels : Config := ⟨[1, 2], 8, 4, 8, false⟩

/-- The warm-up and the first level have run, and both streams of the second run. -/
def twoRunning : List Event :=
  [.script, .script, .script, .exited 0 0, .script, .script,
   .script, .script, .script, .exited 1 0, .script, .script,
   .script, .script, .script]

def startOf (cfg : Config) (warmupTs runTs : Str) : State :=
  ⟨.next (batches cfg warmupTs runTs), [], [], 0, [], []⟩

/-- The state behind the events; the start, when one of them cannot happen. -/
def played (cfg : Config) (warmupTs runTs : Str) (events : List Event) : State :=
  (playFrom cfg (startOf cfg warmupTs runTs) events).getD (startOf cfg warmupTs runTs)

theorem reachable_played (cfg : Config) (warmupTs runTs : Str) (events : List Event) :
    Reachable (matrix cfg warmupTs runTs []) (played cfg warmupTs runTs events) := by
  have start : Reachable (matrix cfg warmupTs runTs []) (startOf cfg warmupTs runTs) :=
    ⟨[], .start rfl⟩
  unfold played
  cases hplay : playFrom cfg (startOf cfg warmupTs runTs) events with
  | none => exact start
  | some s => exact reachable_of_play start hplay

section
variable {cfg : Config} {warmupTs runTs : Str} {before : List (Str × List Lines)} {s : State}

/-- Each phase launched its streams, all of them have exited, and the summary
has a line for each level with failures, which counts them. -/
structure Accounted (cfg : Config) (warmupTs runTs : Str) (s : State) (phases : List Phase) :
    Prop where
  order : phases.map Prod.fst = batches cfg warmupTs runTs
  processes : s.processes = behind phases
  settled : ∀ ph ∈ phases, Settled cfg ph
  warm : ∀ ph ∈ phases, ph.1.level = none → failures ph.2 = 0
  summary : s.matrixFailSummary = phases.filterMap noted

/-- The run was given up behind the warm-up: no level was launched. -/
structure GivenUp (s : State) : Prop where
  warmOnly : ∀ p ∈ s.processes, p.stream.level = none
  failed : ∃ p ∈ s.processes, p.exit ≠ some 0
  summary : s.matrixFailSummary = []

/-- The script waits for a stream that still runs. -/
def Blocked (s : State) : Prop := ∃ b pid pids rest p,
  s.control = .waiting b (pid :: pids) rest ∧ s.processes[pid]? = some p ∧ p.exit = none

theorem warmup_first {past : List Batch} {b : Batch} {rest : List Batch}
    (h : batches cfg warmupTs runTs = past ++ b :: rest) (hb : b.level = none) : past = [] := by
  have leveled : ∀ b' ∈ cfg.nValues.map (atLevel runTs), b'.level ≠ none := by
    intro b' hb' hnone
    obtain ⟨n, -, rfl⟩ := List.mem_map.mp hb'
    cases hnone
  cases past with
  | nil => rfl
  | cons first past =>
    have inLevels : b ∈ cfg.nValues.map (atLevel runTs) := by
      cases hskip : cfg.skipWarmup with
      | true =>
        rw [batches, hskip] at h
        simp only [if_true, List.nil_append] at h
        simp [h]
      | false =>
        rw [batches, hskip] at h
        simp only [Bool.false_eq_true, if_false, List.cons_append, List.nil_append,
          List.cons.injEq] at h
        simp [h.2]
    exact absurd hb (leveled b inLevels)

theorem level_of_mem {b : Batch} {ps : List Process} (h : Settled cfg (b, ps)) {p : Process}
    (hp : p ∈ ps) : p.stream.level = b.level := by
  have hmem : p.stream ∈ b.streams cfg := h.launched ▸ List.mem_map_of_mem hp
  obtain ⟨i, -, hi⟩ := List.mem_map.mp hmem
  rw [← hi]
  rfl

/-- **A measured matrix accounts for every stream**, whatever the order in which
they ran and exited; a failed warm-up keeps every level from being launched; and
the script never waits but for a stream that runs. -/
theorem matrix_accounted (h : Reachable (matrix cfg warmupTs runTs before) s) :
    (s.Measured → ∃ phases, Accounted cfg warmupTs runTs s phases) ∧
      (s.control = .warmupFailed → GivenUp s) ∧
      (s.Measured ∨ s.control = .warmupFailed ∨ (s.advance cfg).isSome ∨ Blocked s) := by
  obtain ⟨past, cur, hinv⟩ := reachable_inv h
  have hst := hinv.stands
  unfold Stands at hst
  refine ⟨fun hend => ?_, fun hend => ?_, ?_⟩
  · rw [hend] at hst
    obtain ⟨rfl, hall⟩ := hst
    exact ⟨past, by simpa using hall.symm, by simpa using hinv.processes, hinv.settled, hinv.warm,
      hinv.summary⟩
  · rw [hend] at hst
    obtain ⟨b, rest, hall, hlevel, hsettled, hfail⟩ := hst
    obtain rfl : past = [] := List.map_eq_nil_iff.mp (warmup_first hall hlevel)
    have hcur : s.processes = cur := hinv.processes
    obtain ⟨p, hp, hcode⟩ := List.countP_pos_iff.mp hfail
    refine ⟨fun q hq => ?_, ⟨p, hcur ▸ hp, by simpa using hcode⟩, hinv.summary⟩
    exact (level_of_mem hsettled (hcur ▸ hq)).trans hlevel
  · unfold State.advance
    cases hc : s.control with
    | warmupFailed => exact .inr (.inl rfl)
    | next rest =>
      cases rest with
      | nil => exact .inl hc
      | cons b rest => exact .inr (.inr (.inl rfl))
    | launching b ids rest => cases ids <;> exact .inr (.inr (.inl rfl))
    | waiting b pids rest =>
      cases pids with
      | nil => exact .inr (.inr (.inl rfl))
      | cons pid pids =>
        rw [hc] at hst
        obtain ⟨-, -, k, hk, hpids, -⟩ := hst
        have hlt : pid < s.processes.length := by
          have hmem : pid ∈ List.range' ((behind past).length + k) (cur.length - k) :=
            hpids ▸ List.mem_cons_self
          rw [List.mem_range'_1] at hmem
          rw [hinv.processes, List.length_append]
          omega
        cases hexit : s.processes[pid].exit with
        | none =>
          exact .inr (.inr (.inr ⟨b, pid, pids, rest, _, hc, List.getElem?_eq_getElem hlt, hexit⟩))
        | some code =>
          refine .inr (.inr (.inl ?_))
          simp [State.exitOf, List.getElem?_eq_getElem hlt, hexit]

end

/-- The first stream of the second level is killed, before the other one exits. -/
def oneKilled : List Event :=
  twoRunning ++ [.script, .exited 2 137, .exited 3 0, .script, .script, .script]

theorem matrix_accounted_killed :
    (∃ phases, Accounted twoLevels [] [] (played twoLevels [] [] oneKilled) phases) ∧
      (played twoLevels [] [] oneKilled).matrixFailSummary = [(2, 1)] :=
  ⟨(matrix_accounted (reachable_played _ _ _ _)).1 rfl, rfl⟩

end DeltaForgeBench.ScaleOut.Matrix
