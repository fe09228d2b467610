import DeltaForgeBench.ScaleOut.Orchestrate
import Mathlib.Data.List.Count

/-! # The phases of the matrix

At every moment the phases behind have run their streams to the end, and the
streams of the phase at hand are the only ones that still run. -/
namespace DeltaForgeBench.ScaleOut.Phases
open DeltaForgeBench.Base.Text DeltaForgeBench.Base.Dict DeltaForgeBench.Base.Runs
open DeltaForgeBench.ScaleOut.Aggregate DeltaForgeBench.ScaleOut.Orchestrate

/-! ## What a step can do -/

/-- What a running stream's step does to the state. The directory of the stream
changes as the record file that the stream has does. -/
structure Acts (s s' : State) (pid : Nat) (p p' : Process) : Prop where
  found : s.processes[pid]? = some p
  running : p.exit = none
  stream : p'.stream = p.stream
  control : s'.control = s.control
  pids : s'.streamPids = s.streamPids
  failed : s'.streamsFailed = s.streamsFailed
  summary : s'.matrixFailSummary = s.matrixFailSummary
  processes : s'.processes = s.processes.set pid p'
  written : ∃ write : List Lines → List Lines, p'.log.toList = write p.log.toList ∧
    s'.resultsRoot = set s.resultsRoot p.stream.streamTag
      (write ((get? s.resultsRoot p.stream.streamTag).getD []))

theorem act_acts {s s' : State} {pid : Nat} {f : Process → Option Process}
    {write : List Lines → List Lines} (h : s.act pid f write = some s')
    (hf : ∀ p p', f p = some p' → p'.stream = p.stream ∧ p'.log.toList = write p.log.toList) :
    ∃ p p', Acts s s' pid p p' := by
  obtain ⟨p, hp, hrest⟩ := Option.bind_eq_some_iff.mp h
  by_cases hexit : p.exit.isSome
  · simp [hexit] at hrest
  · obtain ⟨p', hp', hstate⟩ := Option.bind_eq_some_iff.mp (by simpa [hexit] using hrest)
    obtain rfl := Option.some.inj hstate
    obtain ⟨hstream, hlog⟩ := hf p p' hp'
    exact ⟨p, p', hp, by simpa using hexit, hstream, rfl, rfl, rfl, rfl, rfl, write, hlog, rfl⟩

theorem react_acts {s s' : State} {e : Event} (h : s.react e = some s') :
    ∃ pid p p', Acts s s' pid p p' := by
  cases e with
  | script => cases h
  | opened pid =>
    simp only [State.react] at h
    refine ⟨pid, act_acts h fun p p' hf => ?_⟩
    split at hf
    · rename_i hlog
      obtain rfl := Option.some.inj hf
      simp [Option.isNone_iff_eq_none.mp hlog]
    · cases hf
  | recorded pid line =>
    change s.act pid _ _ = some s' at h
    refine ⟨pid, act_acts h fun p p' hf => ?_⟩
    obtain ⟨lines, hlog, rfl⟩ := Option.map_eq_some_iff.mp hf
    simp [hlog, appendLast]
  | exited pid code =>
    change s.act pid _ _ = some s' at h
    refine ⟨pid, act_acts h fun p p' hf => ?_⟩
    obtain rfl := Option.some.inj hf
    exact ⟨rfl, rfl⟩

theorem after_cases {cfg : Config} {s s' : State} {e : Event} (h : s.after cfg e = some s') :
    s.advance cfg = some s' ∨ ∃ pid p p', Acts s s' pid p p' := by
  cases e with
  | script => exact .inl h
  | opened pid => exact .inr (react_acts (e := .opened pid) h)
  | recorded pid line => exact .inr (react_acts (e := .recorded pid line) h)
  | exited pid code => exact .inr (react_acts (e := .exited pid code) h)

/-! ## The invariant -/

/-- A phase and the processes of its streams. -/
abbrev Phase := Batch × List Process

/-- The processes of the phases behind. -/
def behind (past : List Phase) : List Process := past.flatMap Prod.snd

@[simp] theorem behind_snoc (past : List Phase) (ph : Phase) :
    behind (past ++ [ph]) = behind past ++ ph.2 := by
  simp [behind]

/-- `[ "$STREAMS_FAILED" -gt 0 ]`: the streams that did not exit with zero. -/
def failures (ps : List Process) : Nat := ps.countP fun p => p.exit ≠ some 0

/-- The line a phase adds to `MATRIX_FAIL_SUMMARY`, if any. -/
def noted (ph : Phase) : Option (Int × Nat) :=
  ph.1.level.bind fun n => if failures ph.2 > 0 then some (n, failures ph.2) else none

/-- The phase has run: each of its streams was launched, in their order, and has exited. -/
structure Settled (cfg : Config) (ph : Phase) : Prop where
  launched : ph.2.map (·.stream) = ph.1.streams cfg
  exited : ∀ p ∈ ph.2, p.exit.isSome

/-- Where the script stands, with the processes of the phase at hand. -/
def Stands (cfg : Config) (all : List Batch) (past : List Phase) (cur : List Process) (s : State) :
    Prop :=
  let start := (behind past).length
  match s.control with
  | .next rest => cur = [] ∧ all = past.map Prod.fst ++ rest
  | .launching b ids rest => all = past.map Prod.fst ++ b :: rest ∧
      cur.map (·.stream) ++ ids.map (runStream cfg b) = b.streams cfg ∧
      s.streamPids = List.range' start cur.length
  | .waiting b pids rest => all = past.map Prod.fst ++ b :: rest ∧
      cur.map (·.stream) = b.streams cfg ∧ ∃ k ≤ cur.length,
        pids = List.range' (start + k) (cur.length - k) ∧
        (∀ p ∈ cur.take k, p.exit.isSome) ∧ s.streamsFailed = failures (cur.take k)
  | .warmupFailed => ∃ b rest, all = past.map Prod.fst ++ b :: rest ∧ b.level = none ∧
      Settled cfg (b, cur) ∧ 0 < failures cur

structure Inv (cfg : Config) (all : List Batch) (past : List Phase) (cur : List Process)
    (s : State) : Prop where
  processes : s.processes = behind past ++ cur
  settled : ∀ ph ∈ past, Settled cfg ph
  warm : ∀ ph ∈ past, ph.1.level = none → failures ph.2 = 0
  summary : s.matrixFailSummary = past.filterMap noted
  stands : Stands cfg all past cur s

section Steps
variable {cfg : Config} {all : List Batch} {past : List Phase} {cur : List Process} {s s' : State}

/-- A running process belongs to the phase at hand. -/
theorem Inv.running (h : Inv cfg all past cur s) {pid : Nat} {p : Process}
    (hp : s.processes[pid]? = some p) (hrun : p.exit = none) :
    (behind past).length ≤ pid ∧
      cur[pid - (behind past).length]? = some p := by
  rw [h.processes] at hp
  by_cases hpid : pid < (behind past).length
  · rw [List.getElem?_append_left hpid] at hp
    obtain ⟨ph, hph, hmem⟩ := List.mem_flatMap.mp (List.mem_of_getElem? hp)
    have := (h.settled ph hph).exited p hmem
    rw [hrun] at this
    cases this
  · exact ⟨by omega, by rwa [List.getElem?_append_right (by omega)] at hp⟩

/-- A process keeps the stream it was launched for. -/
theorem map_stream_set {ps : List Process} {j : Nat} {p p' : Process} (h : ps[j]? = some p)
    (hstream : p'.stream = p.stream) : (ps.set j p').map (·.stream) = ps.map (·.stream) := by
  obtain ⟨hlt, rfl⟩ := List.getElem?_eq_some_iff.mp h
  have hlt' : j < (ps.map (·.stream)).length := by rwa [List.length_map]
  have same : (ps[j]).stream = (ps.map (·.stream))[j] := (List.getElem_map _).symm
  rw [List.map_set, hstream, same, List.set_getElem_self]

/-- A stream's step leaves the phases behind alone. -/
theorem Inv.acts (h : Inv cfg all past cur s) {pid : Nat} {p p' : Process}
    (hact : Acts s s' pid p p') :
    ∃ j, cur[j]? = some p ∧ Inv cfg all past (cur.set j p') s' := by
  obtain ⟨hle, hcur⟩ := h.running hact.found hact.running
  refine ⟨_, hcur, ?_, h.settled, h.warm, hact.summary.trans h.summary, ?_⟩
  · rw [hact.processes, h.processes, List.set_append_right _ _ hle]
  have streams := map_stream_set hcur hact.stream
  have hst := h.stands
  unfold Stands at hst ⊢
  rw [hact.control]
  cases hc : s.control with
  | next rest =>
    rw [hc] at hst
    obtain ⟨rfl, -⟩ := hst
    cases hcur
  | launching b ids rest =>
    rw [hc] at hst
    rwa [streams, List.length_set, hact.pids]
  | waiting b pids rest =>
    rw [hc] at hst
    obtain ⟨hall, hmap, k, hk, hpids, hexited, hfailed⟩ := hst
    -- the process still runs, so it is not among those waited for already
    have later : k ≤ pid - (behind past).length := by
      by_contra hlt
      have hmem : (cur.take k)[pid - (behind past).length]? = some p := by
        rw [List.getElem?_take_of_lt (by omega), hcur]
      have := hexited p (List.mem_of_getElem? hmem)
      rw [hact.running] at this
      cases this
    refine ⟨hall, by rw [streams, hmap], k, by rwa [List.length_set], ?_, ?_, ?_⟩
    · rwa [List.length_set]
    · rwa [List.take_set_of_le later]
    · rwa [List.take_set_of_le later, hact.failed]
  | warmupFailed =>
    rw [hc] at hst
    obtain ⟨b, rest, -, -, hsettled, -⟩ := hst
    have := hsettled.exited p (List.mem_of_getElem? hcur)
    rw [hact.running] at this
    cases this

theorem forall_mem_snoc {α : Type*} {P : α → Prop} {l : List α} {x : α} (h : ∀ a ∈ l, P a)
    (hx : P x) : ∀ a ∈ l ++ [x], P a := by
  intro a ha
  rcases List.mem_append.mp ha with ha | ha
  · exact h a ha
  · exact List.mem_singleton.mp ha ▸ hx

theorem failures_succ {ps : List Process} {k : Nat} {p : Process} (h : ps[k]? = some p) :
    failures (ps.take (k + 1)) = failures (ps.take k) + if p.exit = some 0 then 0 else 1 := by
  rw [List.take_add_one, h, failures, List.countP_append, failures]
  by_cases hp : p.exit = some 0 <;> simp [hp]

/-- The script's own steps. -/
theorem Inv.advance (h : Inv cfg all past cur s) (hs : s.advance cfg = some s') :
    ∃ past' cur', Inv cfg all past' cur' s' := by
  have hst := h.stands
  unfold Stands at hst
  unfold State.advance at hs
  cases hc : s.control with
  | warmupFailed => simp [hc] at hs
  | next rest =>
    cases rest with
    | nil => simp [hc] at hs
    | cons b rest =>
      simp only [hc, Option.some.injEq] at hs hst
      subst hs
      obtain ⟨rfl, hall⟩ := hst
      exact ⟨past, [], h.processes, h.settled, h.warm, h.summary, hall, rfl, rfl⟩
  | launching b ids rest =>
    cases ids with
    | nil =>
      simp only [hc, Option.some.injEq] at hs hst
      subst hs
      obtain ⟨hall, hmap, hpids⟩ := hst
      exact ⟨past, cur, h.processes, h.settled, h.warm, h.summary, hall, by simpa using hmap, 0,
        Nat.zero_le _, by simpa using hpids, by simp, by simp [failures]⟩
    | cons i ids =>
      simp only [hc, Option.some.injEq] at hs hst
      subst hs
      obtain ⟨hall, hmap, hpids⟩ := hst
      refine ⟨past, cur ++ [⟨runStream cfg b i, none, none⟩], ?_, h.settled, h.warm, h.summary, hall,
        ?_, ?_⟩
      · simp [State.launch, h.processes]
      · simpa using hmap
      · change s.streamPids ++ [s.processes.length] = _
        rw [hpids, h.processes]
        simp [List.range'_concat]
  | waiting b pids rest =>
    cases pids with
    | nil =>
      simp only [hc, Option.some.injEq] at hs hst
      subst hs
      obtain ⟨hall, hmap, k, hk, hpids, hexited, hfailed⟩ := hst
      obtain rfl : k = cur.length := by
        have := congrArg List.length hpids
        simp at this
        omega
      rw [List.take_length] at hexited hfailed
      have hsettled : Settled cfg (b, cur) := ⟨hmap, hexited⟩
      cases hlevel : b.level with
      | none =>
        by_cases hzero : s.streamsFailed = 0
        · refine ⟨past ++ [(b, cur)], [], ?_, ?_, ?_, ?_, ?_⟩
          · simp [State.settle, hlevel, hzero, h.processes]
          · exact forall_mem_snoc h.settled hsettled
          · exact forall_mem_snoc h.warm fun _ => hfailed.symm.trans hzero
          · simp [State.settle, hlevel, hzero, h.summary, noted]
          · simp [State.settle, hlevel, hzero, Stands, hall]
        · refine ⟨past, cur, ?_, h.settled, h.warm, ?_, ?_⟩
          · simp [State.settle, hlevel, hzero, h.processes]
          · simp [State.settle, hlevel, hzero, h.summary]
          · simp only [State.settle, hlevel, hzero, Stands, if_false]
            exact ⟨b, rest, hall, hlevel, hsettled, by omega⟩
      | some n =>
        refine ⟨past ++ [(b, cur)], [], ?_, ?_, ?_, ?_, ?_⟩
        · simp [State.settle, hlevel, h.processes]
        · exact forall_mem_snoc h.settled hsettled
        · exact forall_mem_snoc h.warm fun hnone => absurd (hlevel.symm.trans hnone) nofun
        · have line : noted (b, cur) =
              if s.streamsFailed > 0 then some (n, s.streamsFailed) else none := by
            simp [noted, hlevel, hfailed]
          rw [List.filterMap_append, ← h.summary]
          simp only [State.settle, hlevel, List.filterMap_cons, List.filterMap_nil, line]
          by_cases hpos : s.streamsFailed > 0 <;> simp [hpos]
        · simp [State.settle, hlevel, Stands, hall]
    | cons pid pids =>
      simp only [hc, Option.map_eq_some_iff] at hs hst
      obtain ⟨code, hcode, rfl⟩ := hs
      obtain ⟨hall, hmap, k, hk, hpids, hexited, hfailed⟩ := hst
      obtain ⟨p, hp, hexit⟩ := Option.bind_eq_some_iff.mp hcode
      have hlt : k < cur.length := by
        by_contra hge
        rw [show cur.length - k = 0 by omega] at hpids
        cases hpids
      rw [show cur.length - k = (cur.length - (k + 1)) + 1 by omega, List.range'_succ] at hpids
      obtain ⟨rfl, hrest⟩ := List.cons.inj hpids
      have hat : cur[k]? = some p := by
        rw [h.processes, List.getElem?_append_right (by omega)] at hp
        simpa using hp
      refine ⟨past, cur, h.processes, h.settled, h.warm, h.summary, hall, hmap, k + 1, hlt, hrest,
        ?_, ?_⟩
      · intro q hq
        rw [List.take_add_one, hat] at hq
        rcases List.mem_append.mp hq with hq | hq
        · exact hexited q hq
        · obtain rfl := List.mem_singleton.mp hq
          rw [hexit]
          rfl
      · rw [failures_succ hat, ← hfailed, hexit]
        by_cases hzero : code = 0 <;> simp [hzero]

theorem map_stream_behind {past : List Phase} (h : ∀ ph ∈ past, Settled cfg ph) :
    (behind past).map (·.stream) = (past.map Prod.fst).flatMap (Batch.streams cfg) := by
  rw [behind, List.map_flatMap, List.flatMap_map]
  exact List.flatMap_congr fun ph hph => (h ph hph).launched

/-- The processes are those of the first streams of the run. -/
theorem Inv.planned (h : Inv cfg all past cur s) :
    s.processes.map (·.stream) <+: all.flatMap (Batch.streams cfg) := by
  have hst := h.stands
  rw [h.processes, List.map_append, map_stream_behind h.settled]
  unfold Stands at hst
  cases hc : s.control with
  | next rest =>
    rw [hc] at hst
    obtain ⟨rfl, rfl⟩ := hst
    simp
  | launching b ids rest =>
    rw [hc] at hst
    obtain ⟨rfl, hmap, -⟩ := hst
    refine ⟨ids.map (runStream cfg b) ++ rest.flatMap (Batch.streams cfg), ?_⟩
    simp [← hmap]
  | waiting b pids rest =>
    rw [hc] at hst
    obtain ⟨rfl, hmap, -⟩ := hst
    exact ⟨rest.flatMap (Batch.streams cfg), by simp [hmap]⟩
  | warmupFailed =>
    rw [hc] at hst
    obtain ⟨b, rest, rfl, -, hsettled, -⟩ := hst
    exact ⟨rest.flatMap (Batch.streams cfg), by simp [hsettled.launched]⟩

end Steps

/-- **Every state the matrix reaches stands somewhere in its phases.** -/
theorem reachable_inv {cfg : Config} {warmupTs runTs : Str} {before : List (Str × List Lines)}
    {s : State} (h : Reachable (matrix cfg warmupTs runTs before) s) :
    ∃ past cur, Inv cfg (batches cfg warmupTs runTs) past cur s := by
  refine h.invariant (P := fun s => ∃ past cur, Inv cfg _ past cur s) ?_ ?_
  · rintro s rfl
    exact ⟨[], [], rfl, nofun, nofun, rfl, rfl, rfl⟩
  · intro s e s' ⟨past, cur, hinv⟩ hstep
    rcases after_cases hstep with hscript | ⟨pid, p, p', hact⟩
    · exact hinv.advance hscript
    · obtain ⟨j, -, hnext⟩ := hinv.acts hact
      exact ⟨past, _, hnext⟩

end DeltaForgeBench.ScaleOut.Phases
