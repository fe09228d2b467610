import DeltaForgeBench.Base.Runs
import Mathlib.Data.List.Induction
import Mathlib.Data.Rat.Lemmas
import Mathlib.Algebra.BigOperators.Group.List.Basic
import Mathlib.Tactic.Linarith

/-! # The metric sampler

A daemon thread samples the memory and the processor use of an engine's
process tree while the runner's thread runs a step. `stop` sets an event,
joins the thread for at most two seconds, and averages what was sampled; the
two threads interleave in any way. -/
namespace DeltaForgeBench.Engines.Metrics
open DeltaForgeBench.Base.Runs

/-! ## The two threads -/

/-- What the system answers to a call of the sampler: the process is there, is
gone, may not be looked at; it has this many processes below it; or it uses
this much memory and processor. -/
inductive Answer
  | ok | noSuchProcess | accessDenied
  | children (count : Nat)
  | usage (rss : Option Nat) (cpuPercent : Option ℚ)

/-- Where `_run` is, with its local variables. -/
inductive Sampler
  | opening
  | priming
  | testing (peakRss : Nat)
  | listing (peakRss : Nat)
  | reading (peakRss procs rssTotal : Nat) (cpuTotal : ℚ)
  | sleeping (peakRss : Nat)
  | reporting (peakRss : Nat)
  | ended

/-- Where the runner's thread is: in the step, or in `stop`. -/
inductive Runner
  | working
  | joining
  | testing
  | summing
  | dividing (sum : ℚ)
  | stopped

structure State where
  sampler : Sampler := .opening
  runner : Runner := .working
  stop : Bool := false
  peakRssMb : Option ℚ := none
  avgCpuPct : Option ℚ := none
  cpuSamples : List ℚ := []
  /-- The totals of the loop's rounds, kept for the proofs: the code has no such list. -/
  rssTotals : List Nat := []
  /-- How many rounds were over when the event was set; for the proofs as well. -/
  beforeStop : Nat := 0
  /-- An exception has ended the thread: it left `_run` before the last line. -/
  refused : Bool := false

/-- One action of `_run`, by the answer it gets. -/
def State.sample (s : State) (a : Answer) : Option State :=
  match s.sampler, a with
  | .opening, .ok => some { s with sampler := .priming }
  | .opening, .noSuchProcess | .opening, .accessDenied =>
    some { s with sampler := .ended, refused := true }
  | .priming, .ok => some { s with sampler := .testing 0 }
  | .priming, .noSuchProcess | .priming, .accessDenied =>
    some { s with sampler := .ended, refused := true }
  | .testing peak, .ok =>
    some { s with sampler := if s.stop then .reporting peak else .listing peak }
  | .listing peak, .children n => some { s with sampler := .reading peak (n + 1) 0 0 }
  | .listing peak, .noSuchProcess => some { s with sampler := .reporting peak }
  | .listing _, .accessDenied => some { s with sampler := .ended, refused := true }
  | .reading peak (n + 1) rss cpu, .usage rss' cpu' =>
    some { s with sampler := .reading peak n (rss + rss'.getD 0) (cpu + cpu'.getD 0) }
  | .reading peak (n + 1) rss cpu, .noSuchProcess
  | .reading peak (n + 1) rss cpu, .accessDenied =>
    some { s with sampler := .reading peak n rss cpu }
  | .reading peak 0 rss cpu, .ok => some { s with
      sampler := .sleeping (max peak rss)
      cpuSamples := s.cpuSamples ++ [cpu]
      rssTotals := s.rssTotals ++ [rss] }
  | .sleeping peak, .ok => some { s with sampler := .testing peak }
  | .reporting peak, .ok => some { s with
      sampler := .ended
      peakRssMb := some ((peak : ℚ) / (1024 * 1024)) }
  | _, _ => none

def State.samplerEnded (s : State) : Bool := s.sampler matches .ended

/-- One action of the runner's thread. The join comes back when the thread has
ended, or after its timeout. -/
def State.run (s : State) (timeout : Bool) : Option State :=
  match s.runner with
  | .working => some { s with runner := .joining, stop := true, beforeStop := s.cpuSamples.length }
  | .joining => if s.samplerEnded || timeout then some { s with runner := .testing } else none
  | .testing => some { s with runner := if s.cpuSamples = [] then .stopped else .summing }
  | .summing => some { s with runner := .dividing s.cpuSamples.sum }
  | .dividing sum => some { s with
      runner := .stopped
      avgCpuPct := some (sum / s.cpuSamples.length) }
  | .stopped => none

inductive Event
  | sampler (a : Answer)
  | runner (timeout : Bool)

def State.next (s : State) : Event → Option State
  | .sampler a => s.sample a
  | .runner timeout => s.run timeout

/-- The two threads side by side. -/
def sampling : System State Event where
  start s := s = {}
  step s e s' := s.next e = some s'

/-! ## What an action can do -/

/-- The actions of `_run` that touch nothing but its local variables. -/
inductive Moves (stop : Bool) : Sampler → Sampler → Prop
  | opened : Moves stop .opening .priming
  | primed : Moves stop .priming (.testing 0)
  | goesOn {peak : Nat} : stop = false → Moves stop (.testing peak) (.listing peak)
  | stops {peak : Nat} : stop = true → Moves stop (.testing peak) (.reporting peak)
  | listed {peak n : Nat} : Moves stop (.listing peak) (.reading peak n 0 0)
  | vanished {peak : Nat} : Moves stop (.listing peak) (.reporting peak)
  | read {peak n rss rss' : Nat} {cpu cpu' : ℚ} :
    Moves stop (.reading peak (n + 1) rss cpu) (.reading peak n rss' cpu')
  | slept {peak : Nat} : Moves stop (.sleeping peak) (.testing peak)

/-- Where an exception ends the thread. -/
def Sampler.refusable : Sampler → Prop
  | .opening | .priming | .listing _ => True
  | _ => False

/-- The sampler moves on, is refused, ends a round of its loop, or publishes the peak. -/
theorem sample_cases {s s' : State} {a : Answer} (h : s.sample a = some s') :
    (∃ next, Moves s.stop s.sampler next ∧ s' = { s with sampler := next }) ∨
    (s.sampler.refusable ∧ s' = { s with sampler := .ended, refused := true }) ∨
    (∃ peak rss cpu, s.sampler = .reading peak 0 rss cpu ∧ s' = { s with
      sampler := .sleeping (max peak rss)
      cpuSamples := s.cpuSamples ++ [cpu]
      rssTotals := s.rssTotals ++ [rss] }) ∨
    ∃ peak, s.sampler = .reporting peak ∧ s' = { s with
      sampler := .ended
      peakRssMb := some ((peak : ℚ) / (1024 * 1024)) } := by
  unfold State.sample at h
  cases hs : s.sampler with
  | opening =>
    cases a <;> simp only [hs, Option.some.injEq, reduceCtorEq] at h
    · exact .inl ⟨_, .opened, h.symm⟩
    · exact .inr (.inl ⟨trivial, h.symm⟩)
    · exact .inr (.inl ⟨trivial, h.symm⟩)
  | priming =>
    cases a <;> simp only [hs, Option.some.injEq, reduceCtorEq] at h
    · exact .inl ⟨_, .primed, h.symm⟩
    · exact .inr (.inl ⟨trivial, h.symm⟩)
    · exact .inr (.inl ⟨trivial, h.symm⟩)
  | testing peak =>
    cases a <;> simp only [hs, Option.some.injEq, reduceCtorEq] at h
    refine .inl ⟨_, ?_, h.symm⟩
    cases hstop : s.stop with
    | true => exact .stops rfl
    | false => exact .goesOn rfl
  | listing peak =>
    cases a <;> simp only [hs, Option.some.injEq, reduceCtorEq] at h
    · exact .inl ⟨_, .vanished, h.symm⟩
    · exact .inr (.inl ⟨trivial, h.symm⟩)
    · exact .inl ⟨_, .listed, h.symm⟩
  | reading peak procs rss cpu =>
    cases procs with
    | zero =>
      cases a <;> simp only [hs, Option.some.injEq, reduceCtorEq] at h
      exact .inr (.inr (.inl ⟨peak, rss, cpu, rfl, h.symm⟩))
    | succ n =>
      cases a <;> simp only [hs, Option.some.injEq, reduceCtorEq] at h
      · exact .inl ⟨_, .read, h.symm⟩
      · exact .inl ⟨_, .read, h.symm⟩
      · exact .inl ⟨_, .read, h.symm⟩
  | sleeping peak =>
    cases a <;> simp only [hs, Option.some.injEq, reduceCtorEq] at h
    exact .inl ⟨_, .slept, h.symm⟩
  | reporting peak =>
    cases a <;> simp only [hs, Option.some.injEq, reduceCtorEq] at h
    exact .inr (.inr (.inr ⟨peak, rfl, h.symm⟩))
  | ended => cases a <;> simp [hs] at h

/-! ## What holds at every moment -/

/-- `peak_rss` behind some rounds of the loop. -/
def peakOf (rssTotals : List Nat) : Nat := rssTotals.foldl max 0

@[simp] theorem peakOf_snoc (l : List Nat) (rss : Nat) : peakOf (l ++ [rss]) = max (peakOf l) rss := by
  simp [peakOf]

theorem le_peakOf {l : List Nat} {rss : Nat} (h : rss ∈ l) : rss ≤ peakOf l := by
  induction l using List.reverseRecOn with
  | nil => cases h
  | append_singleton l last ih =>
    rw [peakOf_snoc]
    rcases List.mem_append.mp h with h | h
    · exact (ih h).trans (le_max_left _ _)
    · exact List.mem_singleton.mp h ▸ le_max_right _ _

theorem peakOf_mem {l : List Nat} (hne : l ≠ []) : peakOf l ∈ l := by
  induction l using List.reverseRecOn with
  | nil => exact absurd rfl hne
  | append_singleton l last ih =>
    rw [peakOf_snoc]
    rcases List.eq_nil_or_concat l with rfl | ⟨_, _, hl⟩
    · simp [peakOf]
    · rcases max_choice (peakOf l) last with h | h
      · rw [h]
        exact List.mem_append_left _ (ih (by simp [hl]))
      · rw [h]
        exact List.mem_append_right _ List.mem_cons_self

/-- The loop's variable holds the peak of its rounds, and the last line of the
thread publishes it. -/
def PeakKept (s : State) : Prop :=
  match s.sampler with
  | .opening | .priming => s.rssTotals = [] ∧ s.peakRssMb = none ∧ s.refused = false
  | .testing peak | .listing peak | .reading peak _ _ _ | .sleeping peak | .reporting peak =>
    peak = peakOf s.rssTotals ∧ s.peakRssMb = none ∧ s.refused = false
  | .ended => s.peakRssMb =
      if s.refused then none else some ((peakOf s.rssTotals : ℚ) / (1024 * 1024))

/-- A round that was under way when the event was set is the last one. -/
def LastRound (s : State) : Prop :=
  s.beforeStop ≤ s.cpuSamples.length ∧ match s.sampler with
    | .listing _ | .reading .. => s.cpuSamples.length = s.beforeStop
    | _ => s.cpuSamples.length ≤ s.beforeStop + 1

/-- An average of the samples there were when they were summed, over as many as
there were when they were counted. -/
def Averaged (s : State) (c : ℚ) : Prop :=
  ∃ n m, 0 < n ∧ s.beforeStop ≤ n ∧ n ≤ m ∧ m ≤ s.cpuSamples.length ∧
    c = (s.cpuSamples.take n).sum / m

/-- What `stop` has worked out so far. -/
def Averaging (s : State) : Prop :=
  match s.runner with
  | .working => s.stop = false ∧ s.avgCpuPct = none
  | .joining | .testing => s.stop = true ∧ s.avgCpuPct = none
  | .summing => s.stop = true ∧ s.avgCpuPct = none ∧ s.cpuSamples ≠ []
  | .dividing sum => s.stop = true ∧ s.avgCpuPct = none ∧
      ∃ n, 0 < n ∧ s.beforeStop ≤ n ∧ n ≤ s.cpuSamples.length ∧ sum = (s.cpuSamples.take n).sum
  | .stopped => s.stop = true ∧ (s.avgCpuPct = none → s.beforeStop = 0) ∧
      ∀ c, s.avgCpuPct = some c → Averaged s c

structure Inv (s : State) : Prop where
  rounds : s.rssTotals.length = s.cpuSamples.length
  peak : PeakKept s
  last : s.stop = true → LastRound s
  averaging : Averaging s

/-- A round of the sampler leaves what `stop` has worked out. -/
theorem Averaging.round {s s' : State} (h : Averaging s) (hrunner : s'.runner = s.runner)
    (hstop : s'.stop = s.stop) (havg : s'.avgCpuPct = s.avgCpuPct)
    (hbefore : s'.beforeStop = s.beforeStop) {more : List ℚ}
    (hmore : s'.cpuSamples = s.cpuSamples ++ more) : Averaging s' := by
  have len : s.cpuSamples.length ≤ s'.cpuSamples.length := by simp [hmore]
  have prefixSum : ∀ n ≤ s.cpuSamples.length,
      (s'.cpuSamples.take n).sum = (s.cpuSamples.take n).sum := by
    intro n hn
    rw [hmore, List.take_append_of_le_length hn]
  unfold Averaging at h ⊢
  rw [hrunner, hstop, havg, hbefore]
  cases hr : s.runner with
  | working | joining | testing =>
    rw [hr] at h
    exact h
  | summing =>
    rw [hr] at h
    exact ⟨h.1, h.2.1, by simp [hmore, h.2.2]⟩
  | dividing sum =>
    rw [hr] at h
    obtain ⟨hset, hnone, n, hpos, hge, hle, hsum⟩ := h
    exact ⟨hset, hnone, n, hpos, hge, hle.trans len, hsum.trans (prefixSum n hle).symm⟩
  | stopped =>
    rw [hr] at h
    obtain ⟨hset, hnone, hsome⟩ := h
    refine ⟨hset, hnone, fun c hc => ?_⟩
    obtain ⟨n, m, hpos, hge, hnm, hle, hsum⟩ := hsome c hc
    exact ⟨n, m, hpos, hbefore ▸ hge, hnm, hle.trans len,
      by rw [prefixSum n (hnm.trans hle)]; exact hsum⟩

theorem Inv.sample {s s' : State} {a : Answer} (h : Inv s) (hs : s.sample a = some s') : Inv s' := by
  rcases sample_cases hs with
    ⟨next, hmove, rfl⟩ | ⟨hat, rfl⟩ | ⟨peak, rss, cpu, hat, rfl⟩ | ⟨peak, hat, rfl⟩
  · have hpeak := h.peak
    have hlast := h.last
    unfold PeakKept at hpeak
    unfold LastRound at hlast
    generalize hat : s.sampler = now at hmove
    refine ⟨h.rounds, ?_, fun hstop => ⟨(hlast hstop).1, ?_⟩,
      h.averaging.round rfl rfl rfl rfl (List.append_nil _).symm⟩
    · unfold PeakKept
      cases hmove with
      | primed =>
        rw [hat] at hpeak
        exact ⟨by rw [hpeak.1]; rfl, hpeak.2⟩
      | opened | goesOn | stops | listed | vanished | read | slept =>
        rw [hat] at hpeak
        exact hpeak
    · have hlen := (hlast hstop).2
      cases hmove with
      | goesOn hgo =>
        rw [hstop] at hgo
        cases hgo
      | vanished =>
        rw [hat] at hlen
        exact hlen.le.trans (Nat.le_succ _)
      | opened | primed | stops | listed | read | slept =>
        rw [hat] at hlen
        exact hlen
  · have hpeak := h.peak
    unfold PeakKept at hpeak
    have none : s.peakRssMb = none := by
      cases hs : s.sampler with
      | opening | priming | listing =>
        rw [hs] at hpeak
        exact hpeak.2.1
      | testing | reading | sleeping | reporting | ended =>
        rw [hs] at hat
        exact hat.elim
    refine ⟨h.rounds, none, fun hstop => ?_, h.averaging.round rfl rfl rfl rfl (List.append_nil _).symm⟩
    obtain ⟨hbefore, hlen⟩ := h.last hstop
    refine ⟨hbefore, ?_⟩
    cases hs : s.sampler with
    | opening | priming =>
      rw [hs] at hlen
      exact hlen
    | listing =>
      rw [hs] at hlen
      exact hlen.le.trans (Nat.le_succ _)
    | testing | reading | sleeping | reporting | ended =>
      rw [hs] at hat
      exact hat.elim
  · have hpeak := h.peak
    unfold PeakKept at hpeak
    rw [hat] at hpeak
    refine ⟨by simp [h.rounds], ?_, fun hstop => ?_,
      h.averaging.round rfl rfl rfl rfl (show _ = _ ++ [cpu] from rfl)⟩
    · exact ⟨by simp [hpeak.1], hpeak.2⟩
    · obtain ⟨hbefore, hlen⟩ := h.last hstop
      rw [hat] at hlen
      exact ⟨by simp; omega, by simp [hlen]⟩
  · have hpeak := h.peak
    unfold PeakKept at hpeak
    rw [hat] at hpeak
    refine ⟨h.rounds, ?_, fun hstop => ?_, h.averaging.round rfl rfl rfl rfl (List.append_nil _).symm⟩
    · show some _ = if s.refused then none else some _
      rw [hpeak.2.2, hpeak.1]
      rfl
    · have := h.last hstop
      unfold LastRound at this
      rw [hat] at this
      exact this

theorem Inv.run {s s' : State} {timeout : Bool} (h : Inv s) (hs : s.run timeout = some s') :
    Inv s' := by
  have havg := h.averaging
  unfold Averaging at havg
  unfold State.run at hs
  cases hr : s.runner with
  | working =>
    simp only [hr, Option.some.injEq] at hs havg
    subst hs
    refine ⟨h.rounds, h.peak, fun _ => ⟨le_rfl, ?_⟩, rfl, havg.2⟩
    cases s.sampler <;> simp
  | joining =>
    simp only [hr, Option.ite_none_right_eq_some, Option.some.injEq] at hs havg
    obtain ⟨-, rfl⟩ := hs
    exact ⟨h.rounds, h.peak, h.last, havg⟩
  | testing =>
    simp only [hr, Option.some.injEq] at hs havg
    subst hs
    refine ⟨h.rounds, h.peak, h.last, ?_⟩
    by_cases hempty : s.cpuSamples = []
    · have hzero : s.beforeStop = 0 := by simpa [hempty] using (h.last havg.1).1
      simp [Averaging, hempty, havg, hzero]
    · simp [Averaging, hempty, havg]
  | summing =>
    simp only [hr, Option.some.injEq] at hs havg
    subst hs
    exact ⟨h.rounds, h.peak, h.last, havg.1, havg.2.1, s.cpuSamples.length,
      List.length_pos_iff.mpr havg.2.2, (h.last havg.1).1, le_rfl, by rw [List.take_length]⟩
  | dividing sum =>
    simp only [hr, Option.some.injEq] at hs havg
    subst hs
    obtain ⟨hset, -, n, hpos, hge, hle, rfl⟩ := havg
    refine ⟨h.rounds, h.peak, h.last, hset, fun hnone => by simp at hnone, fun c hc => ?_⟩
    exact ⟨n, s.cpuSamples.length, hpos, hge, hle, le_rfl, (Option.some.inj hc).symm⟩
  | stopped => simp [hr] at hs

theorem reachable_inv {s : State} (h : Reachable sampling s) : Inv s := by
  refine h.invariant ?_ ?_
  · rintro s rfl
    exact ⟨rfl, ⟨rfl, rfl, rfl⟩, nofun, rfl, rfl⟩
  · intro s e s' hinv hstep
    cases e with
    | sampler a => exact hinv.sample hstep
    | runner timeout => exact hinv.run hstep

/-! ## What is reported -/

/-- What `stop` leaves behind, however the join came back: the peak is there once
the thread has ended without an exception, and is the largest total; the average
is one of the first samples, counted at most one too many; and at most one round
ended behind the event. -/
structure Reported (s : State) : Prop where
  published : s.peakRssMb.isSome = true ↔ s.samplerEnded = true ∧ s.refused = false
  bound : ∀ r, s.peakRssMb = some r → ∀ rss ∈ s.rssTotals, (rss : ℚ) / (1024 * 1024) ≤ r
  reached : ∀ r, s.peakRssMb = some r →
    s.rssTotals = [] ∧ r = 0 ∨ ∃ rss ∈ s.rssTotals, r = rss / (1024 * 1024)
  average : ∀ c, s.avgCpuPct = some c → ∃ n m, 0 < n ∧ n ≤ m ∧ m ≤ n + 1 ∧
    m ≤ s.cpuSamples.length ∧ c = (s.cpuSamples.take n).sum / m
  nothing : s.avgCpuPct = none → s.beforeStop = 0
  oneMore : s.beforeStop ≤ s.cpuSamples.length ∧ s.cpuSamples.length ≤ s.beforeStop + 1

theorem Inv.reported {s : State} (h : Inv s) (hend : s.runner = .stopped) : Reported s := by
  have havg := h.averaging
  unfold Averaging at havg
  rw [hend] at havg
  obtain ⟨hset, hnone, hsome⟩ := havg
  obtain ⟨hbefore, hlast⟩ := h.last hset
  have more : s.cpuSamples.length ≤ s.beforeStop + 1 := by
    cases hat : s.sampler <;> rw [hat] at hlast <;> simp only at hlast <;> omega
  have peak : s.peakRssMb = if s.samplerEnded = true ∧ s.refused = false then
      some ((peakOf s.rssTotals : ℚ) / (1024 * 1024)) else none := by
    have hpeak := h.peak
    unfold PeakKept at hpeak
    unfold State.samplerEnded
    cases hat : s.sampler with
    | ended =>
      rw [hat] at hpeak
      cases href : s.refused <;> simpa [href] using hpeak
    | opening | priming | testing | listing | reading | sleeping | reporting =>
      rw [hat] at hpeak
      simpa using hpeak.2.1
  have published : ∀ r, s.peakRssMb = some r →
      r = (peakOf s.rssTotals : ℚ) / (1024 * 1024) := by
    intro r hr
    rw [hr] at peak
    split at peak
    · exact Option.some.inj peak
    · cases peak
  refine ⟨?_, fun r hr rss hrss => ?_, fun r hr => ?_, fun c hc => ?_, hnone, hbefore, more⟩
  · rw [peak]
    split <;> simp_all
  · rw [published r hr]
    have : (rss : ℚ) ≤ peakOf s.rssTotals := by exact_mod_cast le_peakOf hrss
    linarith
  · rw [published r hr]
    rcases List.eq_nil_or_concat s.rssTotals with hnil | ⟨l, last, hlast⟩
    · exact .inl ⟨hnil, by simp [hnil, peakOf]⟩
    · exact .inr ⟨_, peakOf_mem (by simp [hlast]), rfl⟩
  · obtain ⟨n, m, hpos, hge, hnm, hle, hsum⟩ := hsome c hc
    exact ⟨n, m, hpos, hnm, by omega, hle, hsum⟩

/-- The thread had ended when the join came back. -/
def Joined (s : State) : Prop :=
  match s.runner with
  | .working | .joining => True
  | .testing | .summing => s.samplerEnded = true
  | .dividing sum => s.samplerEnded = true ∧ sum = s.cpuSamples.sum
  | .stopped => s.samplerEnded = true ∧ s.avgCpuPct =
      if s.cpuSamples = [] then none else some (s.cpuSamples.sum / s.cpuSamples.length)

theorem samplerEnded_iff {s : State} : s.samplerEnded = true ↔ s.sampler = .ended := by
  unfold State.samplerEnded
  cases s.sampler <;> simp

theorem sample_not_ended {s s' : State} {a : Answer} (h : s.sample a = some s') :
    s.sampler ≠ .ended := by
  intro hend
  unfold State.sample at h
  rw [hend] at h
  cases a <;> cases h

theorem Joined.sample {s s' : State} {a : Answer} (h : Joined s) (hs : s.sample a = some s') :
    Joined s' := by
  have alive : s.samplerEnded ≠ true := fun hend => sample_not_ended hs (samplerEnded_iff.mp hend)
  have same : s'.runner = s.runner := by
    rcases sample_cases hs with ⟨_, -, rfl⟩ | ⟨-, rfl⟩ | ⟨_, _, _, -, rfl⟩ | ⟨_, -, rfl⟩ <;> rfl
  unfold Joined at h ⊢
  rw [same]
  cases hr : s.runner with
  | working | joining => trivial
  | testing | summing =>
    rw [hr] at h
    exact absurd h alive
  | dividing | stopped =>
    rw [hr] at h
    exact absurd h.1 alive

theorem Joined.run {s s' : State} (hinv : Inv s) (h : Joined s) (hs : s.run false = some s') :
    Joined s' := by
  have havg := hinv.averaging
  unfold Averaging at havg
  unfold Joined at h
  unfold State.run at hs
  cases hr : s.runner with
  | working =>
    simp only [hr, Option.some.injEq] at hs
    exact hs ▸ trivial
  | joining =>
    simp only [hr, Option.ite_none_right_eq_some, Option.some.injEq, Bool.or_false] at hs
    obtain ⟨hend, rfl⟩ := hs
    exact hend
  | testing =>
    simp only [hr, Option.some.injEq] at hs h havg
    subst hs
    by_cases hempty : s.cpuSamples = []
    · simp only [Joined, hempty, if_true]
      exact ⟨h, havg.2⟩
    · simp only [Joined, hempty, if_false]
      exact h
  | summing =>
    simp only [hr, Option.some.injEq] at hs h
    exact hs ▸ ⟨h, rfl⟩
  | dividing sum =>
    simp only [hr, Option.some.injEq] at hs h havg
    subst hs
    obtain ⟨-, -, n, hpos, -, hle, -⟩ := havg
    have hne : s.cpuSamples ≠ [] := List.length_pos_iff.mp (hpos.trans_le hle)
    exact ⟨h.1, by simp [hne, h.2]⟩
  | stopped => simp [hr] at hs

/-- How far `_run` is from its end once the event is set: the phases left, and
the processes left in the phase. -/
def Sampler.left : Sampler → Nat × Nat
  | .opening => (7, 0)
  | .priming => (6, 0)
  | .listing _ => (5, 0)
  | .reading _ procs _ _ => (4, procs)
  | .sleeping _ => (3, 0)
  | .testing _ => (2, 0)
  | .reporting _ => (1, 0)
  | .ended => (0, 0)

/-- An action of the sampler with the event set. -/
def After (s' s : State) : Prop := s.stop = true ∧ ∃ a, s.sample a = some s'

theorem left_decreases {s s' : State} (h : After s' s) :
    Prod.Lex (· < ·) (· < ·) s'.sampler.left s.sampler.left := by
  obtain ⟨hstop, a, ha⟩ := h
  rcases sample_cases ha with
    ⟨next, hmove, rfl⟩ | ⟨hat, rfl⟩ | ⟨_, _, _, hat, rfl⟩ | ⟨_, hat, rfl⟩
  · generalize s.sampler = now at hmove
    cases hmove with
    | goesOn hgo =>
      rw [hstop] at hgo
      cases hgo
    | read => exact .right _ (Nat.lt_succ_self _)
    | opened | primed | stops | listed | vanished | slept => exact .left _ _ (by omega)
  · cases hs : s.sampler with
    | opening | priming | listing => exact .left _ _ (by omega)
    | testing | reading | sleeping | reporting | ended =>
      rw [hs] at hat
      exact hat.elim
  · rw [hat]
    exact .left _ _ (by omega)
  · rw [hat]
    exact .left _ _ (by omega)

/-- **Once the event is set the sampler's thread comes to its end**: it can take
finitely many actions only, whatever the system answers, and until it has ended
there is an answer that lets it go on. -/
theorem sampler_ends : WellFounded After ∧
    ∀ s : State, s.samplerEnded = false → ∃ a, (s.sample a).isSome = true := by
  constructor
  · have lex : WellFounded (Prod.Lex (· < ·) (· < ·) : Nat × Nat → Nat × Nat → Prop) :=
      wellFounded_lt.prod_lex wellFounded_lt
    exact Subrelation.wf left_decreases (InvImage.wf (fun s : State => s.sampler.left) lex)
  · intro s hs
    unfold State.sample
    cases hat : s.sampler with
    | listing => exact ⟨.children 0, rfl⟩
    | reading peak procs rss cpu =>
      cases procs with
      | zero => exact ⟨.ok, rfl⟩
      | succ n => exact ⟨.noSuchProcess, rfl⟩
    | ended =>
      rw [samplerEnded_iff.mpr hat] at hs
      cases hs
    | opening | priming | testing | sleeping | reporting => exact ⟨.ok, rfl⟩

end DeltaForgeBench.Engines.Metrics
