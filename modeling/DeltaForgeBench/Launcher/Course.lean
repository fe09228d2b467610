import DeltaForgeBench.Launcher.Teardown

/-! # How a launch goes

Whatever signals come in and whatever dies, a launch that has ended has gone one
of eight ways; the harness ran on exactly one of them, behind a health check and
a probe that succeeded, and both were tried a bounded number of times. -/
namespace DeltaForgeBench.Launcher.Course
open DeltaForgeBench.Base.Text DeltaForgeBench.Base.Runs DeltaForgeBench.Launcher.Script
open DeltaForgeBench.Launcher.Teardown

/-! ## What the probe is taken for -/

theorem mentionsStatus_append {code back : Str} (hcode : code ∈ [['4', '0', '2'], ['4', '2', '9']])
    (hback : back.head?.any isWordChar = false) (front : Str) (before : Option Char)
    (hfront : (front.getLast?.or before).any isWordChar = false) :
    mentionsStatus before (front ++ code ++ back) = true := by
  induction front generalizing before with
  | nil =>
    have apart : before.any isWordChar = false := hfront
    have behind : ∀ c₁ c₂ c₃ : Char, (c₁ :: c₂ :: c₃ :: back)[3]? = back.head? := by
      intro c₁ c₂ c₃
      cases back <;> rfl
    simp only [List.mem_cons, List.not_mem_nil, or_false] at hcode
    rcases hcode with rfl | rfl
    · simp [mentionsStatus, apart, behind, hback]
    · simp [mentionsStatus, apart, behind, hback]
  | cons c cs ih =>
    have rest : (cs.getLast?.or (some c)).any isWordChar = false := by
      cases cs with
      | nil => simpa using hfront
      | cons d ds =>
        rw [List.getLast?_cons_cons] at hfront
        cases hlast : (d :: ds).getLast? with
        | none => simp at hlast
        | some e => simpa [hlast] using hfront
    rw [List.cons_append, List.cons_append, mentionsStatus, ih (some c) rest, Bool.or_true]

/-- **A number 402 or 429 in the answer is taken for a refusal of the licence**,
also where it is the time of a query that gave its rows. -/
theorem read_status {p : Probe} {code back front : Str} (hp : p.out = front ++ code ++ back)
    (hcut : p.cut.licence = false) (hcode : code ∈ [['4', '0', '2'], ['4', '2', '9']])
    (hfront : front.getLast?.any isWordChar = false) (hback : back.head?.any isWordChar = false) :
    p.read = .rejected ∨ p.read = .notActivated := by
  have status := mentionsStatus_append hcode hback front none (by simpa using hfront)
  have limit : looksLikeLicenseLimit p.out = true := by
    rw [hp, looksLikeLicenseLimit, status, Bool.or_true]
  unfold Probe.read
  split
  · exact .inr rfl
  · exact .inl (if_pos (by simp [limit, hcut]))

example : Probe.read { out := "\x7b\"rows\": [[1]], \"execution_time_ms\": 402\x7d".toList } = .rejected := by
  decide +kernel

/-! ## The ways of a launch -/

/-- Health checks that failed. -/
def unhealthy (k : Nat) : List Entry := List.replicate k (.health false)

/-- Health checks up to the one that succeeded, then probes. -/
def asked (k : Nat) (probes : List Probe) : List Entry :=
  unhealthy k ++ .health true :: probes.map .probe

theorem unhealthy_succ (k : Nat) : unhealthy k ++ [.health false] = unhealthy (k + 1) :=
  List.replicate_succ'.symm

theorem asked_snoc (k : Nat) (probes : List Probe) (p : Probe) :
    asked k probes ++ [.probe p] = asked k (probes ++ [p]) := by
  simp [asked]

/-- The loop over the probe goes on. -/
def Retry (p : Probe) : Prop := p.read = .notActivated ∨ p.read = .nothing

def sawNotActivated (probes : List Probe) : Bool := probes.any fun p => p.read == .notActivated

/-- A launch from its first health check to its end. -/
inductive Launch : List Entry → Outcome → Prop
  | notHealthy {k : Nat} : k ≤ 90 → Launch (unhealthy k) .notHealthy
  | exitedDuringStartup {k : Nat} : k < 90 → Launch (unhealthy k) .exitedDuringStartup
  | exitedWhileWaiting {k : Nat} {probes : List Probe} : k < 90 → probes.length < 45 →
    (∀ p ∈ probes, Retry p) → Launch (asked k probes) .exitedWhileWaiting
  | timedOut {k : Nat} {probes : List Probe} : k < 90 → probes.length ≤ 45 →
    (∀ p ∈ probes, Retry p) →
    Launch (asked k probes) (if sawNotActivated probes then .notActivated else .noResult)
  | rejected {k : Nat} {probes : List Probe} {p : Probe} : k < 90 → probes.length < 45 →
    (∀ p ∈ probes, Retry p) → p.read = .rejected → Launch (asked k (probes ++ [p])) .rejected
  | harness {k : Nat} {probes : List Probe} {p : Probe} {code : Nat} : k < 90 → probes.length < 45 →
    (∀ p ∈ probes, Retry p) → p.read = .rows →
    Launch (asked k (probes ++ [p]) ++ [.harness code]) (.harness code)
  | abortedChecking {k status : Nat} : k ≤ 90 → status ≠ 0 → Launch (unhealthy k) (.aborted status)
  | abortedProbing {k status : Nat} {probes : List Probe} : k < 90 → probes.length ≤ 45 →
    (∀ p ∈ probes, Retry p) → status ≠ 0 → Launch (asked k probes) (.aborted status)
  | probeKilled {k status : Nat} {probes : List Probe} : k < 90 → probes.length < 45 →
    (∀ p ∈ probes, Retry p) → status ≠ 0 →
    Launch (asked k probes ++ [.probeKilled]) (.aborted status)

/-- The loop over `health` behind `k` checks, at a time `t`. -/
structure Checking (log : List Entry) (deadline k t : Nat) : Prop where
  log : log = unhealthy k
  time : 2 * k + deadline ≤ t + 180

/-- The loop over the probe behind `probes`, at a time `t`. -/
structure Probing (log : List Entry) (deadline : Nat) (saw : Bool) (probes : List Probe) (t : Nat) :
    Prop where
  log : ∃ k < 90, log = asked k probes
  retries : ∀ p ∈ probes, Retry p
  saw : saw = sawNotActivated probes
  time : 2 * probes.length + deadline ≤ t + 90

/-- A launch that fails behind this log, with the outcome or out of its messages. -/
def Fails (log : List Entry) (outcome : Outcome) : Prop :=
  Launch log outcome ∧ ∀ status ≠ 0, Launch log (.aborted status)

/-- How far a launch has come where the script is. -/
def Along (log : List Entry) (clock : Nat) : Control → Prop
  | .healthTime deadline => ∃ k ≤ 90, Checking log deadline k clock
  | .healthAlive deadline | .healthCall deadline => ∃ k < 90, Checking log deadline k clock
  | .healthSleep deadline wake => ∃ k ≤ 90, Checking log deadline k wake
  | .probeStart => ∃ k < 90, log = asked k []
  | .probeTime deadline saw => ∃ probes, probes.length ≤ 45 ∧ Probing log deadline saw probes clock
  | .probeAlive deadline saw | .probeCall deadline saw =>
    ∃ probes, probes.length < 45 ∧ Probing log deadline saw probes clock
  | .probeSleep deadline saw wake => ∃ probes, probes.length ≤ 45 ∧ Probing log deadline saw probes wake
  | .harness | .running => ∃ k probes p, k < 90 ∧ probes.length < 45 ∧ (∀ p ∈ probes, Retry p) ∧
    p.read = .rows ∧ log = asked k (probes ++ [p])
  | .failing outcome => Fails log outcome
  | .leaving outcome | .exited outcome => Launch log outcome
  | _ => log = []

theorem Checking.abort {log : List Entry} {deadline k t status : Nat} (h : Checking log deadline k t)
    (hk : k ≤ 90) (hstatus : status ≠ 0) : Launch log (.aborted status) := by
  rw [h.log]
  exact .abortedChecking hk hstatus

theorem Checking.notHealthy {log : List Entry} {deadline k t : Nat} (h : Checking log deadline k t)
    (hk : k ≤ 90) : Fails log .notHealthy :=
  ⟨h.log ▸ .notHealthy hk, fun _ => h.abort hk⟩

theorem Checking.exited {log : List Entry} {deadline k t : Nat} (h : Checking log deadline k t)
    (hk : k < 90) : Fails log .exitedDuringStartup :=
  ⟨h.log ▸ .exitedDuringStartup hk, fun _ => h.abort hk.le⟩

/-- Another round of the loop over `health`. -/
theorem Checking.again {log : List Entry} {deadline k t : Nat} (h : Checking log deadline k t) :
    Checking (log ++ [.health false]) deadline (k + 1) (t + 2) := by
  have htime := h.time
  exact ⟨by rw [h.log, unhealthy_succ], by omega⟩

section
variable {log : List Entry} {deadline t : Nat} {saw : Bool} {probes : List Probe}

theorem Probing.abort (h : Probing log deadline saw probes t) (hlen : probes.length ≤ 45)
    {status : Nat} (hstatus : status ≠ 0) : Launch log (.aborted status) := by
  obtain ⟨k, hk, hlog⟩ := h.log
  rw [hlog]
  exact .abortedProbing hk hlen h.retries hstatus

/-- Another round of the loop over the probe. -/
theorem Probing.again (h : Probing log deadline saw probes t) {p : Probe} (hp : Retry p)
    {saw' : Bool} (hsaw : saw' = (saw || p.read == .notActivated)) :
    Probing (log ++ [.probe p]) deadline saw' (probes ++ [p]) (t + 2) where
  log := by
    obtain ⟨k, hk, hlog⟩ := h.log
    exact ⟨k, hk, by rw [hlog, asked_snoc]⟩
  retries := List.forall_mem_append.mpr ⟨h.retries, List.forall_mem_singleton.mpr hp⟩
  saw := by
    rw [hsaw, h.saw, sawNotActivated, sawNotActivated, List.any_append]
    simp
  time := by
    have htime := h.time
    rw [List.length_append, List.length_singleton]
    omega

theorem Probing.exited (h : Probing log deadline saw probes t) (hlen : probes.length < 45) :
    Fails log .exitedWhileWaiting := by
  refine ⟨?_, fun _ => h.abort hlen.le⟩
  obtain ⟨k, hk, hlog⟩ := h.log
  rw [hlog]
  exact .exitedWhileWaiting hk hlen h.retries

theorem Probing.timedOut (h : Probing log deadline saw probes t) (hlen : probes.length ≤ 45) :
    Launch log (if saw then .notActivated else .noResult) := by
  obtain ⟨k, hk, hlog⟩ := h.log
  rw [hlog, h.saw]
  exact .timedOut hk hlen h.retries

end

variable {s s' : State}

@[simp] theorem tell_log (s : State) (pid : Option Nat) : (s.tell pid).log = s.log := by
  cases pid <;> rfl

@[simp] theorem tell_clock (s : State) (pid : Option Nat) : (s.tell pid).clock = s.clock := by
  cases pid <;> rfl

/-- The clock does not hold a launch up. -/
theorem Along.later {log : List Entry} {t t' : Nat} {c : Control} (h : Along log t c) (ht : t ≤ t') :
    Along log t' c := by
  cases c with
  | healthTime | healthAlive | healthCall =>
    obtain ⟨k, hk, hlog, htime⟩ := h
    exact ⟨k, hk, hlog, by omega⟩
  | probeTime | probeAlive | probeCall =>
    obtain ⟨probes, hlen, hlog, hretry, hsaw, htime⟩ := h
    exact ⟨probes, hlen, hlog, hretry, hsaw, by omega⟩
  | _ => exact h

theorem aborted_along (h : ∀ status ≠ 0, Launch s.log (.aborted status)) {status : Nat}
    (hstep : s.abort status = some s') : Along s'.log s'.clock s'.control := by
  obtain ⟨hstatus, hsome⟩ := Option.ite_none_left_eq_some.mp hstep
  obtain rfl := Option.some.inj hsome
  exact h status hstatus

theorem Along.advance (h : Along s.log s.clock s.control) {a : Answer}
    (hstep : s.advance a = some s') : Along s'.log s'.clock s'.control := by
  unfold State.advance at hstep
  cases hc : s.control with
  | spawned | forgetting | boot | booted | harness | leaving =>
    rw [hc] at h
    cases a <;> simp only [hc, Option.some.injEq, reduceCtorEq] at hstep
    subst hstep
    exact h
  | search rest =>
    rw [hc] at h
    cases rest <;> cases a <;> simp only [hc, Option.some.injEq, reduceCtorEq] at hstep
    all_goals
      subst hstep
      exact h
  | polling n rest i =>
    rw [hc] at h
    cases a <;> simp only [hc, Option.some.injEq, reduceCtorEq] at hstep
    subst hstep
    split
    · exact h
    · exact h
  | testing n rest i =>
    rw [hc] at h
    cases a <;> simp only [hc, Option.some.injEq, reduceCtorEq] at hstep
    · subst hstep
      exact h
    · subst hstep
      exact h
  | givingUp rest =>
    rw [hc] at h
    cases a <;> simp only [hc, Option.some.injEq, reduceCtorEq] at hstep
    subst hstep
    show (s.tell s.xvfbPid).log = []
    rw [tell_log]
    exact h
  | reaping rest =>
    rw [hc] at h
    cases a <;> simp only [hc, Option.ite_none_left_eq_some, Option.some.injEq,
      reduceCtorEq] at hstep
    obtain ⟨-, rfl⟩ := hstep
    exact h
  | healthStart =>
    rw [hc] at h
    have started : Checking s.log (s.clock + 180) 0 s.clock :=
      ⟨h, show 2 * 0 + (s.clock + 180) ≤ s.clock + 180 by omega⟩
    cases a <;> simp only [hc, Option.some.injEq, reduceCtorEq] at hstep
    · subst hstep
      exact ⟨0, by omega, started⟩
    · exact aborted_along (fun _ => started.abort (by omega)) hstep
  | healthTime deadline =>
    rw [hc] at h
    obtain ⟨k, hk, hcheck⟩ := h
    cases a <;> simp only [hc, Option.some.injEq, reduceCtorEq] at hstep
    · subst hstep
      show Along s.log s.clock (if s.clock < deadline then _ else _)
      have htime := hcheck.time
      split
      · exact ⟨k, by omega, hcheck⟩
      · exact hcheck.notHealthy hk
    · subst hstep
      exact hcheck.notHealthy hk
  | healthAlive deadline =>
    rw [hc] at h
    obtain ⟨k, hk, hcheck⟩ := h
    cases a <;> simp only [hc, Option.some.injEq, reduceCtorEq] at hstep
    subst hstep
    show Along s.log s.clock (if s.isAlive s.platformPid then _ else _)
    split
    · exact ⟨k, hk, hcheck⟩
    · exact hcheck.exited hk
  | healthCall deadline =>
    rw [hc] at h
    obtain ⟨k, hk, hcheck⟩ := h
    cases a <;> simp only [hc, Option.some.injEq, reduceCtorEq] at hstep
    · subst hstep
      refine ⟨k, hk, ?_⟩
      show s.log ++ [.health true] = _
      rw [hcheck.log]
      rfl
    · subst hstep
      exact ⟨k + 1, hk, hcheck.again⟩
  | healthSleep deadline wake =>
    rw [hc] at h
    obtain ⟨k, hk, hcheck⟩ := h
    cases a <;> simp only [hc, Option.ite_none_right_eq_some, Option.some.injEq,
      reduceCtorEq] at hstep
    · obtain ⟨hwake, rfl⟩ := hstep
      exact ⟨k, hk, hcheck.log, hcheck.time.trans (Nat.add_le_add_right hwake _)⟩
    · exact aborted_along (fun _ => hcheck.abort hk) hstep
  | probeStart =>
    rw [hc] at h
    have started : Probing s.log (s.clock + 90) false [] s.clock :=
      ⟨h, nofun, rfl, show 2 * 0 + (s.clock + 90) ≤ s.clock + 90 by omega⟩
    cases a <;> simp only [hc, Option.some.injEq, reduceCtorEq] at hstep
    · subst hstep
      exact ⟨[], Nat.zero_le 45, started⟩
    · exact aborted_along (fun _ => started.abort (Nat.zero_le 45)) hstep
  | probeTime deadline saw =>
    rw [hc] at h
    obtain ⟨probes, hlen, hprobe⟩ := h
    have late : Along (s.timeOut saw).log (s.timeOut saw).clock (s.timeOut saw).control := by
      have timedOut := hprobe.timedOut hlen
      cases saw with
      | true => exact timedOut
      | false => exact ⟨timedOut, fun _ => hprobe.abort hlen⟩
    cases a <;> simp only [hc, Option.some.injEq, reduceCtorEq] at hstep
    · subst hstep
      have htime := hprobe.time
      split
      · exact ⟨probes, by omega, hprobe⟩
      · exact late
    · subst hstep
      exact late
  | probeAlive deadline saw =>
    rw [hc] at h
    obtain ⟨probes, hlen, hprobe⟩ := h
    cases a <;> simp only [hc, Option.some.injEq, reduceCtorEq] at hstep
    subst hstep
    show Along s.log s.clock (if s.isAlive s.platformPid then _ else _)
    split
    · exact ⟨probes, hlen, hprobe⟩
    · exact hprobe.exited hlen
  | probeCall deadline saw =>
    rw [hc] at h
    obtain ⟨probes, hlen, hprobe⟩ := h
    obtain ⟨k, hk, hlog⟩ := hprobe.log
    cases a <;> simp only [hc, Option.some.injEq, reduceCtorEq] at hstep
    · rename_i p
      have noted : s.log ++ [.probe p] = asked k (probes ++ [p]) := by rw [hlog, asked_snoc]
      have more : (probes ++ [p]).length ≤ 45 := by
        rw [List.length_append]
        exact hlen
      subst hstep
      cases hread : p.read with
      | notActivated => exact ⟨probes ++ [p], more, hprobe.again (.inl hread) (by simp [hread])⟩
      | rejected =>
        show Launch (s.log ++ [.probe p]) .rejected
        rw [noted]
        exact .rejected hk hlen hprobe.retries hread
      | rows => exact ⟨k, probes, p, hk, hlen, hprobe.retries, hread, noted⟩
      | nothing => exact ⟨probes ++ [p], more, hprobe.again (.inr hread) (by simp [hread])⟩
    · refine aborted_along (s := s.note .probeKilled) (fun _ hstatus => ?_) hstep
      show Launch (s.log ++ [.probeKilled]) _
      rw [hlog]
      exact .probeKilled hk hlen hprobe.retries hstatus
  | probeSleep deadline saw wake =>
    rw [hc] at h
    obtain ⟨probes, hlen, hprobe⟩ := h
    cases a <;> simp only [hc, Option.ite_none_right_eq_some, Option.some.injEq,
      reduceCtorEq] at hstep
    · obtain ⟨hwake, rfl⟩ := hstep
      exact ⟨probes, hlen, hprobe.log, hprobe.retries, hprobe.saw,
        hprobe.time.trans (Nat.add_le_add_right hwake _)⟩
    · exact aborted_along (fun _ => hprobe.abort hlen) hstep
  | running =>
    rw [hc] at h
    obtain ⟨k, probes, p, hk, hlen, hretry, hrows, hlog⟩ := h
    cases a <;> simp only [hc, Option.some.injEq, reduceCtorEq] at hstep
    rename_i n
    subst hstep
    show Launch (s.log ++ [.harness n]) (.harness n)
    rw [hlog]
    exact .harness hk hlen hretry hrows
  | failing outcome =>
    rw [hc] at h
    cases a <;> simp only [hc, Option.some.injEq, reduceCtorEq] at hstep
    · subst hstep
      exact h.1
    · exact aborted_along h.2 hstep
  | exited outcome => cases a <;> simp [hc] at hstep

theorem Along.handle (h : Along s.log s.clock s.control) (hstep : s.handle = some s') :
    Along s'.log s'.clock s'.control := by
  have same : s'.log = s.log ∧ s'.clock = s.clock ∧ s'.control = s.control := by
    unfold State.handle at hstep
    split at hstep
    · cases hstep
    · obtain rfl := Option.some.inj hstep
      exact ⟨tell_log .., tell_clock .., tell_control ..⟩
    · obtain ⟨-, rfl⟩ := Option.ite_none_left_eq_some.mp hstep |>.imp_right Option.some.inj
      exact ⟨rfl, rfl, rfl⟩
    · obtain rfl := Option.some.inj hstep
      exact ⟨rfl, rfl, rfl⟩
    · obtain rfl := Option.some.inj hstep
      exact ⟨rfl, rfl, rfl⟩
    · obtain rfl := Option.some.inj hstep
      exact ⟨rfl, rfl, rfl⟩
    · obtain rfl := Option.some.inj hstep
      exact ⟨tell_log .., tell_clock .., tell_control ..⟩
    · obtain ⟨-, rfl⟩ := Option.ite_none_left_eq_some.mp hstep |>.imp_right Option.some.inj
      exact ⟨rfl, rfl, rfl⟩
  rw [same.1, same.2.1, same.2.2]
  exact h

theorem Along.interrupt (h : Along s.log s.clock s.control) :
    Along s.interrupt.log s.interrupt.clock s.interrupt.control := by
  rcases interrupt_cases s with ⟨hs, heq, -⟩ | ⟨rest, hc, -, heq⟩
  · rw [heq]
    exact h
  · rw [heq]
    rw [hc] at h
    exact h

theorem Along.signal (h : Along s.log s.clock s.control) {interrupts : Bool}
    (hstep : s.signal interrupts = some s') : Along s'.log s'.clock s'.control := by
  obtain ⟨-, rfl⟩ := signal_cases hstep
  cases interrupts with
  | false => exact h
  | true => exact h.interrupt

end DeltaForgeBench.Launcher.Course
