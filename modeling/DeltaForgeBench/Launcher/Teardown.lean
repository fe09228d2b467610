import DeltaForgeBench.Launcher.Script
import Mathlib.Tactic.Basic

/-! # What the launcher leaves behind

However its processes die, wherever the signals come in and however deep its
traps nest: when the launcher has ended, none of the processes it started is
alive. -/
namespace DeltaForgeBench.Launcher.Teardown
open DeltaForgeBench.Base.Runs DeltaForgeBench.Launcher.Script

/-! ## Processes -/

/-- A process only gets older: it may die, and it may be told to stop. -/
structure Ages (cs cs' : List Child) : Prop where
  length : cs'.length = cs.length
  get : ∀ (i : Nat) (c' : Child), cs'[i]? = some c' → ∃ c : Child, cs[i]? = some c ∧ c.kind = c'.kind ∧
    (c'.alive = true → c.alive = true) ∧ (c.told = true → c'.told = true)

theorem ages_modify (cs : List Child) (pid : Nat) {f : Child → Child}
    (hf : ∀ c, (f c).kind = c.kind ∧ ((f c).alive = true → c.alive = true) ∧
      (c.told = true → (f c).told = true)) : Ages cs (cs.modify pid f) := by
  refine ⟨List.length_modify .., fun i c' hc' => ?_⟩
  rw [List.getElem?_modify] at hc'
  obtain ⟨c, hc, rfl⟩ := Option.map_eq_some_iff.mp hc'
  refine ⟨c, hc, ?_⟩
  split
  · exact ⟨(hf c).1.symm, (hf c).2⟩
  · exact ⟨rfl, id, id⟩

/-- No process, or one that has been reaped. -/
def Gone (s : State) (pid : Option Nat) : Prop :=
  ∀ (i : Nat) (c : Child), pid = some i → s.children[i]? = some c → c.alive = false

def Told (s : State) (pid : Option Nat) : Prop :=
  ∀ (i : Nat) (c : Child), pid = some i → s.children[i]? = some c → c.told = true

/-- Every server of ours that still runs, and came up while a platform ran, was told
to stop, those of `left` apart. -/
def Asked (s : State) (left : List Nat) : Prop :=
  ∀ (i : Nat) (p : Server), s.servers[i]? = some p → p.ours = true → p.late = false →
    p.alive = true → p.told = true ∨ i ∈ left

theorem gone_of_not_alive {s : State} {pid : Option Nat} (h : s.isAlive pid = false) :
    Gone s pid := by
  rintro i c rfl hc
  simpa [State.isAlive, hc] using h

/-! ## The invariant -/

/-- What holds for the innermost trap, once the script is at its end. -/
def Cleared (s : State) : List Handler → Prop
  | [] => Gone s s.platformPid ∧ Asked s [] ∧ Gone s s.xvfbPid
  | .listServers :: _ => Gone s s.platformPid
  | .stopServers left :: _ => Gone s s.platformPid ∧ Asked s left
  | .killXvfb :: _ | .waitXvfb :: _ => Gone s s.platformPid ∧ Asked s []
  | _ => True

/-- No `Xvfb` has been noted: none runs, or the one that was started just now. -/
def searching : Control → Bool
  | .search _ | .spawned .. => true
  | _ => false

/-- The platform has not been noted: none was started before `booted`. -/
def early : Control → Bool
  | .search _ | .spawned .. | .polling .. | .testing .. | .givingUp _ | .reaping _ | .forgetting _
  | .boot | .booted => true
  | _ => false

structure Inv (s : State) : Prop where
  platforms : ∀ (i : Nat) (c : Child), s.children[i]? = some c → c.kind = .platform →
    s.platformPid = some i ∨ (s.control = .booted ∧ i + 1 = s.children.length)
  displays : ∀ (i : Nat) (c : Child), s.children[i]? = some c → c.kind = .xvfb → c.alive = true →
    s.xvfbPid = some i ∨ ((∃ n rest, s.control = .spawned n rest) ∧ i + 1 = s.children.length)
  search : searching s.control = true → s.xvfbPid = none
  early : early s.control = true → s.platformPid = none
  reap : ∀ rest, s.control = .reaping rest → Told s s.xvfbPid
  forget : ∀ rest, s.control = .forgetting rest → s.handlers = [] → Gone s s.xvfbPid
  leave : ∀ outcome, s.control = .leaving outcome → Cleared s s.handlers
  ended : ∀ outcome, s.control = .exited outcome → s.handlers = [] ∧ Cleared s []
  waits : ∀ h ∈ s.handlers, (h = .waitPlatform → Told s s.platformPid) ∧
    (h = .waitXvfb → Told s s.xvfbPid)

variable {s s' : State}

theorem Asked.mono {left left' : List Nat} (h : Asked s left) (hsub : left ⊆ left') :
    Asked s left' := fun i p hi hours hlate halive =>
  (h i p hi hours hlate halive).imp_right fun hmem => hsub hmem

theorem cleared_of_nil (h : Cleared s []) (hs : List Handler) : Cleared s hs := by
  obtain ⟨hplatform, hasked, hxvfb⟩ := h
  match hs with
  | [] => exact ⟨hplatform, hasked, hxvfb⟩
  | .killPlatform :: _ | .waitPlatform :: _ => exact trivial
  | .listServers :: _ => exact hplatform
  | .stopServers left :: _ => exact ⟨hplatform, hasked.mono (List.nil_subset left)⟩
  | .killXvfb :: _ | .waitXvfb :: _ => exact ⟨hplatform, hasked⟩

/-! ## Around the script -/

section
variable {cs : List Child}

theorem Gone.aged {pid : Option Nat} (h : Gone s pid) (ha : Ages s.children cs) :
    Gone { s with children := cs } pid := by
  intro i c' hpid hc'
  obtain ⟨c, hc, -, halive, -⟩ := ha.get i c' hc'
  exact Bool.eq_false_iff.mpr fun h' => by simp [h i c hpid hc] at halive; simp [halive] at h'

theorem Told.aged {pid : Option Nat} (h : Told s pid) (ha : Ages s.children cs) :
    Told { s with children := cs } pid := by
  intro i c' hpid hc'
  obtain ⟨c, hc, -, -, htold⟩ := ha.get i c' hc'
  exact htold (h i c hpid hc)

theorem Cleared.aged {hs : List Handler} (h : Cleared s hs) (ha : Ages s.children cs) :
    Cleared { s with children := cs } hs := by
  match hs with
  | [] => exact ⟨h.1.aged ha, h.2.1, h.2.2.aged ha⟩
  | .killPlatform :: _ | .waitPlatform :: _ => exact trivial
  | .listServers :: _ => exact Gone.aged h ha
  | .stopServers _ :: _ | .killXvfb :: _ | .waitXvfb :: _ => exact ⟨h.1.aged ha, h.2⟩

theorem Inv.aged (h : Inv s) (ha : Ages s.children cs) : Inv { s with children := cs } where
  platforms i c' hc' hkind := by
    obtain ⟨c, hc, hsame, -, -⟩ := ha.get i c' hc'
    simpa [ha.length] using h.platforms i c hc (hsame.trans hkind)
  displays i c' hc' hkind halive := by
    obtain ⟨c, hc, hsame, hback, -⟩ := ha.get i c' hc'
    simpa [ha.length] using h.displays i c hc (hsame.trans hkind) (hback halive)
  search := h.search
  early := h.early
  reap rest hc := (h.reap rest hc).aged ha
  forget rest hc hs := (h.forget rest hc hs).aged ha
  leave outcome hc := (h.leave outcome hc).aged ha
  ended outcome hc := ⟨(h.ended outcome hc).1, (h.ended outcome hc).2.aged ha⟩
  waits hd hmem := ⟨fun e => ((h.waits hd hmem).1 e).aged ha, fun e => ((h.waits hd hmem).2 e).aged ha⟩

theorem Inv.tell (h : Inv s) (pid : Option Nat) : Inv (s.tell pid) := by
  cases pid with
  | none => exact h
  | some pid => exact h.aged (ages_modify _ _ fun c => ⟨rfl, id, fun _ => rfl⟩)

end

/-- No platform runs once the one of the script is gone. -/
theorem Inv.platform_down (h : Inv s) (hc : s.control ≠ .booted) (hgone : Gone s s.platformPid) :
    s.platformRuns = false := by
  rw [Bool.eq_false_iff]
  intro hruns
  obtain ⟨c, hmem, hc'⟩ := List.any_eq_true.mp hruns
  obtain ⟨i, hi⟩ := List.mem_iff_getElem?.mp hmem
  simp only [Bool.and_eq_true, beq_iff_eq] at hc'
  rcases h.platforms i c hi hc'.1 with hpid | ⟨hbooted, -⟩
  · simp [hgone i c hpid hi] at hc'
  · exact hc hbooted

theorem Inv.served (h : Inv s) {ps : List Server}
    (hasked : s.control ≠ .booted → Gone s s.platformPid → ∀ left, Asked s left →
      Asked { s with servers := ps } left) : Inv { s with servers := ps } := by
  have cleared : s.control ≠ .booted → ∀ {hs : List Handler}, Cleared s hs →
      Cleared { s with servers := ps } hs := by
    intro hc hs hcl
    match hs with
    | [] => exact ⟨hcl.1, hasked hc hcl.1 [] hcl.2.1, hcl.2.2⟩
    | .killPlatform :: _ | .waitPlatform :: _ => exact trivial
    | .listServers :: _ => exact hcl
    | .stopServers left :: _ => exact ⟨hcl.1, hasked hc hcl.1 left hcl.2⟩
    | .killXvfb :: _ | .waitXvfb :: _ => exact ⟨hcl.1, hasked hc hcl.1 [] hcl.2⟩
  exact {
    platforms := h.platforms, displays := h.displays, search := h.search, early := h.early
    reap := h.reap, forget := h.forget, waits := h.waits
    leave := fun outcome hc => cleared (by simp [show s.control = _ from hc]) (h.leave outcome hc)
    ended := fun outcome hc =>
      ⟨(h.ended outcome hc).1, cleared (by simp [show s.control = _ from hc]) (h.ended outcome hc).2⟩ }

/-! ## The traps -/

/-- A change of the traps alone. -/
theorem Inv.trapped (h : Inv s) {hs : List Handler}
    (hforget : hs = [] → Gone s s.xvfbPid) (hleave : ∀ outcome, s.control = .leaving outcome →
      Cleared s hs) (hended : ∀ outcome, s.control ≠ .exited outcome)
    (hwaits : ∀ hd ∈ hs, (hd = .waitPlatform → Told s s.platformPid) ∧
      (hd = .waitXvfb → Told s s.xvfbPid)) : Inv { s with handlers := hs } where
  platforms := h.platforms
  displays := h.displays
  search := h.search
  early := h.early
  reap := h.reap
  forget _ _ hnil := hforget hnil
  leave := hleave
  ended outcome hc := absurd hc (hended outcome)
  waits := hwaits

@[simp] theorem tell_control (s : State) (pid : Option Nat) : (s.tell pid).control = s.control := by
  cases pid <;> rfl

@[simp] theorem tell_handlers (s : State) (pid : Option Nat) :
    (s.tell pid).handlers = s.handlers := by
  cases pid <;> rfl

@[simp] theorem tell_platformPid (s : State) (pid : Option Nat) :
    (s.tell pid).platformPid = s.platformPid := by
  cases pid <;> rfl

@[simp] theorem tell_xvfbPid (s : State) (pid : Option Nat) :
    (s.tell pid).xvfbPid = s.xvfbPid := by
  cases pid <;> rfl

theorem told_tell (s : State) (pid : Option Nat) : Told (s.tell pid) pid := by
  rintro i c rfl hc
  simp only [State.tell, List.getElem?_modify] at hc
  obtain ⟨c, -, rfl⟩ := Option.map_eq_some_iff.mp hc
  simp

theorem asked_listed (s : State) : Asked s s.listed := by
  intro i p hi _ _ halive
  obtain ⟨hlt, -⟩ := List.getElem?_eq_some_iff.mp hi
  exact .inr (List.mem_filter.mpr ⟨List.mem_range.mpr hlt, by simp [hi, halive]⟩)

/-- A server that is stopped was told to. -/
theorem Asked.stops {i : Nat} {left : List Nat} (h : Asked s (i :: left)) :
    Asked { s with servers := s.servers.modify i Server.stop } left := by
  intro j p' hj hours hlate halive
  obtain ⟨p, hp, rfl⟩ := Option.map_eq_some_iff.mp ((List.getElem?_modify ..).symm.trans hj)
  by_cases hij : i = j
  · simp only [if_pos hij] at hours halive ⊢
    exact .inl (by simp [Server.stop, show p.ours = true from hours, show p.alive = true from halive])
  · simp only [if_neg hij] at hours hlate halive ⊢
    rcases h j p hp hours hlate halive with htold | hmem
    · exact .inl htold
    · exact .inr ((List.mem_cons.mp hmem).resolve_left (Ne.symm hij))

theorem Asked.stopped {left : List Nat} (h : Asked s left) (i : Nat) :
    Asked { s with servers := s.servers.modify i Server.stop } left :=
  (h.mono (List.subset_cons_self i left)).stops

/-- While a trap runs, the script has not ended. -/
theorem Inv.running (h : Inv s) {hd : Handler} {rest : List Handler} (hs : s.handlers = hd :: rest)
    (outcome : Outcome) : s.control ≠ .exited outcome := by
  intro hc
  rw [(h.ended outcome hc).1] at hs
  cases hs

theorem Inv.handle (h : Inv s) (hstep : s.handle = some s') : Inv s' := by
  unfold State.handle at hstep
  cases hs : s.handlers with
  | nil => simp [hs] at hstep
  | cons hd rest =>
    have running := h.running hs
    have rests : ∀ hd' ∈ rest, (hd' = .waitPlatform → Told s s.platformPid) ∧
        (hd' = .waitXvfb → Told s s.xvfbPid) :=
      fun hd' hmem => h.waits hd' (by rw [hs]; exact List.mem_cons_of_mem _ hmem)
    have cleared : ∀ outcome, s.control = .leaving outcome → Cleared s (hd :: rest) :=
      fun outcome hc => hs ▸ h.leave outcome hc
    cases hd with
    | killPlatform =>
      simp only [hs, Option.some.injEq] at hstep
      subst hstep
      have ht := h.tell s.platformPid
      refine ht.trapped nofun (fun _ _ => trivial) (by simpa using running) fun hd' hmem => ?_
      rcases List.mem_cons.mp hmem with rfl | hmem
      · exact ⟨fun _ => by simpa using told_tell s s.platformPid, nofun⟩
      · exact ht.waits hd' (by simp [hs, hmem])
    | waitPlatform =>
      simp only [hs] at hstep
      split at hstep
      · cases hstep
      · rename_i halive
        obtain rfl := Option.some.inj hstep
        refine h.trapped nofun (fun _ _ => gone_of_not_alive (by simpa using halive)) running
          fun hd' hmem => ?_
        rcases List.mem_cons.mp hmem with rfl | hmem
        · exact ⟨nofun, nofun⟩
        · exact rests hd' hmem
    | listServers =>
      simp only [hs, Option.some.injEq] at hstep
      subst hstep
      refine h.trapped nofun (fun outcome hc => ⟨cleared outcome hc, asked_listed s⟩) running
        fun hd' hmem => ?_
      rcases List.mem_cons.mp hmem with rfl | hmem
      · exact ⟨nofun, nofun⟩
      · exact rests hd' hmem
    | stopServers left =>
      cases left with
      | nil =>
        simp only [hs, Option.some.injEq] at hstep
        subst hstep
        refine h.trapped nofun cleared running fun hd' hmem => ?_
        rcases List.mem_cons.mp hmem with rfl | hmem
        · exact ⟨nofun, nofun⟩
        · exact rests hd' hmem
      | cons i left =>
        simp only [hs, Option.some.injEq] at hstep
        subst hstep
        have served : Inv { s with servers := s.servers.modify i Server.stop } :=
          h.served fun _ _ _ hasked => hasked.stopped i
        refine served.trapped nofun (fun outcome hc => ⟨(cleared outcome hc).1,
          (cleared outcome hc).2.stops⟩) running fun hd' hmem => ?_
        rcases List.mem_cons.mp hmem with rfl | hmem
        · exact ⟨nofun, nofun⟩
        · exact rests hd' hmem
    | killXvfb =>
      simp only [hs, Option.some.injEq] at hstep
      subst hstep
      have ht := h.tell s.xvfbPid
      have told := ht.leave
      simp only [tell_control, tell_handlers, hs] at told
      refine ht.trapped nofun (fun outcome hc => told outcome (by simpa using hc))
        (by simpa using running) fun hd' hmem => ?_
      rcases List.mem_cons.mp hmem with rfl | hmem
      · exact ⟨nofun, fun _ => by simpa using told_tell s s.xvfbPid⟩
      · exact ht.waits hd' (by simp [hs, hmem])
    | waitXvfb =>
      simp only [hs] at hstep
      split at hstep
      · cases hstep
      · rename_i halive
        obtain rfl := Option.some.inj hstep
        have gone : Gone s s.xvfbPid := gone_of_not_alive (by simpa using halive)
        exact h.trapped (fun _ => gone)
          (fun outcome hc => cleared_of_nil ⟨(cleared outcome hc).1, (cleared outcome hc).2, gone⟩ rest)
          running rests

/-- What a signal interrupts: it takes the innermost trap past its command, or the
script past the `wait` for an `Xvfb` that is given up. -/
theorem interrupt_cases (s : State) :
    (∃ hs, s.interrupt = { s with handlers := hs } ∧
      ∀ hd ∈ hs, hd ∈ s.handlers ∨ (hd ≠ .waitPlatform ∧ hd ≠ .waitXvfb)) ∨
    ∃ rest, s.control = .reaping rest ∧ s.handlers = [] ∧
      s.interrupt = s.goto (.forgetting rest) := by
  have next : ∀ {hd₀ hd₁ : Handler} {rest : List Handler}, s.handlers = hd₀ :: rest →
      hd₁ ≠ .waitPlatform → hd₁ ≠ .waitXvfb → ∀ hd ∈ hd₁ :: rest,
        hd ∈ s.handlers ∨ (hd ≠ .waitPlatform ∧ hd ≠ .waitXvfb) := by
    intro hd₀ hd₁ rest hs hplatform hxvfb hd hmem
    rcases List.mem_cons.mp hmem with rfl | hmem
    · exact .inr ⟨hplatform, hxvfb⟩
    · exact .inl (by simp [hs, hmem])
  unfold State.interrupt
  split
  · rename_i rest hs
    exact .inl ⟨_, rfl, next hs nofun nofun⟩
  · rename_i rest hs
    exact .inl ⟨_, rfl, next hs nofun nofun⟩
  · rename_i left rest hs
    exact .inl ⟨_, rfl, next hs nofun nofun⟩
  · rename_i rest hs
    exact .inl ⟨_, rfl, fun hd hmem => .inl (by simp [hs, hmem])⟩
  · exact .inl ⟨s.handlers, rfl, fun hd hmem => .inl hmem⟩
  · rename_i hs
    split
    · rename_i rest hc
      exact .inr ⟨rest, hc, hs, rfl⟩
    · exact .inl ⟨s.handlers, rfl, fun hd hmem => .inl hmem⟩

theorem Inv.pushed (h : Inv s) (hended : ∀ outcome, s.control ≠ .exited outcome)
    {hs : List Handler}
    (hhs : ∀ hd ∈ hs, hd ∈ s.handlers ∨ (hd ≠ .waitPlatform ∧ hd ≠ .waitXvfb)) :
    Inv { s with handlers := .killPlatform :: hs } := by
  refine h.trapped nofun (fun _ _ => trivial) hended fun hd hmem => ?_
  rcases List.mem_cons.mp hmem with rfl | hmem
  · exact ⟨nofun, nofun⟩
  · rcases hhs hd hmem with hmem | ⟨hplatform, hxvfb⟩
    · exact h.waits hd hmem
    · exact ⟨fun heq => absurd heq hplatform, fun heq => absurd heq hxvfb⟩

/-- The script is past its `wait` for an `Xvfb` that is given up. -/
theorem Inv.reaped (h : Inv s) {rest : List Nat} (hc : s.control = .reaping rest)
    {hs : List Handler} (hgone : hs = [] → Gone s s.xvfbPid) (hhs : ∀ hd ∈ hs, hd = .killPlatform) :
    Inv { s with control := .forgetting rest, handlers := hs } where
  platforms i c hi hkind := by simpa [hc] using h.platforms i c hi hkind
  displays i c hi hkind halive := by simpa [hc] using h.displays i c hi hkind halive
  search := nofun
  early _ := h.early (by rw [hc]; rfl)
  reap := nofun
  forget _ _ hnil := hgone hnil
  leave := nofun
  ended := nofun
  waits hd hmem := by
    rw [hhs hd hmem]
    exact ⟨nofun, nofun⟩

theorem signal_cases {interrupts : Bool} (hstep : s.signal interrupts = some s') :
    (∀ outcome, s.control ≠ .exited outcome) ∧ s' = s.trapped interrupts := by
  unfold State.signal at hstep
  split at hstep
  · cases hstep
  · rename_i hended
    obtain ⟨-, hsome⟩ := Option.ite_none_left_eq_some.mp hstep
    exact ⟨hended, (Option.some.inj hsome).symm⟩
  · rename_i hended _
    exact ⟨hended, (Option.some.inj hstep).symm⟩

theorem Inv.signal (h : Inv s) {interrupts : Bool} (hstep : s.signal interrupts = some s') :
    Inv s' := by
  obtain ⟨hended, rfl⟩ := signal_cases hstep
  cases interrupts with
  | false => exact h.pushed hended fun hd hmem => .inl hmem
  | true =>
    rcases interrupt_cases s with ⟨hs, heq, hhs⟩ | ⟨rest, hc, hnil, heq⟩
    · simp only [State.trapped, heq, if_true]
      exact h.pushed hended hhs
    · simp only [State.trapped, heq, if_true]
      refine h.reaped hc nofun fun hd hmem => ?_
      simpa [State.goto, hnil] using hmem

/-! ## The script -/

/-- A process has been started and not been noted yet. -/
def unnamed : Control → Bool
  | .spawned .. | .booted => true
  | _ => false

/-- The invariant says something of this control of its own. -/
def watched : Control → Bool
  | .spawned .. | .booted | .reaping _ | .forgetting _ | .leaving _ | .exited _ => true
  | _ => false

theorem Inv.noted (h : Inv s) (hs : unnamed s.control = false) {i : Nat} {c : Child}
    (hc : s.children[i]? = some c) : (c.kind = .platform → s.platformPid = some i) ∧
      (c.kind = .xvfb → c.alive = true → s.xvfbPid = some i) := by
  constructor
  · intro hkind
    rcases h.platforms i c hc hkind with hpid | ⟨hb, -⟩
    · exact hpid
    · rw [hb] at hs
      cases hs
  · intro hkind halive
    rcases h.displays i c hc hkind halive with hpid | ⟨⟨n, rest, hb⟩, -⟩
    · exact hpid
    · rw [hb] at hs
      cases hs

/-- A step from one place of the script to another that starts nothing. -/
theorem Inv.moved (h : Inv s) (hs : unnamed s.control = false) {next : Control}
    (hnext : watched next = false) (hsearch : searching next = true → s.xvfbPid = none)
    (hearly : Teardown.early next = true → s.platformPid = none) (display : Option Nat)
    (log : List Entry) : Inv { s with control := next, display := display, log := log } where
  platforms i c hc hkind := .inl ((h.noted hs hc).1 hkind)
  displays i c hc hkind halive := .inl ((h.noted hs hc).2 hkind halive)
  search := hsearch
  early := hearly
  reap _ hc := by simp [show next = _ from hc, watched] at hnext
  forget _ hc := by simp [show next = _ from hc, watched] at hnext
  leave _ hc := by simp [show next = _ from hc, watched] at hnext
  ended _ hc := by simp [show next = _ from hc, watched] at hnext
  waits := h.waits

theorem Inv.leaves (h : Inv s) (hs : unnamed s.control = false) (outcome : Outcome)
    (log : List Entry) :
    Inv { s with control := .leaving outcome, handlers := [.killPlatform], log := log } where
  platforms i c hc hkind := .inl ((h.noted hs hc).1 hkind)
  displays i c hc hkind halive := .inl ((h.noted hs hc).2 hkind halive)
  search := nofun
  early := nofun
  reap := nofun
  forget := nofun
  leave _ _ := trivial
  ended := nofun
  waits hd hmem := by
    rw [List.mem_singleton.mp hmem]
    exact ⟨nofun, nofun⟩

theorem Inv.aborts (h : Inv s) (hs : unnamed s.control = false) (log : List Entry) {status : Nat}
    (hstep : State.abort { s with log := log } status = some s') : Inv s' := by
  obtain ⟨-, hsome⟩ := Option.ite_none_left_eq_some.mp hstep
  obtain rfl := Option.some.inj hsome
  exact h.leaves hs (.aborted status) log

/-- A process joins the others, and the script is about to note it. -/
theorem getElem?_spawn {cs : List Child} {kind : Kind} {i : Nat} {c : Child}
    (hc : (cs ++ [({ kind := kind } : Child)])[i]? = some c) :
    cs[i]? = some c ∨ (c.kind = kind ∧ i = cs.length) := by
  rcases Nat.lt_trichotomy i cs.length with hlt | heq | hgt
  · rw [List.getElem?_append_left hlt] at hc
    exact .inl hc
  · rw [List.getElem?_append_right heq.ge, heq, Nat.sub_self] at hc
    exact .inr ⟨by rw [← Option.some.inj hc], heq⟩
  · rw [List.getElem?_eq_none (by simp; omega)] at hc
    cases hc

theorem Inv.spawns (h : Inv s) (hnil : s.handlers = []) {n : Nat} {rest : List Nat}
    (hc : s.control = .search (n :: rest)) : Inv ((s.spawn .xvfb).goto (.spawned n rest)) where
  platforms i c hi hkind := by
    rcases getElem?_spawn hi with hi | ⟨hxvfb, -⟩
    · exact .inl ((h.noted (by rw [hc]; rfl) hi).1 hkind)
    · rw [hxvfb] at hkind
      cases hkind
  displays i c hi hkind halive := by
    rcases getElem?_spawn hi with hi | ⟨-, rfl⟩
    · exact .inl ((h.noted (by rw [hc]; rfl) hi).2 hkind halive)
    · exact .inr ⟨⟨n, rest, rfl⟩, by simp [State.spawn, State.goto]⟩
  search _ := h.search (by rw [hc]; rfl)
  early _ := h.early (by rw [hc]; rfl)
  reap := nofun
  forget := nofun
  leave := nofun
  ended := nofun
  waits hd hmem := by simp [State.spawn, State.goto, hnil] at hmem

theorem Inv.boots (h : Inv s) (hnil : s.handlers = []) (hc : s.control = .boot) :
    Inv ((s.spawn .platform).goto .booted) where
  platforms i c hi hkind := by
    rcases getElem?_spawn hi with hi | ⟨-, rfl⟩
    · exact .inl ((h.noted (by rw [hc]; rfl) hi).1 hkind)
    · exact .inr ⟨rfl, by simp [State.spawn, State.goto]⟩
  displays i c hi hkind halive := by
    rcases getElem?_spawn hi with hi | ⟨hplatform, -⟩
    · exact .inl ((h.noted (by rw [hc]; rfl) hi).2 hkind halive)
    · rw [hplatform] at hkind
      cases hkind
  search := nofun
  early _ := h.early (by rw [hc]; rfl)
  reap := nofun
  forget := nofun
  leave := nofun
  ended := nofun
  waits hd hmem := by simp [State.spawn, State.goto, hnil] at hmem

theorem Inv.notesXvfb (h : Inv s) (hnil : s.handlers = []) {n : Nat} {rest : List Nat}
    (hc : s.control = .spawned n rest) :
    Inv { s with control := .polling n rest 0, xvfbPid := some s.last } where
  platforms i c hi hkind := by simpa [hc] using h.platforms i c hi hkind
  displays i c hi hkind halive := by
    rcases h.displays i c hi hkind halive with hpid | ⟨-, hlast⟩
    · rw [h.search (by rw [hc]; rfl)] at hpid
      cases hpid
    · exact .inl (congrArg some (by rw [State.last]; omega))
  search := nofun
  early _ := h.early (by rw [hc]; rfl)
  reap := nofun
  forget := nofun
  leave := nofun
  ended := nofun
  waits hd hmem := by simp [hnil] at hmem

theorem Inv.notesPlatform (h : Inv s) (hnil : s.handlers = []) (hc : s.control = .booted) :
    Inv { s with control := .healthStart, platformPid := some s.last } where
  platforms i c hi hkind := by
    rcases h.platforms i c hi hkind with hpid | ⟨-, hlast⟩
    · rw [h.early (by rw [hc]; rfl)] at hpid
      cases hpid
    · exact .inl (congrArg some (by rw [State.last]; omega))
  displays i c hi hkind halive := by simpa [hc] using h.displays i c hi hkind halive
  search := nofun
  early := nofun
  reap := nofun
  forget := nofun
  leave := nofun
  ended := nofun
  waits hd hmem := by simp [hnil] at hmem

theorem Inv.forgets (h : Inv s) (hnil : s.handlers = []) {rest : List Nat}
    (hc : s.control = .forgetting rest) :
    Inv { s with control := .search rest, xvfbPid := none } where
  platforms i c hi hkind := by simpa [hc] using h.platforms i c hi hkind
  displays i c hi hkind halive := by
    have hpid := (h.noted (by rw [hc]; rfl) hi).2 hkind halive
    rw [h.forget rest hc hnil i c hpid hi] at halive
    cases halive
  search _ := rfl
  early _ := h.early (by rw [hc]; rfl)
  reap := nofun
  forget := nofun
  leave := nofun
  ended := nofun
  waits hd hmem := by simp [hnil] at hmem

/-- The `Xvfb` that is given up has been told to stop. -/
theorem Inv.givesUp (h : Inv s) (hnil : s.handlers = []) {rest : List Nat}
    (hc : s.control = .givingUp rest) : Inv ((s.tell s.xvfbPid).goto (.reaping rest)) := by
  have ht := h.tell s.xvfbPid
  exact {
    platforms := fun i c hi hkind => by simpa [State.goto, hc] using ht.platforms i c hi hkind
    displays := fun i c hi hkind halive => by
      simpa [State.goto, hc] using ht.displays i c hi hkind halive
    search := nofun
    early := fun _ => ht.early (by rw [tell_control, hc]; rfl)
    reap := fun _ _ => by
      show Told (s.tell s.xvfbPid) (s.tell s.xvfbPid).xvfbPid
      rw [tell_xvfbPid]
      exact told_tell s s.xvfbPid
    forget := nofun
    leave := nofun
    ended := nofun
    waits := fun hd hmem => by simp [State.goto, hnil] at hmem }

theorem Inv.exits (h : Inv s) (hnil : s.handlers = []) {outcome : Outcome}
    (hc : s.control = .leaving outcome) : Inv (s.goto (.exited outcome)) where
  platforms i c hi hkind := by simpa [State.goto, hc] using h.platforms i c hi hkind
  displays i c hi hkind halive := by simpa [State.goto, hc] using h.displays i c hi hkind halive
  search := nofun
  early := nofun
  reap := nofun
  forget := nofun
  leave := nofun
  ended _ _ := by
    have cleared := h.leave outcome hc
    rw [hnil] at cleared
    exact ⟨hnil, cleared⟩
  waits := h.waits

theorem Inv.advance (h : Inv s) (hnil : s.handlers = []) {a : Answer}
    (hstep : s.advance a = some s') : Inv s' := by
  have quiet : unnamed s.control = false → ∀ {next : Control}, watched next = false →
      searching next = false → Teardown.early next = false → ∀ log : List Entry,
      Inv { s with control := next, log := log } := fun hs next hnext hsearch hearly log =>
    h.moved hs hnext (by simp [hsearch]) (by simp [hearly]) s.display log
  unfold State.advance at hstep
  cases hc : s.control with
  | search rest =>
    have absent : s.xvfbPid = none := h.search (by rw [hc]; rfl)
    have unbooted : s.platformPid = none := h.early (by rw [hc]; rfl)
    cases rest with
    | nil =>
      cases a <;> simp only [hc, Option.some.injEq, reduceCtorEq] at hstep
      subst hstep
      exact h.moved (by rw [hc]; rfl) rfl (by rintro ⟨⟩) (fun _ => unbooted) s.display s.log
    | cons n rest =>
      cases a <;> simp only [hc, Option.some.injEq, reduceCtorEq] at hstep
      · subst hstep
        exact h.moved (by rw [hc]; rfl) rfl (fun _ => absent) (fun _ => unbooted) s.display s.log
      · subst hstep
        exact h.spawns hnil hc
  | spawned n rest =>
    cases a <;> simp only [hc, Option.some.injEq, reduceCtorEq] at hstep
    subst hstep
    exact h.notesXvfb hnil hc
  | polling n rest i =>
    have unbooted : s.platformPid = none := h.early (by rw [hc]; rfl)
    cases a <;> simp only [hc, Option.some.injEq, reduceCtorEq] at hstep
    subst hstep
    split
    · exact h.moved (by rw [hc]; rfl) rfl (by rintro ⟨⟩) (fun _ => unbooted) s.display s.log
    · exact h.moved (by rw [hc]; rfl) rfl (by rintro ⟨⟩) (fun _ => unbooted) s.display s.log
  | testing n rest i =>
    have unbooted : s.platformPid = none := h.early (by rw [hc]; rfl)
    cases a <;> simp only [hc, Option.some.injEq, reduceCtorEq] at hstep
    · subst hstep
      exact h.moved (by rw [hc]; rfl) rfl (by rintro ⟨⟩) (fun _ => unbooted) (some n) s.log
    · subst hstep
      exact h.moved (by rw [hc]; rfl) rfl (by rintro ⟨⟩) (fun _ => unbooted) s.display s.log
  | givingUp rest =>
    cases a <;> simp only [hc, Option.some.injEq, reduceCtorEq] at hstep
    subst hstep
    exact h.givesUp hnil hc
  | reaping rest =>
    cases a <;> simp only [hc, Option.ite_none_left_eq_some, Option.some.injEq,
      reduceCtorEq] at hstep
    obtain ⟨halive, rfl⟩ := hstep
    refine h.reaped hc (fun _ => gone_of_not_alive (by simpa using halive)) ?_
    rw [hnil]
    exact nofun
  | forgetting rest =>
    cases a <;> simp only [hc, Option.some.injEq, reduceCtorEq] at hstep
    subst hstep
    exact h.forgets hnil hc
  | boot =>
    cases a <;> simp only [hc, Option.some.injEq, reduceCtorEq] at hstep
    subst hstep
    exact h.boots hnil hc
  | booted =>
    cases a <;> simp only [hc, Option.some.injEq, reduceCtorEq] at hstep
    subst hstep
    exact h.notesPlatform hnil hc
  | healthStart | probeStart =>
    cases a <;> simp only [hc, Option.some.injEq, reduceCtorEq] at hstep
    · subst hstep
      exact quiet (by rw [hc]; rfl) rfl rfl rfl s.log
    · exact h.aborts (by rw [hc]; rfl) s.log hstep
  | healthTime deadline =>
    cases a <;> simp only [hc, Option.some.injEq, reduceCtorEq] at hstep
    · subst hstep
      split
      · exact quiet (by rw [hc]; rfl) rfl rfl rfl s.log
      · exact quiet (by rw [hc]; rfl) rfl rfl rfl s.log
    · subst hstep
      exact quiet (by rw [hc]; rfl) rfl rfl rfl s.log
  | healthAlive | probeAlive =>
    cases a <;> simp only [hc, Option.some.injEq, reduceCtorEq] at hstep
    subst hstep
    split
    · exact quiet (by rw [hc]; rfl) rfl rfl rfl s.log
    · exact quiet (by rw [hc]; rfl) rfl rfl rfl s.log
  | healthCall deadline =>
    cases a <;> simp only [hc, Option.some.injEq, reduceCtorEq] at hstep
    · subst hstep
      exact quiet (by rw [hc]; rfl) rfl rfl rfl _
    · subst hstep
      exact quiet (by rw [hc]; rfl) rfl rfl rfl _
  | healthSleep | probeSleep =>
    cases a <;> simp only [hc, Option.ite_none_right_eq_some, Option.some.injEq,
      reduceCtorEq] at hstep
    · obtain ⟨-, rfl⟩ := hstep
      exact quiet (by rw [hc]; rfl) rfl rfl rfl s.log
    · exact h.aborts (by rw [hc]; rfl) s.log hstep
  | probeTime deadline saw =>
    have timesOut : Inv (s.timeOut saw) := by
      unfold State.timeOut
      split
      · exact h.leaves (by rw [hc]; rfl) _ s.log
      · exact quiet (by rw [hc]; rfl) rfl rfl rfl s.log
    cases a <;> simp only [hc, Option.some.injEq, reduceCtorEq] at hstep
    · subst hstep
      split
      · exact quiet (by rw [hc]; rfl) rfl rfl rfl s.log
      · exact timesOut
    · subst hstep
      exact timesOut
  | probeCall deadline saw =>
    cases a <;> simp only [hc, Option.some.injEq, reduceCtorEq] at hstep
    · subst hstep
      split
      · exact quiet (by rw [hc]; rfl) rfl rfl rfl _
      · exact h.leaves (by rw [hc]; rfl) _ _
      · exact quiet (by rw [hc]; rfl) rfl rfl rfl _
      · exact quiet (by rw [hc]; rfl) rfl rfl rfl _
    · exact h.aborts (by rw [hc]; rfl) _ hstep
  | harness =>
    cases a <;> simp only [hc, Option.some.injEq, reduceCtorEq] at hstep
    subst hstep
    exact quiet (by rw [hc]; rfl) rfl rfl rfl s.log
  | running =>
    cases a <;> simp only [hc, Option.some.injEq, reduceCtorEq] at hstep
    subst hstep
    exact h.leaves (by rw [hc]; rfl) _ _
  | failing outcome =>
    cases a <;> simp only [hc, Option.some.injEq, reduceCtorEq] at hstep
    · subst hstep
      exact h.leaves (by rw [hc]; rfl) _ s.log
    · exact h.aborts (by rw [hc]; rfl) s.log hstep
  | leaving outcome =>
    cases a <;> simp only [hc, Option.some.injEq, reduceCtorEq] at hstep
    subst hstep
    exact h.exits hnil hc
  | exited outcome => cases a <;> simp [hc] at hstep

theorem reachable_inv (h : Reachable launcher s) : Inv s := by
  refine h.invariant (P := Inv) ?_ ?_
  · rintro s (rfl | rfl)
    · exact ⟨nofun, nofun, fun _ => rfl, fun _ => rfl, nofun, nofun, nofun, nofun, nofun⟩
    · exact ⟨nofun, nofun, fun _ => rfl, fun _ => rfl, nofun, nofun, nofun, nofun, nofun⟩
  · intro s e s' hinv hstep
    cases e with
    | script a =>
      obtain ⟨hnil, hadvance⟩ := Option.ite_none_right_eq_some.mp hstep
      exact hinv.advance hnil hadvance
    | trap => exact hinv.handle hstep
    | signal interrupts => exact hinv.signal hstep
    | died pid =>
      obtain rfl := Option.some.inj hstep
      exact hinv.aged (ages_modify _ _ fun c => ⟨rfl, nofun, id⟩)
    | serverStarted ours =>
      obtain rfl := Option.some.inj hstep
      refine hinv.served fun hc hgone left hasked i p hi hours hlate halive => ?_
      rw [List.getElem?_append] at hi
      split at hi
      · exact hasked i p hi hours hlate halive
      · obtain rfl := List.mem_singleton.mp (List.mem_of_getElem? hi)
        simp [hinv.platform_down hc hgone] at hlate
    | serverDied i =>
      obtain rfl := Option.some.inj hstep
      refine hinv.served fun hc hgone left hasked j p' hj hours hlate halive => ?_
      obtain ⟨p, hp, rfl⟩ := Option.map_eq_some_iff.mp ((List.getElem?_modify ..).symm.trans hj)
      by_cases hij : i = j
      · simp [hij] at halive
      · simp only [if_neg hij] at hours hlate halive ⊢
        exact hasked j p hp hours hlate halive
    | tick =>
      obtain rfl := Option.some.inj hstep
      exact ⟨hinv.platforms, hinv.displays, hinv.search, hinv.early, hinv.reap, hinv.forget,
        hinv.leave, hinv.ended, hinv.waits⟩

/-! ## At the end, and before it -/

/-- What a command that is not in the foreground may answer. -/
def answers : Control → List Answer
  | .search (_ :: _) | .testing .. | .healthTime _ | .probeTime .. => [.ok, .no]
  | .healthCall _ | .probeCall .. | .running | .exited _ => []
  | _ => [.ok]

/-- Whatever the next command answers, the script or the trap that runs goes on. -/
def GoesOn (s : State) : Prop :=
  (answers s.control ≠ [] ∧ ∀ a ∈ answers s.control, (s.next (.script a)).isSome = true) ∨
    (s.next .trap).isSome = true

def rows : Probe := { out := "\"rows\"".toList }

/-- A run to its end. A signal takes the trap on `EXIT` past its `wait` while the
platform still runs, and another one ends the `pgrep` of the trap it started. -/
def interrupted : List Event :=
  [.script .no, .script .ok, .script .ok, .script .ok, .script .ok, .script .ok, .serverStarted true,
    .serverStarted false, .script .ok, .script .ok, .script .ok, .script .ok, .script .ok, .script .ok,
    .script .ok, .script (.printed rows), .script .ok, .script (.code 0), .trap, .signal true, .trap,
    .died 1, .trap, .serverStarted true, .signal true, .trap, .trap, .trap, .trap, .serverDied 2,
    .trap, .trap, .trap, .trap, .died 0] ++ List.replicate 10 .trap ++ [.script .ok]

def stopped : State where
  control := .exited (.harness 0)
  children := [⟨.xvfb, false, true⟩, ⟨.platform, false, true⟩]
  platformPid := some 1
  xvfbPid := some 0
  display := some 99
  servers := [⟨true, false, true, true⟩, ⟨false, false, true, false⟩, ⟨true, true, false, false⟩]
  log := [.health true, .probe rows, .harness 0]

end DeltaForgeBench.Launcher.Teardown
