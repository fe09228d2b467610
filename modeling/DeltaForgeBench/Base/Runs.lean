import Mathlib.Data.List.Basic

/-! # Runs of a system

A system has states it may start in and labelled steps it may take; the choice
among the steps is nobody's, so a statement about every run is one about every
interleaving of the parties whose steps they are. -/
namespace DeltaForgeBench.Base.Runs

structure System (σ ε : Type*) where
  start : σ → Prop
  step : σ → ε → σ → Prop

variable {σ ε : Type*} {M : System σ ε}

/-- The runs of a system, with their labels in order and the state they reach. -/
inductive Run (M : System σ ε) : List ε → σ → Prop
  | start {s : σ} : M.start s → Run M [] s
  | step {es : List ε} {e : ε} {s s' : σ} : Run M es s → M.step s e s' → Run M (es ++ [e]) s'

def Reachable (M : System σ ε) (s : σ) : Prop := ∃ es, Run M es s

/-- What holds at the start of a run, and is kept by a step whatever was done
before it, holds of every run. -/
theorem Run.history {P : List ε → σ → Prop} (hstart : ∀ s, M.start s → P [] s)
    (hstep : ∀ es e s s', P es s → M.step s e s' → P (es ++ [e]) s') {es : List ε} {s : σ}
    (h : Run M es s) : P es s := by
  induction h with
  | start h => exact hstart _ h
  | step _ hs ih => exact hstep _ _ _ _ ih hs

/-- What holds at the start and is kept by every step holds of every state reached. -/
theorem Reachable.invariant {P : σ → Prop} (hstart : ∀ s, M.start s → P s)
    (hstep : ∀ s e s', P s → M.step s e s' → P s') {s : σ} (h : Reachable M s) : P s := by
  obtain ⟨es, hrun⟩ := h
  exact hrun.history (P := fun _ s => P s) hstart fun _ e s s' => hstep s e s'

/-- Events played in a row, when the steps are those of a function. -/
theorem Run.play {next : σ → ε → Option σ} (hnext : ∀ s e s', next s e = some s' → M.step s e s')
    {before es : List ε} {s s' : σ} (h : Run M before s) (hplay : es.foldlM next s = some s') :
    Run M (before ++ es) s' := by
  induction es generalizing before s with
  | nil =>
    obtain rfl := Option.some.inj hplay
    rwa [List.append_nil]
  | cons e es ih =>
    obtain ⟨s₁, hfirst, hrest⟩ := Option.bind_eq_some_iff.mp hplay
    simpa using ih (h.step (hnext _ _ _ hfirst)) hrest

/-- A step may use, at both of its ends, an invariant that is known already. -/
theorem Reachable.strengthen {P Q : σ → Prop} (known : ∀ s, Reachable M s → Q s)
    (hstart : ∀ s, M.start s → P s)
    (hstep : ∀ s e s', Q s → Q s' → P s → M.step s e s' → P s') {s : σ} (h : Reachable M s) :
    P s := by
  obtain ⟨es, hrun⟩ := h
  induction hrun with
  | start h => exact hstart _ h
  | step hrun hs ih => exact hstep _ _ _ (known _ ⟨_, hrun⟩) (known _ ⟨_, hrun.step hs⟩) ih hs

end DeltaForgeBench.Base.Runs
