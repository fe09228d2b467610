import Mathlib.Data.List.Basic

/-! # Interruptible programs

A program works on a state and either finishes with a value or halts early;
the state it has reached survives in both cases. The rules below relate a
precondition to what holds at a normal end and to what holds at a halt. -/
namespace DeltaForgeBench.Base.Interrupt

/-- Why a program did not reach its end. -/
inductive Halt
  | raised | killed
  deriving DecidableEq, Repr

def Program (σ α : Type) := σ → Except Halt α × σ

variable {σ α β ι : Type}

instance : Monad (Program σ) where
  pure a := fun s => (.ok a, s)
  bind p f := fun s => match p s with
    | (.ok a, s') => f a s'
    | (.error h, s') => (.error h, s')

def get : Program σ σ := fun s => (.ok s, s)

def modify (f : σ → σ) : Program σ Unit := fun s => (.ok (), f s)

def halt (h : Halt) : Program σ α := fun s => (.error h, s)

/-- A `for` loop. -/
def forEach (body : ι → Program σ Unit) : List ι → Program σ Unit
  | [] => pure ()
  | x :: xs => do
    body x
    forEach body xs

/-- A `for` loop that a body may leave: `false` means it did. -/
def forWhile (body : ι → Program σ Bool) : List ι → Program σ Bool
  | [] => pure true
  | x :: xs => do
    let go ← body x
    if go then forWhile body xs else pure false

/-- A `try` that goes on behind an exception; the value says whether there was none. -/
def contained (p : Program σ Unit) : Program σ Bool := fun s => match p s with
  | (.ok (), s') => (.ok true, s')
  | (.error .raised, s') => (.ok false, s')
  | (.error .killed, s') => (.error .killed, s')

theorem run_bind (p : Program σ α) (f : α → Program σ β) (s : σ) :
    (p >>= f) s = match p s with
      | (.ok a, s') => f a s'
      | (.error h, s') => (.error h, s') := rfl

theorem run_pure (a : α) (s : σ) : (pure a : Program σ α) s = (.ok a, s) := rfl

theorem run_get (s : σ) : get s = (.ok s, s) := rfl

theorem run_modify (f : σ → σ) (s : σ) : modify f s = (.ok (), f s) := rfl

/-! ## Triples -/

/-- From a state in `P`, a normal end satisfies `Q` and a halt satisfies `R`. -/
def Triple (P : σ → Prop) (p : Program σ α) (Q : α → σ → Prop) (R : Halt → σ → Prop) : Prop :=
  ∀ s, P s → match p s with
    | (.ok a, s') => Q a s'
    | (.error h, s') => R h s'

variable {P P' : σ → Prop} {Q : α → σ → Prop} {Q' : β → σ → Prop} {R R' : Halt → σ → Prop}

theorem Triple.pure {a : α} (h : ∀ s, P s → Q a s) : Triple P (Pure.pure a) Q R :=
  fun s hs => h s hs

theorem Triple.modify {f : σ → σ} {Q : Unit → σ → Prop} (h : ∀ s, P s → Q () (f s)) :
    Triple P (modify f) Q R :=
  fun s hs => h s hs

theorem Triple.halt {e : Halt} (h : ∀ s, P s → R e s) : Triple P (halt e : Program σ α) Q R :=
  fun s hs => h s hs

theorem Triple.bind {p : Program σ α} {f : α → Program σ β}
    (hp : Triple P p Q R) (hf : ∀ a, Triple (Q a) (f a) Q' R) : Triple P (p >>= f) Q' R := by
  intro s hs
  have first := hp s hs
  change match (match p s with | (.ok a, s') => f a s' | (.error h, s') => (.error h, s')) with
    | (.ok b, s') => Q' b s'
    | (.error h, s') => R h s'
  cases hrun : p s with
  | mk exit s' =>
    rw [hrun] at first
    cases exit with
    | ok a => exact hf a s' first
    | error h => exact first

/-- A look at the state leaves it as it is. -/
theorem Triple.read {k : σ → Program σ α} (h : ∀ s, P s → Triple (· = s) (k s) Q R) :
    Triple P (DeltaForgeBench.Base.Interrupt.get >>= k) Q R :=
  fun s hs => h s hs s rfl

/-- What a triple says of one run. -/
theorem Triple.run {p : Program σ α} {s : σ} (h : Triple (· = s) p Q R) :
    (∃ a s', p s = (.ok a, s') ∧ Q a s') ∨ ∃ e s', p s = (.error e, s') ∧ R e s' := by
  have ended := h s rfl
  cases hrun : p s with
  | mk exit s' =>
    rw [hrun] at ended
    cases exit with
    | ok a => exact .inl ⟨a, s', rfl, ended⟩
    | error e => exact .inr ⟨e, s', rfl, ended⟩

theorem Triple.weaken {p : Program σ α} {Q₁ : α → σ → Prop} (hp : Triple P p Q R)
    (pre : ∀ s, P' s → P s) (post : ∀ a s, Q a s → Q₁ a s) (stop : ∀ h s, R h s → R' h s) :
    Triple P' p Q₁ R' := by
  intro s hs
  have h := hp s (pre s hs)
  cases hrun : p s with
  | mk exit s' =>
    rw [hrun] at h
    cases exit with
    | ok a => exact post a s' h
    | error e => exact stop e s' h

theorem Triple.and {p : Program σ α} {Q₁ : α → σ → Prop} (h : Triple P p Q R)
    (h' : Triple P p Q₁ R') :
    Triple P p (fun a s => Q a s ∧ Q₁ a s) (fun e s => R e s ∧ R' e s) := by
  intro s hs
  have first := h s hs
  have second := h' s hs
  cases hrun : p s with
  | mk exit s' =>
    rw [hrun] at first second
    cases exit with
    | ok a => exact ⟨first, second⟩
    | error e => exact ⟨first, second⟩

theorem Triple.of_states {p : Program σ α} (h : ∀ s, P s → Triple (· = s) p Q R) :
    Triple P p Q R :=
  fun s hs => h s hs s rfl

theorem Triple.ite {c : Prop} [Decidable c] {p q : Program σ α}
    (hp : c → Triple P p Q R) (hq : ¬ c → Triple P q Q R) :
    Triple P (if c then p else q) Q R := by
  split
  · exact hp ‹_›
  · exact hq ‹_›

/-- A check that ends the block where it fails. -/
theorem Triple.guard {p : Program σ Bool} {k : Program σ β} {b : β} {M E : σ → Prop}
    (hp : Triple P p (fun go s => if go = true then M s else E s) R) (hk : Triple M k Q' R)
    (hstop : ∀ s, E s → Q' b s) :
    Triple P (p >>= fun go => if go = true then k else Pure.pure b) Q' R := by
  refine hp.bind fun go => ?_
  cases go with
  | true => exact hk
  | false => exact Triple.pure hstop

theorem Triple.contained {p : Program σ Unit} {Q : Bool → σ → Prop}
    (hp : Triple P p (fun _ => Q true)
      (fun h s => match h with | .raised => Q false s | .killed => R .killed s)) :
    Triple P (contained p) Q R := by
  intro s hs
  have inner := hp s hs
  unfold DeltaForgeBench.Base.Interrupt.contained
  cases hrun : p s with
  | mk exit s' =>
    rw [hrun] at inner
    match exit with
    | .ok () => exact inner
    | .error .raised => exact inner
    | .error .killed => exact inner

/-- The loop rule: `I` speaks about the part of the list already processed. -/
theorem Triple.forEach {body : ι → Program σ Unit} (I : List ι → σ → Prop) (xs : List ι)
    (step : ∀ done x, done ++ [x] <+: xs →
      Triple (I done) (body x) (fun _ => I (done ++ [x])) R) :
    Triple (I []) (forEach body xs) (fun _ => I xs) R := by
  suffices H : ∀ rest done, done ++ rest = xs →
      Triple (I done) (DeltaForgeBench.Base.Interrupt.forEach body rest) (fun _ => I xs) R from H xs [] rfl
  intro rest
  induction rest with
  | nil =>
    intro done h
    have h : done = xs := by simpa using h
    exact Triple.pure fun s hs => h ▸ hs
  | cons x rest ih =>
    intro done h
    have here := step done x ⟨rest, by simpa using h⟩
    exact here.bind fun _ => ih (done ++ [x]) (by simpa using h)

/-- The rule of a loop with an early exit: `E` holds where it is taken. -/
theorem Triple.forWhile {body : ι → Program σ Bool} (I : List ι → σ → Prop) (E : σ → Prop)
    (xs : List ι)
    (step : ∀ done x, done ++ [x] <+: xs →
      Triple (I done) (body x) (fun go s => if go then I (done ++ [x]) s else E s) R) :
    Triple (I []) (forWhile body xs) (fun go s => if go then I xs s else E s) R := by
  suffices H : ∀ rest done, done ++ rest = xs →
      Triple (I done) (DeltaForgeBench.Base.Interrupt.forWhile body rest) (fun go s => if go then I xs s else E s) R from
    H xs [] rfl
  intro rest
  induction rest with
  | nil =>
    intro done h
    have h : done = xs := by simpa using h
    exact Triple.pure fun s hs => by simpa [h] using hs
  | cons x rest ih =>
    intro done h
    have here := step done x ⟨rest, by simpa using h⟩
    refine here.bind fun go => ?_
    cases go with
    | true => simpa using ih (done ++ [x]) (by simpa using h)
    | false => exact Triple.pure fun s hs => by simpa using hs

end DeltaForgeBench.Base.Interrupt
