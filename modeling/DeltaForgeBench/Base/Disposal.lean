import DeltaForgeBench.Base.Handles

/-! # Disposal

An object may be disposed of more than once, and only the first time counts.
With the others left out, its calls are those of a handle. -/
namespace DeltaForgeBench.Base.Disposal
open DeltaForgeBench.Base.Handles

variable {κ : Type} [DecidableEq κ] {parent : κ → Option κ}

/-- The calls without the releases of what is gone already. -/
def firstReleases (gone : List κ) : List (Effect κ) → List (Effect κ)
  | [] => []
  | .release hs h :: t =>
    if h ∈ gone then firstReleases gone t else .release hs h :: firstReleases (h :: gone) t
  | e :: t => e :: firstReleases gone t

/-- Enters one call; a release of what is gone changes nothing. -/
def settle (parent : κ → Option κ) (l : Ledger κ) (e : Effect κ) : Option (Ledger κ) :=
  if ∃ h ∈ e.releases, h ∈ l.gone then some l else l.step parent e

/-- The ledger takes the whole trace, repeated releases included, and ends as `l`. -/
def Settles (parent : κ → Option κ) (t : List (Effect κ)) (l : Ledger κ) : Prop :=
  t.foldlM (settle parent) ⟨[], []⟩ = some l

theorem Settles.nil : Settles parent [] ⟨[], []⟩ := rfl

theorem Settles.concat {t : List (Effect κ)} {e : Effect κ} {l m : Ledger κ}
    (h : Settles parent t l) (hstep : settle parent l e = some m) :
    Settles parent (t ++ [e]) m := by
  rw [Settles, List.foldlM_append, show t.foldlM (settle parent) ⟨[], []⟩ = some l from h]
  simpa using hstep

/-! ## The moves of the ledger -/

theorem settle_use {l : Ledger κ} {hs : List κ} (h : ∀ x ∈ hs, x ∈ l.live) :
    settle parent l (.use hs) = some l := by
  simp only [settle, Effect.releases, Option.mem_def, reduceCtorEq, false_and, exists_false,
    if_false, Ledger.step]
  exact if_pos h

theorem settle_create {l : Ledger κ} {hs : List κ} {c : κ} (h : ∀ x ∈ hs, x ∈ l.live)
    (hlive : c ∉ l.live) (hgone : c ∉ l.gone) (hparent : ∀ p ∈ parent c, p ∈ l.live) :
    settle parent l (.create hs c) = some ⟨c :: l.live, l.gone⟩ := by
  simp only [settle, Effect.releases, Option.mem_def, reduceCtorEq, false_and, exists_false,
    if_false, Ledger.step]
  exact (if_pos h).trans (if_pos ⟨hlive, hgone, hparent⟩)

theorem settle_again {l : Ledger κ} {hs : List κ} {p : κ} (h : p ∈ l.gone) :
    settle parent l (.release hs p) = some l :=
  if_pos ⟨p, rfl, h⟩

theorem settle_release {l : Ledger κ} {p : κ} (hgone : p ∉ l.gone) (hlive : p ∈ l.live)
    (hchildren : ∀ c ∈ l.live, parent c ≠ some p) :
    settle parent l (.release [] p) = some ⟨l.live.erase p, p :: l.gone⟩ := by
  have first : ¬ ∃ h ∈ (Effect.release [] p).releases, h ∈ l.gone := by
    rintro ⟨h, hp, hmem⟩
    obtain rfl := Option.some.inj hp
    exact hgone hmem
  have uses : ∀ x ∈ (Effect.release [] p).uses, x ∈ l.live := by simpa [Effect.uses] using hlive
  rw [settle, if_neg first, Ledger.step, if_pos uses]
  exact if_pos hchildren

/-! ## The discipline -/

theorem step_gone {l m : Ledger κ} {e : Effect κ} (h : l.step parent e = some m) :
    m.gone = e.releases.toList ++ l.gone := by
  rcases (step_cases h).2 with ⟨-, hr, rfl⟩ | ⟨c, -, hr, -, -, -, rfl⟩ | ⟨p, -, hr, -, -, rfl⟩ <;>
    rw [hr] <;> rfl

/-- Leaving the repeated releases out comes to the same. -/
theorem foldlM_settle (t : List (Effect κ)) (l : Ledger κ) :
    t.foldlM (settle parent) l = (firstReleases l.gone t).foldlM (Ledger.step parent) l := by
  induction t generalizing l with
  | nil => rfl
  | cons e t ih =>
    have entered : settle parent l e = l.step parent e →
        firstReleases l.gone (e :: t) = e :: firstReleases (e.releases.toList ++ l.gone) t →
        (e :: t).foldlM (settle parent) l =
          (firstReleases l.gone (e :: t)).foldlM (Ledger.step parent) l := by
      intro hstep hfirst
      rw [hfirst, List.foldlM_cons, List.foldlM_cons, hstep]
      cases hm : l.step parent e with
      | none => rfl
      | some m =>
        show t.foldlM (settle parent) m = _
        rw [ih, step_gone hm]
        rfl
    cases e with
    | use hs => exact entered (if_neg (by simp [Effect.releases])) rfl
    | create hs c => exact entered (if_neg (by simp [Effect.releases])) rfl
    | release hs p =>
      by_cases hp : p ∈ l.gone
      · rw [List.foldlM_cons, settle_again hp, firstReleases, if_pos hp]
        exact ih l
      · refine entered (if_neg ?_) (if_neg hp)
        rintro ⟨h, heq, hmem⟩
        obtain rfl := Option.some.inj heq
        exact hp hmem

theorem Settles.accepts {t : List (Effect κ)} {l : Ledger κ} (h : Settles parent t l) :
    Accepts parent (firstReleases [] t) l := by
  rw [Accepts, ← foldlM_settle t ⟨[], []⟩]
  exact h

theorem Settles.agrees {t : List (Effect κ)} {l : Ledger κ} (h : Settles parent t l) :
    Agrees (firstReleases [] t) l := h.accepts.agrees

/-- **A trace that is taken to its end with nothing left live keeps the discipline
of handles**, each object counting from its creation to its first release. -/
theorem Settles.disciplined {t : List (Effect κ)} {l : Ledger κ} (h : Settles parent t l)
    (hlive : l.live = []) : Disciplined parent (firstReleases [] t) :=
  h.accepts.disciplined hlive

end DeltaForgeBench.Base.Disposal
