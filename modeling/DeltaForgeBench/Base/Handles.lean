import Mathlib.Data.List.Count
import Mathlib.Data.List.Induction
import Mathlib.Data.List.Nodup

/-! # Handles

A client of a driver creates handles, uses them and releases them. A ledger of
what is live and what is gone accepts or refuses each call; a trace it accepts
to the end, with nothing left live, keeps the discipline of handles. -/
namespace DeltaForgeBench.Base.Handles

variable {κ : Type}

/-- What a call does to the handles. -/
inductive Effect (κ : Type)
  | use (hs : List κ)
  | create (hs : List κ) (h : κ)
  | release (hs : List κ) (h : κ)

namespace Effect

def uses : Effect κ → List κ
  | use hs => hs
  | create hs _ => hs
  | release hs h => h :: hs

def creates : Effect κ → Option κ
  | create _ h => some h
  | use _ | release _ _ => none

def releases : Effect κ → Option κ
  | release _ h => some h
  | use _ | create _ _ => none

end Effect

/-! ## The discipline -/

def Created (t : List (Effect κ)) (h : κ) : Prop := ∃ e ∈ t, e.creates = some h

def Released (t : List (Effect κ)) (h : κ) : Prop := ∃ e ∈ t, e.releases = some h

/-- Created and not yet released. -/
def Live (t : List (Effect κ)) (h : κ) : Prop := Created t h ∧ ¬ Released t h

/-- What a trace owes to its handles; `parent` says which handle another lives in. -/
structure Disciplined [DecidableEq κ] (parent : κ → Option κ) (t : List (Effect κ)) : Prop where
  /-- A handle is used, and released, only while it lives. -/
  used_live : ∀ pre e post, t = pre ++ e :: post → ∀ h ∈ e.uses, Live pre h
  /-- A child is created in a live parent. -/
  created_under : ∀ pre e post, t = pre ++ e :: post →
    ∀ c p, e.creates = some c → parent c = some p → Live pre p
  /-- A parent is released when none of its children lives. -/
  children_first : ∀ pre e post, t = pre ++ e :: post →
    ∀ c p, e.releases = some p → parent c = some p → Created pre c → Released pre c
  created_once : ∀ h, t.countP (fun e => e.creates = some h) ≤ 1
  /-- A handle that was created is released once. -/
  released_once : ∀ h, Created t h → t.countP (fun e => e.releases = some h) = 1

/-! ## The ledger -/

structure Ledger (κ : Type) where
  live : List κ
  gone : List κ

variable [DecidableEq κ] {parent : κ → Option κ}

namespace Ledger

/-- Enters one call, unless it breaks the discipline. -/
def step (parent : κ → Option κ) (l : Ledger κ) (e : Effect κ) : Option (Ledger κ) :=
  if ∀ h ∈ e.uses, h ∈ l.live then
    match e with
    | .use _ => some l
    | .create _ h =>
      if h ∉ l.live ∧ h ∉ l.gone ∧ ∀ p ∈ parent h, p ∈ l.live then
        some ⟨h :: l.live, l.gone⟩
      else none
    | .release _ h =>
      if ∀ c ∈ l.live, parent c ≠ some h then some ⟨l.live.erase h, h :: l.gone⟩ else none
  else none

end Ledger

/-- The ledger takes the whole trace and ends as `l`. -/
def Accepts (parent : κ → Option κ) (t : List (Effect κ)) (l : Ledger κ) : Prop :=
  t.foldlM (Ledger.step parent) ⟨[], []⟩ = some l

theorem Accepts.nil : Accepts parent [] ⟨[], []⟩ := rfl

theorem accepts_append {t u : List (Effect κ)} {l : Ledger κ} :
    Accepts parent (t ++ u) l ↔
      ∃ m, Accepts parent t m ∧ u.foldlM (Ledger.step parent) m = some l := by
  simp only [Accepts, List.foldlM_append, Option.bind_eq_bind, Option.bind_eq_some_iff]

theorem accepts_concat {t : List (Effect κ)} {e : Effect κ} {l : Ledger κ} :
    Accepts parent (t ++ [e]) l ↔ ∃ m, Accepts parent t m ∧ m.step parent e = some l := by
  simp [accepts_append]

/-! ## The ledger says what lives -/

/-- The ledger of a trace, in terms of the trace. -/
structure Agrees (t : List (Effect κ)) (l : Ledger κ) : Prop where
  nodup : l.live.Nodup
  apart : ∀ h ∈ l.live, h ∉ l.gone
  creates : ∀ h, t.countP (fun e => e.creates = some h) = if h ∈ l.live ∨ h ∈ l.gone then 1 else 0
  releases : ∀ h, t.countP (fun e => e.releases = some h) = if h ∈ l.gone then 1 else 0

theorem created_iff_countP {t : List (Effect κ)} {h : κ} :
    Created t h ↔ 0 < t.countP fun e => e.creates = some h := by
  simp [Created, List.countP_pos_iff]

theorem released_iff_countP {t : List (Effect κ)} {h : κ} :
    Released t h ↔ 0 < t.countP fun e => e.releases = some h := by
  simp [Released, List.countP_pos_iff]

namespace Agrees
variable {t : List (Effect κ)} {l : Ledger κ} {h : κ}

theorem created_iff (a : Agrees t l) : Created t h ↔ h ∈ l.live ∨ h ∈ l.gone := by
  rw [created_iff_countP, a.creates]
  split <;> simp_all

theorem released_iff (a : Agrees t l) : Released t h ↔ h ∈ l.gone := by
  rw [released_iff_countP, a.releases]
  split <;> simp_all

theorem live_iff (a : Agrees t l) : Live t h ↔ h ∈ l.live := by
  rw [Live, a.created_iff, a.released_iff]
  constructor
  · intro hlive
    exact hlive.1.resolve_right hlive.2
  · intro hlive
    exact ⟨.inl hlive, a.apart h hlive⟩

end Agrees

/-- What the ledger has checked of a call it took. -/
theorem step_cases {l m : Ledger κ} {e : Effect κ} (h : l.step parent e = some m) :
    (∀ x ∈ e.uses, x ∈ l.live) ∧
      ((e.creates = none ∧ e.releases = none ∧ m = l) ∨
        (∃ c, e.creates = some c ∧ e.releases = none ∧ c ∉ l.live ∧ c ∉ l.gone ∧
          (∀ p, parent c = some p → p ∈ l.live) ∧ m = ⟨c :: l.live, l.gone⟩) ∨
        (∃ p, e.creates = none ∧ e.releases = some p ∧ p ∈ l.live ∧
          (∀ c ∈ l.live, parent c ≠ some p) ∧ m = ⟨l.live.erase p, p :: l.gone⟩)) := by
  unfold Ledger.step at h
  split at h
  · rename_i huses
    refine ⟨huses, ?_⟩
    cases e with
    | use hs => exact .inl ⟨rfl, rfl, (Option.some.inj h).symm⟩
    | create hs c =>
      simp only at h
      split at h
      · rename_i hnew
        obtain ⟨hlive, hgone, hparent⟩ := hnew
        exact .inr (.inl ⟨c, rfl, rfl, hlive, hgone, hparent, (Option.some.inj h).symm⟩)
      · cases h
    | release hs p =>
      simp only at h
      split at h
      · rename_i hchildren
        exact .inr (.inr ⟨p, rfl, rfl, huses p (.head _), hchildren, (Option.some.inj h).symm⟩)
      · cases h
  · cases h

theorem Agrees.step {t : List (Effect κ)} {l m : Ledger κ} {e : Effect κ} (a : Agrees t l)
    (h : l.step parent e = some m) : Agrees (t ++ [e]) m := by
  obtain ⟨-, hcase⟩ := step_cases h
  rcases hcase with ⟨hc, hr, rfl⟩ | ⟨c, hc, hr, hlive, hgone, -, rfl⟩ | ⟨p, hc, hr, hlive, -, rfl⟩
  · refine ⟨a.nodup, a.apart, fun x => ?_, fun x => ?_⟩
    · simpa [hc] using a.creates x
    · simpa [hr] using a.releases x
  · refine ⟨a.nodup.cons hlive, ?_, fun x => ?_, fun x => ?_⟩
    · intro x hx
      rcases List.mem_cons.mp hx with rfl | hx
      · exact hgone
      · exact a.apart x hx
    · have hbefore := a.creates x
      by_cases hx : x = c
      · subst hx
        simp_all
      · simp [hc, hbefore, hx, Ne.symm hx]
    · simpa [hr] using a.releases x
  · refine ⟨a.nodup.erase p, ?_, fun x => ?_, fun x => ?_⟩
    · intro x hx
      obtain ⟨hne, hx⟩ := a.nodup.mem_erase_iff.mp hx
      simpa [hne] using a.apart x hx
    · have hbefore := a.creates x
      by_cases hx : x = p
      · subst hx
        simp_all
      · simp [hc, hbefore, hx, List.mem_erase_of_ne hx]
    · have hbefore := a.releases x
      by_cases hx : x = p
      · subst hx
        simp_all [a.apart]
      · simp [hr, hbefore, hx, Ne.symm hx]

theorem Accepts.agrees {t : List (Effect κ)} {l : Ledger κ} (h : Accepts parent t l) :
    Agrees t l := by
  induction t using List.reverseRecOn generalizing l with
  | nil =>
    obtain rfl := Option.some.inj h
    exact ⟨List.nodup_nil, (fun _ hx => nomatch hx), fun _ => rfl, fun _ => rfl⟩
  | append_singleton t e ih =>
    obtain ⟨m, hm, hstep⟩ := accepts_concat.mp h
    exact (ih hm).step hstep

/-- Every call of an accepted trace was entered into the ledger of the calls before it. -/
theorem Accepts.before {t pre post : List (Effect κ)} {e : Effect κ} {l : Ledger κ}
    (h : Accepts parent t l) (ht : t = pre ++ e :: post) :
    ∃ m m', Agrees pre m ∧ m.step parent e = some m' := by
  rw [ht, ← List.singleton_append, ← List.append_assoc] at h
  obtain ⟨m', hm', -⟩ := accepts_append.mp h
  obtain ⟨m, hm, hstep⟩ := accepts_concat.mp hm'
  exact ⟨m, m', hm.agrees, hstep⟩

/-- **A trace the ledger takes, leaving nothing live, is disciplined.** -/
theorem Accepts.disciplined {t : List (Effect κ)} {l : Ledger κ} (h : Accepts parent t l)
    (hlive : l.live = []) : Disciplined parent t where
  used_live pre e post ht x hx := by
    obtain ⟨m, m', agrees, hstep⟩ := h.before ht
    exact agrees.live_iff.mpr ((step_cases hstep).1 x hx)
  created_under pre e post ht c p hc hp := by
    obtain ⟨m, m', agrees, hstep⟩ := h.before ht
    rcases (step_cases hstep).2 with ⟨hnone, -⟩ | ⟨c', hc', -, -, -, hparent, -⟩ | ⟨p', hnone, -⟩
    · simp [hnone] at hc
    · obtain rfl := Option.some.inj (hc'.symm.trans hc)
      exact agrees.live_iff.mpr (hparent p hp)
    · simp [hnone] at hc
  children_first pre e post ht c p hr hp hc := by
    obtain ⟨m, m', agrees, hstep⟩ := h.before ht
    rcases (step_cases hstep).2 with ⟨-, hnone, -⟩ | ⟨c', -, hnone, -⟩ | ⟨p', -, hr', -, hchildren, -⟩
    · simp [hnone] at hr
    · simp [hnone] at hr
    · obtain rfl := Option.some.inj (hr'.symm.trans hr)
      rcases agrees.created_iff.mp hc with halive | hgone
      · exact absurd hp (hchildren c halive)
      · exact agrees.released_iff.mpr hgone
  created_once x := by
    rw [h.agrees.creates]
    split <;> omega
  released_once x hx := by
    have hgone : x ∈ l.gone := by simpa [hlive] using h.agrees.created_iff.mp hx
    rw [h.agrees.releases, if_pos hgone]

end DeltaForgeBench.Base.Handles
