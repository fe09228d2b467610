import DeltaForgeBench.Drivers.DotnetPaths
import Mathlib.Data.List.Basic

/-! # Runs of the .NET paths

Each iteration keeps an account of the objects it has created: those that live
are in its variables, so its `finally` finds them, children before parents. The
error is the text of the first call that failed, and the timings are filled only
where none did. -/
namespace DeltaForgeBench.Drivers.DotnetPaths
open DeltaForgeBench.Base.Text DeltaForgeBench.Base.Handles DeltaForgeBench.Base.Disposal
open DeltaForgeBench.Base.Interrupt
open DeltaForgeBench.Drivers DeltaForgeBench.Drivers.WarmMedian

variable {γ ο : Type}

/-! ## What the two paths share -/

/-- How the calls of a path act on its objects, and what it says of a failed one. -/
structure Path (γ ο : Type) [DecidableEq ο] where
  throws : Nat → γ → Option Thrown
  parent : ο → Option ο
  effect : Event γ → Effect ο
  text : Thrown → Str
  /-- The text of a call that failed, in its result or by what it threw. -/
  fails : Event γ → Option Str
  fails_thrown : ∀ c e, fails ⟨c, some e⟩ = some (text e)
  dispose : ο → γ
  effect_dispose : ∀ o t, effect ⟨dispose o, t⟩ = .release [] o
  /-- The variables, as the `finally` goes through them. -/
  order : List ο
  nodup : order.Nodup
  children_first : ∀ c ∈ order, ∀ o ∈ parent c, order.idxOf c < order.idxOf o

/-- What becomes of the timings: those of a full run, or the text of the first failure. -/
inductive Reported [DecidableEq ο] (path : Path γ ο) (full : Dotnet.PhaseTimings) (tried : List (Event γ)) :
    Dotnet.PhaseTimings → Prop
  | measured : (∀ e ∈ tried, path.fails e = none) → Reported path full tried full
  | failed (before : List (Event γ)) (e : Event γ) (text : Str) : tried = before ++ [e] →
    (∀ b ∈ before, path.fails b = none) → path.fails e = some text →
      Reported path full tried { error := some text }

theorem Reported.complete [DecidableEq ο] {path : Path γ ο} {full p : Dotnet.PhaseTimings}
    {tried : List (Event γ)} (h : Reported path full tried p) (hnone : p.error = none) : p = full := by
  cases h with
  | measured => rfl
  | failed before e text => cases hnone

theorem Reported.honest [DecidableEq ο] {path : Path γ ο} {full p : Dotnet.PhaseTimings}
    {tried : List (Event γ)} {text : Str} (h : Reported path full tried p)
    (hfull : full.error = none) (hsome : p.error = some text) :
    ∃ e ∈ tried, path.fails e = some text := by
  cases h with
  | measured => rw [hfull] at hsome; cases hsome
  | failed before e text' htried hbefore hfails =>
    obtain rfl := Option.some.inj hsome
    exact ⟨e, by simp [htried], hfails⟩

theorem invoke_run (throws : Nat → γ → Option Thrown) (c : γ) (w : World γ ο) :
    invoke throws c w = match throws w.trace.length c with
      | none => (.ok (), w.record ⟨c, none⟩)
      | some t => (.error .raised, { w.record ⟨c, some t⟩ with thrown := some t }) := by
  unfold invoke
  simp only [run_bind, run_get, run_modify]
  cases throws w.trace.length c <;> rfl

/-- The calls of a trace are all of this kind. -/
def Only (K : γ → Prop) (w : World γ ο) : Prop := ∀ e ∈ w.trace, K e.call

theorem invoke_only {K : γ → Prop} {throws : Nat → γ → Option Thrown} {c : γ} (hc : K c) :
    Triple (Only K) (invoke (ο := ο) throws c) (fun _ => Only K) fun _ => Only K := by
  intro w hw
  have kept : ∀ t, Only K (w.record ⟨c, t⟩) := fun t e he => by
    rcases List.mem_append.mp he with he | he
    · exact hw e he
    · exact List.mem_singleton.mp he ▸ hc
  rw [invoke_run]
  cases throws w.trace.length c with
  | none => exact kept none
  | some t => exact kept (some t)

theorem raise_only {K : γ → Prop} {e : Thrown} {Q : Unit → World γ ο → Prop} :
    Triple (Only K) (raise e) Q fun _ => Only K :=
  fun _ hw => hw

theorem modify_only {K : γ → Prop} {f : World γ ο → World γ ο} {R : Halt → World γ ο → Prop}
    (hf : ∀ w, (f w).trace = w.trace) : Triple (Only K) (modify f) (fun _ => Only K) R :=
  Triple.modify fun w hw => by rwa [Only, hf]

theorem assign_only {K : γ → Prop} {throws : Nat → γ → Option Thrown} {c : γ} (o : ο) (hc : K c) :
    Triple (Only K) (assign throws c o) (fun _ => Only K) fun _ => Only K :=
  (invoke_only hc).bind fun _ => modify_only fun _ => rfl

theorem tryCatch_only {K : γ → Prop} {text : Thrown → Str} {block : Program (World γ ο) Unit}
    {P : World γ ο → Prop}
    (h : Triple P block (fun _ => Only K) fun _ => Only K) :
    Triple P (tryCatch text block) (fun _ => Only K) fun _ => Only K := by
  have ended : Triple P (contained block) (fun _ => Only K) fun _ => Only K :=
    Triple.contained (h.weaken (fun _ hw => hw) (fun _ _ hw => hw) fun e w hw => by
      cases e <;> exact hw)
  refine ended.bind fun ok => Triple.ite (fun _ => Triple.pure fun _ hw => hw) fun _ =>
    modify_only fun _ => rfl

theorem exists_rest {done xs : List ο} {o : ο} (h : done ++ [o] <+: xs) :
    ∃ rest, xs = done ++ o :: rest := by
  obtain ⟨rest, hrest⟩ := h
  exact ⟨rest, by rw [← hrest, List.append_assoc, List.singleton_append]⟩

section Paths
variable [DecidableEq ο] (path : Path γ ο)

/-- What lives is in a variable, and a variable holds what lives or is gone. -/
structure Owned (l : Ledger ο) (vars : List ο) : Prop where
  live : ∀ o ∈ l.live, o ∈ vars
  held : ∀ o ∈ vars, o ∈ l.live ∨ o ∈ l.gone
  known : ∀ o ∈ vars, o ∈ path.order

def Holds (w : World γ ο) (l : Ledger ο) : Prop :=
  Settles path.parent (w.trace.map path.effect) l

/-- Inside the `try`, nothing having failed. -/
structure Going (l : Ledger ο) (vars : List ο) (rowCount ncols : Int) (w : World γ ο) : Prop where
  holds : Holds path w l
  fine : ∀ e ∈ w.trace, path.fails e = none
  locals : w.locals = vars
  rowCount : w.rowCount = rowCount
  ncols : w.ncols = ncols
  p : w.p = {}

/-- Thrown out of the `try`. -/
structure Stopped (h : Halt) (w : World γ ο) : Prop where
  raised : h = .raised
  owned : ∃ l, Holds path w l ∧ Owned path l w.locals
  failed : ∃ before e text, w.trace = before ++ [e] ∧ (∀ b ∈ before, path.fails b = none) ∧
    path.fails e = some text ∧ w.thrown.map path.text = some text
  p : w.p = {}

/-- Behind the `catch`. -/
structure Caught (full : Dotnet.PhaseTimings) (w : World γ ο) : Prop where
  owned : ∃ l, Holds path w l ∧ Owned path l w.locals
  reported : Reported path full w.trace w.p

/-- A call of the `finally`. -/
def Disposal (e : Event γ) : Prop := ∃ o ∈ path.order, e.call = path.dispose o

/-- In the `finally`, behind these variables; all its calls so far are as `ok` says. -/
structure Cleaning (tried : List (Event γ)) (p : Dotnet.PhaseTimings) (ok : Event γ → Prop)
    (done : List ο) (w : World γ ο) : Prop where
  owned : ∃ l, Holds path w l ∧ Owned path l w.locals ∧ ∀ o ∈ done, o ∉ l.live
  trace : ∃ cleaned, w.trace = tried ++ cleaned ∧ ∀ e ∈ cleaned, Disposal path e ∧ ok e
  p : w.p = p

/-- A `Dispose` of the `finally` has thrown. -/
structure Broken (tried : List (Event γ)) (p : Dotnet.PhaseTimings) (ok : Event γ → Prop)
    (done : List ο) (h : Halt) (w : World γ ο) : Prop where
  raised : h = .raised
  owned : ∃ l, Holds path w l ∧ Owned path l w.locals ∧ ∀ o ∈ done, o ∉ l.live
  trace : ∃ cleaned e, w.trace = tried ++ (cleaned ++ [e]) ∧
    (∀ e ∈ cleaned, Disposal path e ∧ ok e) ∧ Disposal path e ∧ e.thrown.isSome = true
  p : w.p = p

variable {path} {l m : Ledger ο} {vars : List ο} {rowCount ncols : Int} {w : World γ ο}

theorem holds_record {e : Event γ} {s : World γ ο} (h : Holds path w l)
    (htrace : s.trace = w.trace ++ [e]) (hstep : settle path.parent l (path.effect e) = some m) :
    Holds path s m := by
  rw [Holds, htrace, List.map_append]
  exact Settles.concat h hstep

theorem Going.record {c : γ} {s : World γ ο} (h : Going path l vars rowCount ncols w)
    (htrace : s.trace = w.trace ++ [⟨c, none⟩]) (hfine : path.fails ⟨c, none⟩ = none)
    (hstep : settle path.parent l (path.effect ⟨c, none⟩) = some m)
    (hsame : s = { w with trace := s.trace }) : Going path m vars rowCount ncols s := by
  refine ⟨holds_record h.holds htrace hstep, ?_, ?_, ?_, ?_, ?_⟩
  · intro e he
    rw [htrace] at he
    rcases List.mem_append.mp he with he | he
    · exact h.fine e he
    · rw [List.mem_singleton.mp he, hfine]
  all_goals rw [hsame]
  · exact h.locals
  · exact h.rowCount
  · exact h.ncols
  · exact h.p

/-- The failing call is the last of the trace. -/
theorem Going.stop {e : Event γ} {t : Thrown} (h : Going path l vars rowCount ncols w)
    (hfails : path.fails e = some (path.text t))
    (hstep : settle path.parent l (path.effect e) = some m) (howned : Owned path m vars) :
    Stopped path .raised { w.record e with thrown := some t } where
  raised := rfl
  owned := ⟨m, holds_record h.holds rfl hstep, h.locals ▸ howned⟩
  failed := ⟨w.trace, e, _, rfl, h.fine, hfails, rfl⟩
  p := h.p

/-! ## One call -/

/-- A call that goes on in `m`, and may throw on its way. -/
theorem invoke_spec {c : γ} (hfine : path.fails ⟨c, none⟩ = none)
    (hgoes : settle path.parent l (path.effect ⟨c, none⟩) = some m)
    (hstops : ∀ t, ∃ l', settle path.parent l (path.effect ⟨c, some t⟩) = some l' ∧
      Owned path l' vars) :
    Triple (Going path l vars rowCount ncols) (invoke path.throws c)
      (fun _ => Going path m vars rowCount ncols) (Stopped path) := by
  intro w hw
  rw [invoke_run]
  cases path.throws w.trace.length c with
  | none => exact hw.record rfl hfine hgoes rfl
  | some t =>
    obtain ⟨l', hstep, howned⟩ := hstops t
    exact hw.stop (path.fails_thrown c t) hstep howned

/-- A call behind which the iteration throws in any case. -/
theorem invoke_raise {c : γ} {t : Thrown} {Q : Unit → World γ ο → Prop}
    (hfails : path.fails ⟨c, none⟩ = some (path.text t))
    (hstops : ∀ thrown, ∃ l', settle path.parent l (path.effect ⟨c, thrown⟩) = some l' ∧
      Owned path l' vars) :
    Triple (Going path l vars rowCount ncols) (invoke path.throws c >>= fun _ => raise t) Q
      (Stopped path) := by
  intro w hw
  rw [run_bind, invoke_run]
  cases path.throws w.trace.length c with
  | none =>
    obtain ⟨l', hstep, howned⟩ := hstops none
    exact hw.stop hfails hstep howned
  | some t' =>
    obtain ⟨l', hstep, howned⟩ := hstops (some t')
    exact hw.stop (path.fails_thrown c t') hstep howned

section Rules
variable {c : γ} {o : ο} {hs : List ο} (hfine : path.fails ⟨c, none⟩ = none)
include hfine

theorem use_spec (heffect : ∀ t, path.effect ⟨c, t⟩ = .use hs) (hlive : ∀ x ∈ hs, x ∈ l.live)
    (howned : Owned path l vars) :
    Triple (Going path l vars rowCount ncols) (invoke path.throws c)
      (fun _ => Going path l vars rowCount ncols) (Stopped path) :=
  invoke_spec hfine (by rw [heffect, settle_use hlive]) fun t =>
    ⟨l, by rw [heffect, settle_use hlive], howned⟩

theorem create_spec (hcreates : path.effect ⟨c, none⟩ = .create hs o)
    (huses : ∀ t, path.effect ⟨c, some t⟩ = .use hs) (hlive : ∀ x ∈ hs, x ∈ l.live)
    (hnew : o ∉ l.live) (hgone : o ∉ l.gone) (hparent : ∀ p ∈ path.parent o, p ∈ l.live)
    (howned : Owned path l vars) :
    Triple (Going path l vars rowCount ncols) (invoke path.throws c)
      (fun _ => Going path ⟨o :: l.live, l.gone⟩ vars rowCount ncols) (Stopped path) :=
  invoke_spec hfine (by rw [hcreates, settle_create hlive hnew hgone hparent]) fun t =>
    ⟨l, by rw [huses, settle_use hlive], howned⟩

theorem assign_spec (hcreates : path.effect ⟨c, none⟩ = .create hs o)
    (huses : ∀ t, path.effect ⟨c, some t⟩ = .use hs) (hlive : ∀ x ∈ hs, x ∈ l.live)
    (hnew : o ∉ l.live) (hgone : o ∉ l.gone) (hparent : ∀ p ∈ path.parent o, p ∈ l.live)
    (howned : Owned path l vars) :
    Triple (Going path l vars rowCount ncols) (assign path.throws c o)
      (fun _ => Going path ⟨o :: l.live, l.gone⟩ (o :: vars) rowCount ncols) (Stopped path) := by
  refine (create_spec hfine hcreates huses hlive hnew hgone hparent howned).bind fun _ =>
    Triple.modify fun w hw => ?_
  exact ⟨hw.holds, hw.fine, congrArg _ hw.locals, hw.rowCount, hw.ncols, hw.p⟩

/-- The release of what was created last. -/
theorem release_spec {live gone : List ο} (hreleases : ∀ t, path.effect ⟨c, t⟩ = .release [] o)
    (hgone : o ∉ gone) (hchildren : ∀ x ∈ o :: live, path.parent x ≠ some o)
    (howned : Owned path ⟨live, o :: gone⟩ vars) :
    Triple (Going path ⟨o :: live, gone⟩ vars rowCount ncols) (invoke path.throws c)
      (fun _ => Going path ⟨live, o :: gone⟩ vars rowCount ncols) (Stopped path) := by
  have released : settle path.parent ⟨o :: live, gone⟩ (.release [] o) = some ⟨live, o :: gone⟩ := by
    rw [settle_release hgone List.mem_cons_self hchildren, List.erase_cons_head]
  exact invoke_spec hfine (by rw [hreleases, released]) fun t =>
    ⟨_, by rw [hreleases, released], howned⟩

end Rules

/-! ## The `catch` -/

theorem tryCatch_spec {block : Program (World γ ο) Unit} {full : Dotnet.PhaseTimings}
    {P : World γ ο → Prop}
    (h : Triple P block (fun _ w => (∃ l, Holds path w l ∧ Owned path l w.locals) ∧
      (∀ e ∈ w.trace, path.fails e = none) ∧ w.p = full) (Stopped path)) :
    Triple P (tryCatch path.text block) (fun _ => Caught path full) fun _ _ => False := by
  have ended : Triple P (contained block) (fun ok w => if ok = true then Caught path full w
      else Stopped path .raised w) fun _ _ => False := by
    refine Triple.contained (h.weaken (fun _ hw => hw) ?_ ?_)
    · rintro _ w ⟨owned, fine, rfl⟩
      exact ⟨owned, .measured fine⟩
    · intro e w hw
      obtain rfl := hw.raised
      exact hw
  refine ended.bind fun ok => ?_
  cases ok with
  | true => exact Triple.pure fun w hw => hw
  | false =>
    refine Triple.modify fun w hw => ⟨hw.owned, ?_⟩
    obtain ⟨before, e, text, htrace, hbefore, hfails, hthrown⟩ := hw.failed
    show Reported path full w.trace { w.p with error := w.thrown.map path.text }
    rw [hw.p, hthrown]
    exact .failed before e text htrace hbefore hfails

/-! ## The `finally` -/

variable {tried : List (Event γ)} {p : Dotnet.PhaseTimings} {ok : Event γ → Prop}
  {done rest : List ο} {o : ο}

theorem mem_done_of_child (horder : path.order = done ++ o :: rest) {c : ο} (hc : c ∈ path.order)
    (hparent : path.parent c = some o) : c ∈ done := by
  have before := path.children_first c hc o hparent
  have ho : o ∉ done := fun h =>
    (List.nodup_append.mp (horder ▸ path.nodup)).2.2 o h o List.mem_cons_self rfl
  rw [horder, List.idxOf_append_of_notMem ho, List.idxOf_cons_self] at before
  by_contra hnot
  rw [List.idxOf_append_of_notMem hnot] at before
  omega

/-- The release of a variable in its turn. -/
theorem settle_dispose (horder : path.order = done ++ o :: rest) {t : Option Thrown}
    (hholds : Holds path w l) (howned : Owned path l vars) (hdone : ∀ x ∈ done, x ∉ l.live)
    (ho : o ∈ vars) :
    ∃ m, settle path.parent l (path.effect ⟨path.dispose o, t⟩) = some m ∧ Owned path m vars ∧
      ∀ x ∈ done ++ [o], x ∉ m.live := by
  rw [path.effect_dispose]
  by_cases hgone : o ∈ l.gone
  · refine ⟨l, settle_again hgone, howned, fun x hx hmem => ?_⟩
    rcases List.mem_append.mp hx with hx | hx
    · exact hdone x hx hmem
    · exact hholds.agrees.apart o (List.mem_singleton.mp hx ▸ hmem) hgone
  · have hlive : o ∈ l.live := (howned.held o ho).resolve_right hgone
    have children : ∀ c ∈ l.live, path.parent c ≠ some o := fun c hc hparent =>
      hdone c (mem_done_of_child horder (howned.known c (howned.live c hc)) hparent) hc
    refine ⟨_, settle_release hgone hlive children, ⟨?_, ?_, howned.known⟩, ?_⟩
    · exact fun x hx => howned.live x (List.mem_of_mem_erase hx)
    · intro x hx
      by_cases hxo : x = o
      · exact .inr (hxo ▸ List.mem_cons_self)
      · exact (howned.held x hx).imp (List.mem_erase_of_ne hxo).mpr (List.mem_cons_of_mem _)
    · intro x hx hmem
      rcases List.mem_append.mp hx with hx | hx
      · exact hdone x hx (List.mem_of_mem_erase hmem)
      · rw [List.mem_singleton.mp hx] at hmem
        exact (hholds.agrees.nodup.mem_erase_iff.mp hmem).1 rfl

theorem disposeOf_spec (hok : ∀ o, ok ⟨path.dispose o, none⟩)
    (horder : path.order = done ++ o :: rest) :
    Triple (Cleaning path tried p ok done) (disposeOf path.throws path.dispose o)
      (fun _ => Cleaning path tried p ok (done ++ [o]))
      (Broken path tried p ok (done ++ [o])) := by
  have known : o ∈ path.order := by simp [horder]
  refine Triple.read fun w ⟨⟨l, hholds, howned, hdone⟩, ⟨cleaned, htrace, hcleaned⟩, hp⟩ => ?_
  refine Triple.ite (fun ho => ?_) fun ho => Triple.pure ?_
  · intro s hs
    subst hs
    rw [invoke_run]
    cases hthrows : path.throws s.trace.length (path.dispose o) with
    | none =>
      obtain ⟨m, hstep, hm, hgone⟩ := settle_dispose (t := none) horder hholds howned hdone ho
      refine ⟨⟨m, holds_record hholds rfl hstep, hm, hgone⟩,
        ⟨cleaned ++ [⟨path.dispose o, none⟩], by simp [World.record, htrace], fun e he => ?_⟩, hp⟩
      rcases List.mem_append.mp he with he | he
      · exact hcleaned e he
      · rw [List.mem_singleton.mp he]
        exact ⟨⟨o, known, rfl⟩, hok o⟩
    | some t =>
      obtain ⟨m, hstep, hm, hgone⟩ := settle_dispose (t := some t) horder hholds howned hdone ho
      exact ⟨rfl, ⟨m, holds_record hholds rfl hstep, hm, hgone⟩,
        ⟨cleaned, ⟨path.dispose o, some t⟩, by simp [World.record, htrace], hcleaned,
          ⟨o, known, rfl⟩, rfl⟩, hp⟩
  · intro s hs
    subst hs
    refine ⟨⟨l, hholds, howned, fun x hx hmem => ?_⟩, ⟨cleaned, htrace, hcleaned⟩, hp⟩
    rcases List.mem_append.mp hx with hx | hx
    · exact hdone x hx hmem
    · exact ho (howned.live o (List.mem_singleton.mp hx ▸ hmem))

theorem Broken.cleaning {h : Halt} (hb : Broken path tried p (fun _ => True) done h w) :
    Cleaning path tried p (fun _ => True) done w := by
  obtain ⟨cleaned, e, htrace, hcleaned, he, -⟩ := hb.trace
  refine ⟨hb.owned, ⟨cleaned ++ [e], htrace, fun e' he' => ?_⟩, hb.p⟩
  rcases List.mem_append.mp he' with he' | he'
  · exact hcleaned e' he'
  · exact ⟨List.mem_singleton.mp he' ▸ he, trivial⟩

/-- Behind the last variable nothing lives. -/
theorem Cleaning.disciplined (h : Cleaning path tried p ok path.order w) :
    Disciplined path.parent (firstReleases [] (w.trace.map path.effect)) := by
  obtain ⟨l, hholds, howned, hdone⟩ := h.owned
  refine Settles.disciplined hholds (List.eq_nil_iff_forall_not_mem.mpr fun o ho => ?_)
  exact hdone o (howned.known o (howned.live o ho)) ho

/-- The `catch` hands over to the `finally`. -/
theorem Caught.cleaning {full : Dotnet.PhaseTimings} (h : Caught path full w) :
    Cleaning path w.trace w.p ok [] w := by
  obtain ⟨l, hholds, howned⟩ := h.owned
  exact ⟨⟨l, hholds, howned, by simp⟩, ⟨[], by simp, by simp⟩, rfl⟩

end Paths

end DeltaForgeBench.Drivers.DotnetPaths
