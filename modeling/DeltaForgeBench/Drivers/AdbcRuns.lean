import DeltaForgeBench.Drivers.Adbc

/-! # Runs of the ADBC path

Each early return releases what is open at that point, the last handle first,
and the error says why it was taken. Only two exits say nothing of a failure:
the end of an iteration whose discarded results hold it, and the string that is
built from a message already taken. -/
namespace DeltaForgeBench.Drivers.Adbc
open DeltaForgeBench.Base.Text DeltaForgeBench.Base.Handles DeltaForgeBench.Base.Interrupt
open DeltaForgeBench.Drivers

/-! ## What a run depends on -/

/-- Releases of structs and the profile hook return nothing. -/
def Call.isVoid : Call → Bool
  | .schemaRelease | .batchRelease _ | .streamRelease | .profile => true
  | _ => false

/-- A call that did not do what it was made for. The profile hook is optional: a
library without it has failed at nothing. -/
def Event.Failed (e : Event) : Prop :=
  e.answer.code ≠ 0 ∧ e.call.isVoid = false ∧ e.call ≠ profileSymbol

def computeCalls (cfg : Config) : List Call :=
  if cfg.adbcCompute ≠ [] then [computeCall cfg] else []

def databaseCalls (cfg : Config) : List Call :=
  [.databaseNew, uriCall cfg] ++ computeCalls cfg ++ [.databaseInit]

/-- The calls before the drain, whose results are checked. -/
def checkedCalls (cfg : Config) (sql : Str) : List Call :=
  [.dlopen cfg.adbcSo, initSymbol, .driverInit] ++ databaseCalls cfg ++
    [.connectionNew, .connectionInit] ++ [.statementNew, .statementSetSqlQuery sql] ++
    [.statementExecuteQuery, .getSchema]

/-- The releases at the end, whose results are checked. -/
def releaseCalls : List Call := [.statementRelease, .connectionRelease, .databaseRelease]

/-- The calls whose results are dropped. -/
def discardedCalls (cfg : Config) : List Call := credentialCalls cfg ++ [.dlclose]

/-- The stream came to its end. -/
def StreamEnds (drv : Driver) : Prop :=
  ∀ a ∈ (drv.batches.dropWhile fun a => IsBatch a).head?, a.code = 0

/-- No checked call of the iteration fails. -/
structure Passes (drv : Driver) (cfg : Config) (sql : Str) : Prop where
  calls : ∀ c ∈ checkedCalls cfg sql, drv.ok c = true
  ends : StreamEnds drv
  releases : ∀ c ∈ releaseCalls, drv.ok c = true

/-- The entry point is missing and the loader says why. -/
def NoEntryPoint (drv : Driver) (cfg : Config) : Prop :=
  drv.ok (.dlopen cfg.adbcSo) = true ∧ drv.ok initSymbol = false ∧
    (drv.dlMessage initSymbol).isSome = true

/-! ## Still going, or left -/

def Holds (w : World) (l : Ledger Handle) : Prop :=
  Accepts parent (w.trace.map Event.effect) l

/-- Nothing is left live. -/
def Released (w : World) : Prop := ∃ gone, Holds w ⟨[], gone⟩

/-- What holds of an iteration that is still going, behind the calls `done`, of
which the results of `dropped` were not looked at. -/
structure Fine (drv : Driver) (l : Ledger Handle) (flags : Flags) (done dropped : List Call)
    (w : World) : Prop where
  holds : Holds w l
  flags : w.flags = flags
  error : w.out.error = []
  done : ∀ c ∈ done, drv.ok c = true
  failed : (∃ e ∈ w.trace, e.Failed) ↔ ∃ c ∈ dropped, drv.ok c = false

/-- What holds where an iteration left early. -/
structure Left (drv : Driver) (cfg : Config) (sql : Str) (w : World) : Prop where
  released : Released w
  error : w.out.error ≠ []
  failed : ¬ Passes drv cfg sql

/-- What holds at the end of an iteration no check has stopped. -/
structure Finished (drv : Driver) (cfg : Config) (sql : Str) (w : World) : Prop where
  released : Released w
  error : w.out.error = []
  passes : Passes drv cfg sql
  failed : (∃ e ∈ w.trace, e.Failed) ↔ ∃ c ∈ discardedCalls cfg, drv.ok c = false

/-- Where a check lets an iteration go on, `M` holds. -/
abbrev GoesOn (drv : Driver) (cfg : Config) (sql : Str) (M : World → Prop) : Bool → World → Prop :=
  fun go s => if go = true then M s else Left drv cfg sql s

variable {drv : Driver} {cfg : Config} {sql : Str} {l m : Ledger Handle} {flags : Flags}
  {done dropped : List Call} {R : Halt → World → Prop}

theorem holds_record {w : World} {e : Event} (h : Holds w l)
    (hstep : l.step parent e.effect = some m) : Holds (w.record e) m := by
  rw [Holds, World.record, List.map_append]
  exact accepts_concat.mpr ⟨l, h, hstep⟩

theorem ok_iff {c : Call} : drv.ok c = true ↔ (drv.answer c).code = 0 := decide_eq_true_iff

theorem not_ok_iff {c : Call} : drv.ok c = false ↔ (drv.answer c).code ≠ 0 := decide_eq_false_iff_not

theorem not_failed {c : Call} (hok : drv.ok c = true) : ¬ (Event.mk c (drv.answer c)).Failed :=
  fun h => h.1 (ok_iff.mp hok)

theorem Fine.record {e : Event} {w s : World} (fine : Fine drv l flags done dropped w)
    (hfailed : ¬ e.Failed) (hstep : l.step parent e.effect = some m)
    (htrace : s.trace = w.trace ++ [e]) (hflags : s.flags = w.flags)
    (herror : s.out.error = w.out.error) : Fine drv m flags done dropped s := by
  refine ⟨?_, hflags.trans fine.flags, herror.trans fine.error, fine.done, ?_⟩
  · rw [Holds, htrace]
    exact holds_record fine.holds hstep
  · simp [htrace, or_and_right, exists_or, fine.failed, hfailed]

/-- One more checked call has succeeded. -/
theorem Fine.succeed {c : Call} {w : World} (fine : Fine drv l flags done dropped w)
    (hok : drv.ok c = true) : Fine drv l flags (done ++ [c]) dropped w := by
  refine ⟨fine.holds, fine.flags, fine.error, ?_, fine.failed⟩
  intro c' hc'
  rcases List.mem_append.mp hc' with hc' | hc'
  · exact fine.done c' hc'
  · rw [List.mem_singleton.mp hc']
    exact hok

/-- The variables the handles and the error do not depend on. -/
theorem Fine.noted {w s : World} (fine : Fine drv l flags done dropped w)
    (htrace : s.trace = w.trace) (hflags : s.flags = w.flags)
    (herror : s.out.error = w.out.error) : Fine drv l flags done dropped s :=
  ⟨by rw [Holds, htrace]; exact fine.holds, hflags.trans fine.flags, herror.trans fine.error,
    fine.done, by rw [htrace]; exact fine.failed⟩

/-! ## Cleanups -/

/-- Run where `live` is live, it releases everything and does no more. -/
def Closes (cleanup : Program World Unit) (live : List Handle) (flags : Flags) : Prop :=
  ∀ w gone, Holds w ⟨live, gone⟩ → w.flags = flags →
    ∃ s, cleanup w = (.ok (), s) ∧ Released s ∧ s.out = w.out

/-- The call releases the last handle of `live`. -/
def Ends (c : Call) (live rest : List Handle) : Prop :=
  ∀ gone a, ∃ gone', Ledger.step parent ⟨live, gone⟩ (Event.mk c a).effect = some ⟨rest, gone'⟩

theorem ends_statement :
    Ends .statementRelease [.statement, .connection, .database, .lib] [.connection, .database, .lib] :=
  fun _ _ => ⟨_, rfl⟩

theorem ends_connection : Ends .connectionRelease [.connection, .database, .lib] [.database, .lib] :=
  fun _ _ => ⟨_, rfl⟩

theorem ends_database : Ends .databaseRelease [.database, .lib] [.lib] := fun _ _ => ⟨_, rfl⟩

theorem ends_lib : Ends .dlclose [.lib] [] := fun _ _ => ⟨_, rfl⟩

theorem closes_last {c : Call} {live : List Handle} (h : Ends c live []) :
    Closes (call drv c) live flags := by
  intro w gone hw _
  obtain ⟨gone', hstep⟩ := h gone (drv.answer c)
  exact ⟨_, rfl, ⟨gone', holds_record hw hstep⟩, rfl⟩

theorem Closes.before {c : Call} {cleanup : Program World Unit} {live rest : List Handle}
    (closes : Closes cleanup rest flags) (h : Ends c live rest) :
    Closes (call drv c >>= fun _ => cleanup) live flags := by
  intro w gone hw hflags
  obtain ⟨gone', hstep⟩ := h gone (drv.answer c)
  exact closes _ gone' (holds_record hw hstep) hflags

theorem Closes.whenFlag {c : Call} {cleanup : Program World Unit} {live rest : List Handle}
    {flag : Flags → Bool} (closes : Closes cleanup rest flags) (h : Ends c live rest)
    (hflag : flag flags = true) :
    Closes (releaseWhen drv flag c >>= fun _ => cleanup) live flags := by
  intro w gone hw hflags
  have hrun : (releaseWhen drv flag c >>= fun _ => cleanup) w =
      (call drv c >>= fun _ => cleanup) w := by
    simp [releaseWhen, run_bind, run_get, hflags, hflag]
  rw [hrun]
  exact closes.before h w gone hw hflags

theorem closeLib_closes : Closes (closeLib drv) [.lib] flags :=
  closes_last ends_lib

theorem closeDatabase_closes : Closes (closeDatabase drv) [.database, .lib] flags :=
  closeLib_closes.before ends_database

theorem closeConnection_closes :
    Closes (closeConnection drv) [.connection, .database, .lib] flags :=
  closeDatabase_closes.before ends_connection

theorem closeOpen_closes (hconn : flags.connInit = true) (hdb : flags.dbInit = true) :
    Closes (closeOpen drv) [.connection, .database, .lib] flags := by
  refine Closes.whenFlag ?_ ends_connection hconn
  exact closeLib_closes.whenFlag ends_database hdb

theorem closeStatement_closes (hstmt : flags.stmtInit = true) (hconn : flags.connInit = true)
    (hdb : flags.dbInit = true) :
    Closes (closeStatement drv) [.statement, .connection, .database, .lib] flags :=
  (closeOpen_closes hconn hdb).whenFlag ends_statement hstmt

/-! ## Checks -/

/-- What holds before a cleanup, with `live` to release. -/
structure Leaving (drv : Driver) (cfg : Config) (sql : Str) (live : List Handle) (flags : Flags)
    (w : World) : Prop where
  holds : ∃ gone, Holds w ⟨live, gone⟩
  flags : w.flags = flags
  error : w.out.error ≠ []
  failed : ¬ Passes drv cfg sql

theorem Closes.leaves {cleanup : Program World Unit} {live : List Handle} {M : World → Prop}
    (closes : Closes cleanup live flags) :
    Triple (Leaving drv cfg sql live flags) (cleanup >>= fun _ => pure false)
      (GoesOn drv cfg sql M) R := by
  refine Triple.bind (Q := fun _ => Left drv cfg sql) ?_ fun _ => Triple.pure fun _ h => h
  intro w leaving
  obtain ⟨gone, holds⟩ := leaving.holds
  obtain ⟨s, hrun, hreleased, hout⟩ := closes w gone holds leaving.flags
  rw [hrun]
  exact ⟨hreleased, hout ▸ leaving.error, leaving.failed⟩

theorem needed {c : Call} (hc : c ∈ checkedCalls cfg sql) (hfail : drv.ok c = false) :
    ¬ Passes drv cfg sql := by
  intro passes
  rw [passes.calls c hc] at hfail
  cases hfail

/-- A checked call: what it does to the ledger where it succeeds, and where it fails. -/
theorem attempt_spec {c : Call} {what : Str} {cleanup : Program World Unit}
    {live live' gone : List Handle} (hc : c ∈ checkedCalls cfg sql)
    (hok : drv.ok c = true → Ledger.step parent ⟨live, gone⟩ (Event.mk c (drv.answer c)).effect =
      some ⟨live', gone⟩)
    (hfail : drv.ok c = false → Ledger.step parent ⟨live, gone⟩
      (Event.mk c (drv.answer c)).effect = some ⟨live, gone⟩)
    (hclose : Closes cleanup live flags) :
    Triple (Fine drv ⟨live, gone⟩ flags done dropped) (attempt drv c what cleanup)
      (GoesOn drv cfg sql (Fine drv ⟨live', gone⟩ flags (done ++ [c]) dropped)) R := by
  refine Triple.of_states fun w fine => ?_
  refine Triple.bind (Triple.modify (Q := fun _ s => s = w.record ⟨c, drv.answer c⟩)
    fun s hs => by rw [hs]) fun _ => ?_
  refine Triple.ite (fun hrc => Triple.pure ?_) (fun hrc => ?_)
  · intro s hs
    subst hs
    have recorded : Fine drv ⟨live', gone⟩ flags done dropped (w.record ⟨c, drv.answer c⟩) :=
      fine.record (not_failed hrc) (hok hrc) rfl rfl rfl
    exact recorded.succeed hrc
  · have hno := Bool.eq_false_iff.mpr hrc
    refine Triple.bind (Triple.modify (Q := fun _ => Leaving drv cfg sql live flags) ?_) fun _ =>
      hclose.leaves
    intro s hs
    subst hs
    exact ⟨⟨gone, holds_record fine.holds (hfail hno)⟩, fine.flags, by simp [World.setError],
      needed hc hno⟩

/-- A checked call on handles that stay as they are. -/
theorem attempt_use {c : Call} {what : Str} {cleanup : Program World Unit} {live gone : List Handle}
    (hs : List Handle) (hc : c ∈ checkedCalls cfg sql) (heff : ∀ a, (Event.mk c a).effect = .use hs)
    (hlive : ∀ h ∈ hs, h ∈ live) (hclose : Closes cleanup live flags) :
    Triple (Fine drv ⟨live, gone⟩ flags done dropped) (attempt drv c what cleanup)
      (GoesOn drv cfg sql (Fine drv ⟨live, gone⟩ flags (done ++ [c]) dropped)) R := by
  have hstep : ∀ a, Ledger.step parent ⟨live, gone⟩ (Event.mk c a).effect = some ⟨live, gone⟩ := by
    intro a
    rw [heff]
    exact if_pos hlive
  exact attempt_spec hc (fun _ => hstep _) (fun _ => hstep _) hclose

/-- A checked call that opens a handle. -/
theorem attempt_open {c : Call} {what : Str} {cleanup : Program World Unit} {live gone : List Handle}
    (hs : List Handle) (h : Handle) (hc : c ∈ checkedCalls cfg sql)
    (heff : ∀ a, (Event.mk c a).effect = a.opens hs h)
    (huse : Ledger.step parent ⟨live, gone⟩ (.use hs) = some ⟨live, gone⟩)
    (hcreate : Ledger.step parent ⟨live, gone⟩ (.create hs h) = some ⟨h :: live, gone⟩)
    (hclose : Closes cleanup live flags) :
    Triple (Fine drv ⟨live, gone⟩ flags done dropped) (attempt drv c what cleanup)
      (GoesOn drv cfg sql (Fine drv ⟨h :: live, gone⟩ flags (done ++ [c]) dropped)) R := by
  refine attempt_spec hc (fun hok => ?_) (fun hno => ?_) hclose
  · rw [heff, Answer.opens, if_pos (ok_iff.mp hok), hcreate]
  · rw [heff, Answer.opens, if_neg (not_ok_iff.mp hno), huse]

/-! ## Connect -/

theorem Fine.start : Fine drv ⟨[], []⟩ {} [] [] {} :=
  ⟨Accepts.nil, rfl, rfl, (fun _ h => nomatch h), by simp⟩

/-- The message is fetched twice, so the second time there is none. -/
theorem dlsymMessage_run (w : World) :
    dlsymMessage w = if w.pending.isSome then (.error .raised, { w with pending := none })
      else (.ok "(unknown)".toList, { w with pending := none }) := by
  cases hp : w.pending <;>
    simp [dlsymMessage, dlerror, cString, halt, run_bind, run_get, run_modify, run_pure, hp]

/-- What a call of the loader leaves. -/
structure Loaded (drv : Driver) (c : Call) (w s : World) : Prop where
  trace : s.trace = w.trace ++ [⟨c, drv.answer c⟩]
  flags : s.flags = w.flags
  out : s.out = w.out
  pending : s.pending = if drv.ok c then w.pending else drv.dlMessage c

theorem load_spec (c : Call) {P : World → Prop} :
    Triple P (load drv c) (fun _ s => ∃ w, P w ∧ Loaded drv c w s) R :=
  Triple.modify fun w hw => ⟨w, hw, rfl, rfl, rfl, rfl⟩

theorem Loaded.holds {c : Call} {w s : World} (loaded : Loaded drv c w s) (h : Holds w l)
    (hstep : l.step parent (Event.mk c (drv.answer c)).effect = some m) : Holds s m := by
  rw [Holds, loaded.trace]
  exact holds_record h hstep

theorem Loaded.fine {c : Call} {w s : World} (loaded : Loaded drv c w s)
    (fine : Fine drv l flags done dropped w) (hok : drv.ok c = true)
    (hstep : l.step parent (Event.mk c (drv.answer c)).effect = some m) :
    Fine drv m flags (done ++ [c]) dropped s := by
  have recorded : Fine drv m flags done dropped s :=
    fine.record (not_failed hok) hstep loaded.trace loaded.flags (by rw [loaded.out])
  exact recorded.succeed hok

theorem dlopen_step {b : Bool} {c : Call} {path : Str} (hc : c = .dlopen path)
    (hrc : drv.ok c = b) : Ledger.step parent ⟨[], []⟩ (Event.mk c (drv.answer c)).effect =
      some ⟨if b = true then [.lib] else [], []⟩ := by
  subst hc
  cases b with
  | true => simp [Event.effect, Answer.opens, ok_iff.mp hrc, Ledger.step, Effect.uses, parent]
  | false => simp [Event.effect, Answer.opens, not_ok_iff.mp hrc, Ledger.step, Effect.uses]

/-- What is done where the entry point is missing; it raises when the loader has a message. -/
theorem missing_spec (hlib : drv.ok (.dlopen cfg.adbcSo) = true) (hno : drv.ok initSymbol = false)
    (hneed : ¬ Passes drv cfg sql) {M : World → Prop} :
    Triple (fun s => Holds s ⟨[.lib], []⟩ ∧ s.pending = drv.dlMessage initSymbol)
      (do
        let message ← dlsymMessage
        modify fun w => w.setError ("dlsym(AdbcDriverInit) failed: ".toList ++ message)
        closeLib drv
        return false)
      (fun go s => ¬ NoEntryPoint drv cfg ∧ GoesOn drv cfg sql M go s)
      (fun h _ => h = .raised ∧ NoEntryPoint drv cfg) := by
  intro s hs
  obtain ⟨holds, hpending⟩ := hs
  simp only [run_bind, dlsymMessage_run, hpending]
  cases hmessage : drv.dlMessage initSymbol with
  | some text => exact ⟨rfl, hlib, hno, by rw [hmessage]; rfl⟩
  | none =>
    refine ⟨fun h => ?_, ⟨_, holds_record (e := ⟨.dlclose, drv.answer .dlclose⟩) holds rfl⟩,
      List.cons_ne_nil _ _, hneed⟩
    have hsome := h.2.2
    rw [hmessage] at hsome
    cases hsome

theorem loadPhase_spec (sql : Str) :
    Triple (Fine drv ⟨[], []⟩ {} [] []) (loadPhase drv cfg)
      (fun go s => ¬ NoEntryPoint drv cfg ∧ GoesOn drv cfg sql
        (Fine drv ⟨[.lib], []⟩ {} [.dlopen cfg.adbcSo, initSymbol, .driverInit] []) go s)
      (fun h _ => h = .raised ∧ NoEntryPoint drv cfg) := by
  have hopen : Call.dlopen cfg.adbcSo ∈ checkedCalls cfg sql := by simp [checkedCalls]
  have hsymbol : initSymbol ∈ checkedCalls cfg sql := by simp [checkedCalls]
  have hinit : Call.driverInit ∈ checkedCalls cfg sql := by simp [checkedCalls]
  refine Triple.bind (load_spec _) fun _ => ?_
  refine Triple.ite (fun hok => ?_) (fun hno => ?_)
  · refine Triple.bind (load_spec _) fun _ => ?_
    refine Triple.ite (fun hfound => ?_) (fun hmissing => ?_)
    · have hentry : ¬ NoEntryPoint drv cfg := fun h =>
        absurd (h.2.1.symm.trans hfound) Bool.false_ne_true
      have init : Triple (Fine drv ⟨[.lib], []⟩ {} [.dlopen cfg.adbcSo, initSymbol] [])
          (attempt drv .driverInit "AdbcDriverInit".toList (closeLib drv))
          (GoesOn drv cfg sql _) (fun h _ => h = .raised ∧ NoEntryPoint drv cfg) :=
        attempt_use [.lib] hinit (fun _ => rfl) (by simp) closeLib_closes
      refine init.weaken ?_ (fun _ _ h => ⟨hentry, h⟩) fun _ _ h => h
      intro s hs
      obtain ⟨v, ⟨w, fine, first⟩, second⟩ := hs
      exact second.fine (first.fine fine hok (dlopen_step rfl hok)) hfound rfl
    · have hno := Bool.eq_false_iff.mpr hmissing
      refine (missing_spec hok hno (needed hsymbol hno)).weaken ?_ (fun _ _ h => h) fun _ _ h => h
      intro s hs
      obtain ⟨v, ⟨w, fine, first⟩, second⟩ := hs
      refine ⟨second.holds (first.holds fine.holds (dlopen_step rfl hok)) rfl, ?_⟩
      rw [second.pending, hno]
      rfl
  · -- the library is missing
    have hno := Bool.eq_false_iff.mpr hno
    intro s hs
    obtain ⟨w, fine, first⟩ := hs
    refine ⟨fun h => absurd (hno.symm.trans h.1) Bool.false_ne_true, ⟨[], ?_⟩,
      List.cons_ne_nil _ _, needed hopen hno⟩
    exact first.holds fine.holds (dlopen_step rfl hno)

theorem noted_spec {note : World → World} {M N : World → Prop} (hnote : ∀ w, M w → N (note w)) :
    Triple M (modify note >>= fun _ => pure true) (GoesOn drv cfg sql N) R :=
  Triple.bind (Triple.modify hnote) fun _ => Triple.pure fun _ h => h

/-- A call whose result is not looked at. -/
theorem Fine.drop {c : Call} {w : World} (fine : Fine drv l flags done dropped w)
    (hvoid : c.isVoid = false) (hprofile : c ≠ profileSymbol)
    (hstep : l.step parent (Event.mk c (drv.answer c)).effect = some m) :
    Fine drv m flags done (dropped ++ [c]) (w.record ⟨c, drv.answer c⟩) := by
  refine ⟨holds_record fine.holds hstep, fine.flags, fine.error, fine.done, ?_⟩
  have hfailed : (Event.mk c (drv.answer c)).Failed ↔ drv.ok c = false := by
    simp [Event.Failed, hvoid, hprofile, not_ok_iff]
  simp [World.record, or_and_right, exists_or, fine.failed, hfailed]

theorem credentialCalls_option {c : Call} (hc : c ∈ credentialCalls cfg) :
    ∃ key value, c = .databaseSetOption key value := by
  unfold credentialCalls at hc
  split at hc
  · exact ⟨_, _, List.mem_singleton.mp hc⟩
  · rcases List.mem_append.mp hc with hc | hc
    · split at hc
      · exact ⟨_, _, List.mem_singleton.mp hc⟩
      · cases hc
    · split at hc
      · exact ⟨_, _, List.mem_singleton.mp hc⟩
      · cases hc

theorem credentials_spec {gone : List Handle} :
    Triple (Fine drv ⟨[.database, .lib], gone⟩ flags done [])
      (forEach (call drv) (credentialCalls cfg))
      (fun _ => Fine drv ⟨[.database, .lib], gone⟩ flags done (credentialCalls cfg)) R := by
  refine Triple.forEach (fun cs => Fine drv ⟨[.database, .lib], gone⟩ flags done cs) _ ?_
  intro before c hstart
  have hc : c ∈ credentialCalls cfg := hstart.subset (by simp)
  obtain ⟨key, value, rfl⟩ := credentialCalls_option hc
  exact Triple.modify fun w fine => fine.drop rfl (by simp [profileSymbol]) rfl

theorem computeOption_spec {gone : List Handle}
    (hcalls : ∀ c ∈ computeCalls cfg, c ∈ checkedCalls cfg sql) :
    Triple (Fine drv ⟨[.database, .lib], gone⟩ flags done dropped) (computeOption drv cfg)
      (GoesOn drv cfg sql
        (Fine drv ⟨[.database, .lib], gone⟩ flags (done ++ computeCalls cfg) dropped)) R := by
  unfold computeCalls at hcalls ⊢
  unfold computeOption
  split
  · rename_i hset
    rw [if_pos hset] at hcalls
    exact attempt_use [.lib, .database] (hcalls _ (.head _)) (fun _ => rfl) (by simp)
      closeDatabase_closes
  · rw [List.append_nil]
    exact Triple.pure fun _ h => h

theorem databaseCalls_checked {c : Call} (hc : c ∈ databaseCalls cfg) :
    c ∈ checkedCalls cfg sql := by
  simp only [checkedCalls, List.mem_append]
  exact .inl (.inl (.inl (.inr hc)))

theorem databasePhase_spec :
    Triple (Fine drv ⟨[.lib], []⟩ {} done []) (databasePhase drv cfg)
      (GoesOn drv cfg sql (Fine drv ⟨[.database, .lib], []⟩ { dbInit := true }
        (done ++ databaseCalls cfg) (credentialCalls cfg))) R := by
  have hcalls : ∀ c ∈ databaseCalls cfg, c ∈ checkedCalls cfg sql := fun c => databaseCalls_checked
  refine Triple.guard (attempt_open [.lib] .database (hcalls _ (by simp [databaseCalls]))
    (fun _ => rfl) rfl rfl closeLib_closes) ?_ fun _ h => h
  refine Triple.guard (attempt_use [.lib, .database] (hcalls _ (by simp [databaseCalls]))
    (fun _ => rfl) (by simp) closeDatabase_closes) ?_ fun _ h => h
  refine Triple.guard (computeOption_spec fun c hc => hcalls c (by simp [databaseCalls, hc])) ?_
    fun _ h => h
  refine Triple.bind credentials_spec fun _ => ?_
  refine Triple.guard (attempt_use [.lib, .database] (hcalls _ (by simp [databaseCalls]))
    (fun _ => rfl) (by simp) closeDatabase_closes) (noted_spec ?_) fun _ h => h
  intro w fine
  refine ⟨fine.holds, ?_, fine.error, ?_, fine.failed⟩
  · rw [fine.flags]
  · simpa [databaseCalls] using fine.done

theorem connectPhase_spec :
    Triple (Fine drv ⟨[.database, .lib], []⟩ { dbInit := true } done dropped) (connectPhase drv)
      (GoesOn drv cfg sql (Fine drv ⟨[.connection, .database, .lib], []⟩
        { dbInit := true, connInit := true } (done ++ [.connectionNew, .connectionInit]) dropped)) R := by
  refine Triple.guard (attempt_open [.lib] .connection (by simp [checkedCalls]) (fun _ => rfl) rfl rfl
    closeDatabase_closes) ?_ fun _ h => h
  refine Triple.guard (attempt_use [.lib, .connection, .database] (by simp [checkedCalls])
    (fun _ => rfl) (by simp) closeConnection_closes) (noted_spec ?_) fun _ h => h
  intro w fine
  refine ⟨fine.holds, ?_, fine.error, ?_, fine.failed⟩
  · rw [fine.flags]
  · simpa using fine.done

/-! ## Prepare and execute -/

/-- What is open behind `StatementNew`. -/
def chain : List Handle := [.statement, .connection, .database, .lib]

/-- The flags behind it. -/
def allSet : Flags := ⟨true, true, true⟩

theorem preparePhase_spec :
    Triple (Fine drv ⟨[.connection, .database, .lib], []⟩ { dbInit := true, connInit := true } done
        dropped) (preparePhase drv sql)
      (GoesOn drv cfg sql (Fine drv ⟨chain, []⟩ allSet
        (done ++ [.statementNew, .statementSetSqlQuery sql]) dropped)) R := by
  refine Triple.guard (attempt_open [.lib, .connection] .statement (by simp [checkedCalls])
    (fun _ => rfl) rfl rfl (closeOpen_closes rfl rfl)) ?_ fun _ h => h
  refine Triple.bind (Triple.modify (Q := fun _ => Fine drv
    ⟨chain, []⟩ allSet (done ++ [.statementNew]) dropped) ?_)
    fun _ => ?_
  · intro w fine
    refine ⟨fine.holds, ?_, fine.error, fine.done, fine.failed⟩
    rw [fine.flags]
    rfl
  refine Triple.guard (attempt_use [.lib, .statement] (by simp [checkedCalls]) (fun _ => rfl)
    (by simp [chain]) (closeStatement_closes rfl rfl rfl)) (noted_spec ?_) fun _ h => h
  intro w fine
  refine ⟨fine.holds, fine.flags, fine.error, ?_, fine.failed⟩
  simpa using fine.done

theorem releaseStream_eq (hok : drv.ok .statementExecuteQuery = true) :
    releaseStream drv = call drv .streamRelease :=
  if_pos (drv.stream_filled (ok_iff.mp hok))

theorem releaseSchema_eq (hok : drv.ok .getSchema = true) :
    releaseSchema drv = call drv .schemaRelease :=
  if_pos (drv.schema_filled (ok_iff.mp hok))

theorem chain_closes : Closes (closeStatement drv) chain allSet :=
  closeStatement_closes rfl rfl rfl

theorem query_opened (hok : drv.ok .statementExecuteQuery = true) :
    Ledger.step parent ⟨chain, []⟩
        (Event.mk .statementExecuteQuery (drv.answer .statementExecuteQuery)).effect =
      some ⟨.stream :: chain, []⟩ := by
  have hcode := ok_iff.mp hok
  have heff : (Event.mk .statementExecuteQuery (drv.answer .statementExecuteQuery)).effect =
      .create [.lib, .statement] .stream := if_pos ⟨hcode, drv.stream_filled hcode⟩
  rw [heff]
  rfl

theorem query_failed (hno : drv.ok .statementExecuteQuery = false) :
    Ledger.step parent ⟨chain, []⟩
        (Event.mk .statementExecuteQuery (drv.answer .statementExecuteQuery)).effect =
      some ⟨chain, []⟩ := by
  have heff : (Event.mk .statementExecuteQuery (drv.answer .statementExecuteQuery)).effect =
      .use [.lib, .statement] := if_neg fun h => not_ok_iff.mp hno h.1
  rw [heff]
  rfl

theorem schema_opened (hok : drv.ok .getSchema = true) :
    Ledger.step parent ⟨.stream :: chain, []⟩ (Event.mk .getSchema (drv.answer .getSchema)).effect =
      some ⟨.schema :: .stream :: chain, []⟩ := by
  have hcode := ok_iff.mp hok
  have heff : (Event.mk .getSchema (drv.answer .getSchema)).effect =
      .create [.lib, .stream] .schema := if_pos ⟨hcode, drv.schema_filled hcode⟩
  rw [heff]
  rfl

theorem schema_failed (hno : drv.ok .getSchema = false) :
    Ledger.step parent ⟨.stream :: chain, []⟩ (Event.mk .getSchema (drv.answer .getSchema)).effect =
      some ⟨.stream :: chain, []⟩ := by
  have heff : (Event.mk .getSchema (drv.answer .getSchema)).effect = .use [.lib, .stream] :=
    if_neg fun h => not_ok_iff.mp hno h.1
  rw [heff]
  rfl

/-- The stream is released before the statement it came from. -/
theorem releaseStream_leaves {M : World → Prop} (hquery : drv.ok .statementExecuteQuery = true) :
    Triple (Leaving drv cfg sql (.stream :: chain) allSet)
      (releaseStream drv >>= fun _ => closeStatement drv >>= fun _ => pure false)
      (GoesOn drv cfg sql M) R := by
  rw [releaseStream_eq hquery]
  refine Triple.bind (Triple.modify (Q := fun _ => Leaving drv cfg sql chain allSet) ?_) fun _ =>
    chain_closes.leaves
  intro s leaving
  obtain ⟨gone, holds⟩ := leaving.holds
  exact ⟨⟨_, holds_record holds rfl⟩, leaving.flags, leaving.error, leaving.failed⟩

/-- The schema is read for its columns and released. -/
theorem countColumns_spec (hok : drv.ok .getSchema = true) :
    Triple (Fine drv ⟨.schema :: .stream :: chain, []⟩ allSet done dropped)
      (do
        modify fun w => { w with out := { w.out with columns := drv.nChildren } }
        releaseSchema drv
        modify fun w => { w with out := { w.out with
          tExecute := drv.clock 3 - drv.clock 2, tBind := 0 } }
        return true)
      (GoesOn drv cfg sql (Fine drv ⟨.stream :: chain, [.schema]⟩ allSet done dropped)) R := by
  rw [releaseSchema_eq hok]
  refine Triple.bind (Triple.modify (Q := fun _ => Fine drv ⟨.schema :: .stream :: chain, []⟩ allSet
    done dropped) fun s fine => fine.noted rfl rfl rfl) fun _ => ?_
  refine Triple.bind (Triple.modify (Q := fun _ => Fine drv ⟨.stream :: chain, [.schema]⟩ allSet
    done dropped) ?_) fun _ => noted_spec fun s fine => fine.noted rfl rfl rfl
  intro s fine
  exact fine.record (e := ⟨.schemaRelease, drv.answer .schemaRelease⟩)
    (by simp [Event.Failed, Call.isVoid]) rfl rfl rfl rfl

theorem executePhase_spec :
    Triple (Fine drv ⟨chain, []⟩ allSet done dropped) (executePhase drv)
      (GoesOn drv cfg sql (Fine drv ⟨.stream :: chain, [.schema]⟩ allSet
        (done ++ [.statementExecuteQuery, .getSchema]) dropped)) R := by
  have hquery : Call.statementExecuteQuery ∈ checkedCalls cfg sql := by simp [checkedCalls]
  have hschema : Call.getSchema ∈ checkedCalls cfg sql := by simp [checkedCalls]
  refine Triple.guard (attempt_spec hquery query_opened query_failed chain_closes) ?_ fun _ h => h
  refine Triple.of_states fun w fine => ?_
  have hdone := fine.done .statementExecuteQuery (by simp)
  let v := w.record ⟨.getSchema, drv.answer .getSchema⟩
  refine Triple.bind (Triple.modify (Q := fun _ s => s = v) fun s hs => by rw [hs]) fun _ => ?_
  refine Triple.ite (fun hok => ?_) (fun hno => ?_)
  · refine (countColumns_spec hok).weaken ?_ (fun _ _ h => h) fun _ _ h => h
    intro s hs
    rw [hs]
    have opened : Fine drv ⟨.schema :: .stream :: chain, []⟩ allSet (done ++ [.statementExecuteQuery])
        dropped v := fine.record (not_failed hok) (schema_opened hok) rfl rfl rfl
    simpa using opened.succeed hok
  · have hno := Bool.eq_false_iff.mpr hno
    refine Triple.bind (Triple.modify (Q := fun _ => Leaving drv cfg sql (.stream :: chain) allSet) ?_)
      fun _ => releaseStream_leaves hdone
    intro s hs
    rw [hs]
    exact ⟨⟨_, holds_record fine.holds (schema_failed hno)⟩, fine.flags, List.cons_ne_nil _ _,
      needed hschema hno⟩

/-! ## The drain -/

/-- What holds from the end of the drain on: either nothing has failed, and
`good` is known of the answers, or the error is set. -/
structure Closing (drv : Driver) (cfg : Config) (sql : Str) (live : List Handle)
    (dropped : List Call) (good : Prop) (w : World) : Prop where
  holds : ∃ gone, Holds w ⟨live, gone⟩
  flags : w.flags = allSet
  outcome : (w.out.error = [] ∧ good ∧
      ((∃ e ∈ w.trace, e.Failed) ↔ ∃ c ∈ dropped, drv.ok c = false)) ∨
    (w.out.error ≠ [] ∧ ¬ Passes drv cfg sql)

/-- The call keeps what is live, or releases the last of it. -/
theorem Closing.record {live rest : List Handle} {good : Prop} {e : Event} {w s : World}
    (closing : Closing drv cfg sql live dropped good w) (hfailed : ¬ e.Failed)
    (hstep : ∀ gone, ∃ gone', Ledger.step parent ⟨live, gone⟩ e.effect = some ⟨rest, gone'⟩)
    (htrace : s.trace = w.trace ++ [e]) (hflags : s.flags = w.flags)
    (herror : s.out.error = w.out.error) : Closing drv cfg sql rest dropped good s := by
  obtain ⟨gone, holds⟩ := closing.holds
  obtain ⟨gone', hgone⟩ := hstep gone
  refine ⟨⟨gone', ?_⟩, hflags.trans closing.flags, ?_⟩
  · rw [Holds, htrace]
    exact holds_record holds hgone
  · rw [herror]
    refine closing.outcome.imp_left fun h => ⟨h.1, h.2.1, ?_⟩
    rw [← h.2.2]
    simp [htrace, or_and_right, exists_or, hfailed]

theorem Closing.noted {live : List Handle} {good : Prop} {w s : World}
    (closing : Closing drv cfg sql live dropped good w) (htrace : s.trace = w.trace)
    (hflags : s.flags = w.flags) (herror : s.out.error = w.out.error) :
    Closing drv cfg sql live dropped good s := by
  obtain ⟨gone, holds⟩ := closing.holds
  refine ⟨⟨gone, ?_⟩, hflags.trans closing.flags, ?_⟩
  · rw [Holds, htrace]
    exact holds
  · rw [htrace, herror]
    exact closing.outcome

theorem batches_of_end {before rest : List Answer} {a : Answer}
    (hsplit : before ++ a :: rest = drv.batches) (hbefore : ∀ b ∈ before, IsBatch b)
    (hend : ¬ IsBatch a) : (drv.batches.dropWhile fun a => IsBatch a).head? = some a := by
  rw [← hsplit, List.dropWhile_append_of_pos (by simpa using hbefore),
    List.dropWhile_cons_of_neg (by simpa using hend), List.head?_cons]

/-- Behind the batches before the `n`th. -/
def Pulling (drv : Driver) (done dropped : List Call) (n : Nat) (w : World) : Prop :=
  ∃ gone, Fine drv ⟨.stream :: chain, gone⟩ allSet done dropped w ∧
    ∀ k, Handle.batch k ∈ gone → k < n

/-- What is known of the answers behind the drain. -/
def Drained (drv : Driver) (done : List Call) : Prop :=
  (∀ c ∈ done, drv.ok c = true) ∧ StreamEnds drv

/-- `get_next` on the stream that has brought `before`, and what it left. -/
structure Pulled (drv : Driver) (done dropped : List Call) (n : Nat) (before : List Answer)
    (a : Answer) (rest : List Answer) (s : World) : Prop where
  split : before ++ a :: rest = drv.batches
  before : ∀ b ∈ before, IsBatch b
  run : ∃ w, Pulling drv done dropped n w ∧ s = w.record ⟨.getNext n, a⟩

section Pulled
variable {before rest : List Answer} {a : Answer} {n : Nat} {s : World}

theorem getNext_stays {gone : List Handle} (hend : ¬ IsBatch a) :
    Ledger.step parent ⟨.stream :: chain, gone⟩ (Event.mk (.getNext n) a).effect =
      some ⟨.stream :: chain, gone⟩ := by
  have heff : (Event.mk (.getNext n) a).effect = .use [.lib, .stream] := if_neg hend
  rw [heff]
  rfl

theorem getNext_opens {gone : List Handle} (hbatch : IsBatch a) (hnew : Handle.batch n ∉ gone) :
    Ledger.step parent ⟨.stream :: chain, gone⟩ (Event.mk (.getNext n) a).effect =
      some ⟨.batch n :: .stream :: chain, gone⟩ := by
  have heff : (Event.mk (.getNext n) a).effect = .create [.lib, .stream] (.batch n) := if_pos hbatch
  rw [heff]
  simp [Ledger.step, Effect.uses, chain, parent, hnew]

theorem batchRelease_ends (gone : List Handle) :
    Ledger.step parent ⟨.batch n :: .stream :: chain, gone⟩
        (Event.mk (.batchRelease n) (drv.answer (.batchRelease n))).effect =
      some ⟨.stream :: chain, .batch n :: gone⟩ := by
  simp [Event.effect, Ledger.step, Effect.uses, chain, parent]

/-- The stream has reported an error. -/
theorem Pulled.broken (pulled : Pulled drv done dropped n before a rest s) (hcode : a.code ≠ 0) :
    Closing drv cfg sql (.stream :: chain) dropped (Drained drv done)
      (s.setError ("ArrowArrayStream.get_next returned ".toList ++ number a.code)) := by
  obtain ⟨w, ⟨gone, fine, -⟩, rfl⟩ := pulled.run
  have hend : ¬ IsBatch a := fun h => hcode h.1
  have holds : Holds (w.record ⟨.getNext n, a⟩) ⟨.stream :: chain, gone⟩ :=
    holds_record fine.holds (getNext_stays hend)
  refine ⟨⟨gone, holds⟩, fine.flags, .inr ⟨List.cons_ne_nil _ _, ?_⟩⟩
  intro passes
  exact hcode (passes.ends a (batches_of_end pulled.split pulled.before hend))

/-- The stream has come to its end. -/
theorem Pulled.ended (pulled : Pulled drv done dropped n before a rest s) (hcode : a.code = 0)
    (hfilled : a.filled = false) :
    Closing drv cfg sql (.stream :: chain) dropped (Drained drv done) s := by
  obtain ⟨w, ⟨gone, fine, -⟩, rfl⟩ := pulled.run
  have hend : ¬ IsBatch a := fun h => absurd (hfilled.symm.trans h.2) Bool.false_ne_true
  have recorded : Fine drv ⟨.stream :: chain, gone⟩ allSet done dropped
      (w.record ⟨.getNext n, a⟩) :=
    fine.record (fun h => h.1 hcode) (getNext_stays hend) rfl rfl rfl
  refine ⟨⟨gone, recorded.holds⟩, recorded.flags, .inl ⟨recorded.error, ⟨recorded.done, ?_⟩,
    recorded.failed⟩⟩
  intro b hb
  rw [batches_of_end pulled.split pulled.before hend] at hb
  rw [← Option.some.inj hb]
  exact hcode

/-- The batch that has come is counted and released. -/
theorem Pulled.next (pulled : Pulled drv done dropped n before a rest s) (hbatch : IsBatch a) :
    Pulling drv done dropped (n + 1)
      (({ s with rowCount := s.rowCount + drv.batchLength n }).record
        ⟨.batchRelease n, drv.answer (.batchRelease n)⟩) := by
  obtain ⟨w, ⟨gone, fine, hgone⟩, rfl⟩ := pulled.run
  have hnew : Handle.batch n ∉ gone := fun h => absurd (hgone n h) (Nat.lt_irrefl n)
  have opened : Fine drv ⟨.batch n :: .stream :: chain, gone⟩ allSet done dropped
      (w.record ⟨.getNext n, a⟩) :=
    fine.record (fun h => h.1 hbatch.1) (getNext_opens hbatch hnew) rfl rfl rfl
  refine ⟨.batch n :: gone, ?_, ?_⟩
  · exact opened.record (by simp [Event.Failed, Call.isVoid]) (batchRelease_ends gone) rfl rfl rfl
  · intro k hk
    rcases List.mem_cons.mp hk with heq | hk
    · rw [Handle.batch.inj heq]
      exact Nat.lt_succ_self n
    · exact Nat.lt_succ_of_lt (hgone k hk)

end Pulled

theorem pull_spec {before rest : List Answer} (hsplit : before ++ rest = drv.batches)
    (hbefore : ∀ b ∈ before, IsBatch b) (n : Nat) :
    Triple (Pulling drv done dropped n) (pull drv n rest)
      (fun _ => Closing drv cfg sql (.stream :: chain) dropped (Drained drv done))
      (fun _ _ => False) := by
  induction rest generalizing before n with
  | nil =>
    obtain ⟨a, ha, hend⟩ := drv.batches_end
    rw [← hsplit, List.append_nil] at ha
    exact absurd (hbefore a ha) hend
  | cons a rest ih =>
    refine Triple.bind (Triple.modify (Q := fun _ => Pulled drv done dropped n before a rest)
      fun w pulling => ⟨hsplit, hbefore, w, pulling, rfl⟩) fun _ => ?_
    refine Triple.ite (fun hcode => ?_) (fun hcode => Triple.ite (fun hfilled => ?_) fun hfilled => ?_)
    · exact Triple.modify fun s pulled => pulled.broken hcode
    · exact Triple.pure fun s pulled => pulled.ended (not_not.mp hcode) hfilled
    · have hbatch : IsBatch a := ⟨not_not.mp hcode, Bool.eq_true_of_not_eq_false hfilled⟩
      have next : before ++ [a] ++ rest = drv.batches := by simpa using hsplit
      refine Triple.bind (Triple.modify (Q := fun _ s => Pulling drv done dropped (n + 1)
        (s.record ⟨.batchRelease n, drv.answer (.batchRelease n)⟩))
        fun s pulled => pulled.next hbatch) fun _ => ?_
      refine Triple.bind (Triple.modify fun s pulling => pulling) fun _ => ih next ?_ (n + 1)
      intro b hb
      rcases List.mem_append.mp hb with hb | hb
      · exact hbefore b hb
      · rw [List.mem_singleton.mp hb]
        exact hbatch

theorem profile_spec {good : Prop} (verbose : Bool) :
    Triple (Closing drv cfg sql chain dropped good) (profile drv verbose)
      (fun _ => Closing drv cfg sql chain dropped good) R := by
  refine Triple.ite (fun _ => ?_) fun _ => Triple.pure fun _ h => h
  have used : ∀ e : Event, e.effect = .use [.lib] → ∀ gone, ∃ gone',
      Ledger.step parent ⟨chain, gone⟩ e.effect = some ⟨chain, gone'⟩ := by
    intro e heff gone
    rw [heff]
    exact ⟨gone, rfl⟩
  refine Triple.bind (Q := fun _ => Closing drv cfg sql chain dropped good) ?_ fun _ =>
    Triple.ite (fun _ => ?_) fun _ => Triple.pure fun _ h => h
  · refine (load_spec profileSymbol).weaken (fun _ h => h) ?_ fun _ _ h => h
    intro _ s hs
    obtain ⟨w, closing, loaded⟩ := hs
    exact closing.record (by simp [Event.Failed]) (used _ rfl) loaded.trace loaded.flags
      (by rw [loaded.out])
  · exact Triple.modify fun w closing =>
      closing.record (by simp [Event.Failed, Call.isVoid]) (used _ rfl) rfl rfl rfl

theorem drainPhase_spec (verbose : Bool) (hquery : Call.statementExecuteQuery ∈ done) :
    Triple (Fine drv ⟨.stream :: chain, [.schema]⟩ allSet done dropped) (drainPhase drv verbose)
      (GoesOn drv cfg sql (Closing drv cfg sql chain dropped (Drained drv done)))
      (fun _ _ => False) := by
  refine Triple.of_states fun w fine => ?_
  have hstream := releaseStream_eq (fine.done _ hquery)
  refine Triple.bind (Triple.modify (Q := fun _ => Pulling drv done dropped 0) ?_) fun _ => ?_
  · intro s hs
    rw [hs]
    refine ⟨[.schema], fine.noted rfl rfl rfl, ?_⟩
    intro k hk
    cases List.mem_singleton.mp hk
  have pulled : Triple (Pulling drv done dropped 0) (pull drv 0 drv.batches)
      (fun _ => Closing drv cfg sql (.stream :: chain) dropped (Drained drv done))
      (fun _ _ => False) := pull_spec (List.nil_append _) (fun _ h => nomatch h) 0
  refine Triple.bind pulled fun _ => ?_
  rw [hstream]
  refine Triple.bind (Triple.modify (Q := fun _ => Closing drv cfg sql chain dropped
    (Drained drv done)) ?_) fun _ => ?_
  · intro s closing
    exact closing.record (by simp [Event.Failed, Call.isVoid]) (fun _ => ⟨_, rfl⟩) rfl rfl rfl
  refine Triple.bind (Triple.modify (Q := fun _ => Closing drv cfg sql chain dropped
    (Drained drv done)) fun s closing => closing.noted rfl rfl rfl) fun _ => ?_
  refine Triple.bind (profile_spec verbose) fun _ => ?_
  refine Triple.read fun s closing => ?_
  refine Triple.ite (fun herror => ?_) fun _ => Triple.pure fun _ h => h ▸ closing
  refine Triple.weaken (P := Leaving drv cfg sql chain allSet)
    (Q := GoesOn drv cfg sql (Closing drv cfg sql chain dropped (Drained drv done)))
    chain_closes.leaves ?_ (fun _ _ h => h) fun _ _ h => h
  intro s' hs
  rw [hs]
  rcases closing.outcome with good | failed
  · exact absurd good.1 herror
  · exact ⟨closing.holds, closing.flags, failed.1, failed.2⟩

/-! ## The release -/

/-- A release whose failure is reported. -/
theorem reportRelease_spec {flag : Flags → Bool} {c : Call} {what : Str} {live rest : List Handle}
    {good : Prop} (hflag : flag allSet = true) (hc : c ∈ releaseCalls) (hends : Ends c live rest) :
    Triple (Closing drv cfg sql live dropped good) (reportRelease drv flag c what)
      (fun _ => Closing drv cfg sql rest dropped (good ∧ drv.ok c = true)) R := by
  refine Triple.read fun w closing => ?_
  refine Triple.ite (fun _ => ?_) fun hunset => absurd (closing.flags ▸ hflag) hunset
  obtain ⟨gone, holds⟩ := closing.holds
  obtain ⟨gone', hstep⟩ := hends gone (drv.answer c)
  have released : Holds (w.record ⟨c, drv.answer c⟩) ⟨rest, gone'⟩ := holds_record holds hstep
  refine Triple.bind (Triple.modify (Q := fun _ s => s = w.record ⟨c, drv.answer c⟩)
    fun s hs => by rw [hs]) fun _ => ?_
  refine Triple.ite (fun hreport => Triple.modify ?_) fun hreport => Triple.pure ?_
  · intro s hs
    subst hs
    refine ⟨⟨gone', released⟩, closing.flags, .inr ⟨by simp [World.setError], ?_⟩⟩
    intro passes
    exact absurd (hreport.1.symm.trans (passes.releases c hc)) Bool.false_ne_true
  · intro s hs
    subst hs
    refine ⟨⟨gone', released⟩, closing.flags, ?_⟩
    rcases closing.outcome with good | failed
    · have hok : drv.ok c = true := by
        by_contra hno
        exact hreport ⟨Bool.eq_false_iff.mpr hno, good.1⟩
      have recorded := not_failed hok
      refine .inl ⟨good.1, ⟨good.2.1, hok⟩, ?_⟩
      rw [← good.2.2]
      simp [World.record, or_and_right, exists_or, recorded]
    · exact .inr failed

theorem releasePhase_spec :
    Triple (Closing drv cfg sql chain (credentialCalls cfg) (Drained drv (checkedCalls cfg sql)))
      (releasePhase drv) (fun _ s => Finished drv cfg sql s ∨ Left drv cfg sql s) R := by
  have hcalls : ∀ c ∈ [Call.statementRelease, .connectionRelease, .databaseRelease],
      c ∈ releaseCalls := fun _ hc => hc
  refine Triple.bind (reportRelease_spec rfl (hcalls _ (by simp)) ends_statement) fun _ => ?_
  refine Triple.bind (reportRelease_spec rfl (hcalls _ (by simp)) ends_connection) fun _ => ?_
  refine Triple.bind (reportRelease_spec rfl (hcalls _ (by simp)) ends_database) fun _ => ?_
  refine Triple.bind (Triple.modify (Q := fun _ s => Finished drv cfg sql s ∨ Left drv cfg sql s) ?_)
    fun _ => Triple.modify ?_
  · intro w closing
    obtain ⟨gone, holds⟩ := closing.holds
    obtain ⟨gone', hstep⟩ := ends_lib gone (drv.answer .dlclose)
    have released : Released (w.record ⟨.dlclose, drv.answer .dlclose⟩) :=
      ⟨gone', holds_record holds hstep⟩
    rcases closing.outcome with ⟨herror, good, hfailed⟩ | ⟨herror, hfailed⟩
    · obtain ⟨⟨⟨⟨hdone, hends⟩, hstatement⟩, hconnection⟩, hdatabase⟩ := good
      refine .inl ⟨released, herror, ⟨hdone, hends, ?_⟩, ?_⟩
      · intro c hc
        simp only [releaseCalls, List.mem_cons, List.not_mem_nil, or_false] at hc
        rcases hc with rfl | rfl | rfl
        · exact hstatement
        · exact hconnection
        · exact hdatabase
      · have hclose : (Event.mk .dlclose (drv.answer .dlclose)).Failed ↔ drv.ok .dlclose = false := by
          simp [Event.Failed, Call.isVoid, profileSymbol, not_ok_iff]
        simp [World.record, discardedCalls, or_and_right, exists_or, hfailed, hclose]
    · exact .inr ⟨released, herror, hfailed⟩
  · intro s ended
    rcases ended with finished | left
    · exact .inl ⟨finished.released, finished.error, finished.passes, finished.failed⟩
    · exact .inr ⟨left.released, left.error, left.failed⟩

/-- **Where an iteration ends**: behind a failure it reports, or behind the release. The
one way out that is not a return is the missing entry point. -/
theorem runAdbcIter_spec (drv : Driver) (verbose : Bool) (cfg : Config) (sql : Str) :
    Triple (· = {}) (runAdbcIter drv verbose cfg sql)
      (fun _ s => ¬ NoEntryPoint drv cfg ∧ (Finished drv cfg sql s ∨ Left drv cfg sql s))
      (fun h _ => h = .raised ∧ NoEntryPoint drv cfg) := by
  refine Triple.bind ((loadPhase_spec sql).weaken (fun s hs => hs ▸ Fine.start) (fun _ _ h => h)
    fun _ _ h => h) fun go => ?_
  refine Triple.of_states fun s hs => ?_
  obtain ⟨hentry, loaded⟩ := hs
  cases go with
  | false => exact Triple.pure fun s' hs' => ⟨hentry, .inr (hs' ▸ loaded)⟩
  | true =>
    refine Triple.weaken (P := Fine drv ⟨[.lib], []⟩ {} [.dlopen cfg.adbcSo, initSymbol, .driverInit] [])
      (Q := fun _ s => Finished drv cfg sql s ∨ Left drv cfg sql s) (R := fun _ _ => False) ?_
      (fun s' hs' => hs' ▸ loaded) (fun _ _ h => ⟨hentry, h⟩) fun _ _ h => h.elim
    refine Triple.guard databasePhase_spec ?_ fun _ h => .inr h
    refine Triple.guard connectPhase_spec ?_ fun _ h => .inr h
    refine Triple.guard preparePhase_spec ?_ fun _ h => .inr h
    refine Triple.guard executePhase_spec ?_ fun _ h => .inr h
    exact Triple.guard (drainPhase_spec verbose (by simp)) releasePhase_spec fun _ h => .inr h

end DeltaForgeBench.Drivers.Adbc
