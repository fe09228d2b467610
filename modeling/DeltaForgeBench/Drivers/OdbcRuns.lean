import DeltaForgeBench.Drivers.Odbc

/-! # Runs of the ODBC path

Up to the release, an iteration that is still going holds a chain of handles,
each opened on the next; wherever it leaves, the chain is released from its end
and the error says why. -/
namespace DeltaForgeBench.Drivers.Odbc
open DeltaForgeBench.Base.Text DeltaForgeBench.Base.Handles DeltaForgeBench.Base.Interrupt
open DeltaForgeBench.Drivers

/-! ## The handles held -/

/-- All a run opens, the last one first. -/
def chain : List Handle := [.stmt, .connection, .dbc, .env]

/-- The handles of the trace, and what the variables say of them. -/
structure Held (live : List Handle) (w : World) : Prop where
  accepted : Accepts parent (w.trace.map Event.effect) ⟨live, []⟩
  henv : w.henv = if .env ∈ live then some .env else none
  hdbc : w.hdbc = if .dbc ∈ live then some .dbc else none
  hstmt : w.hstmt = if .stmt ∈ live then some .stmt else none
  connected : w.connected = decide (.connection ∈ live)

/-- Nothing is left live. -/
def Released (w : World) : Prop :=
  ∃ gone, Accepts parent (w.trace.map Event.effect) ⟨[], gone⟩

theorem chain_cases {live : List Handle} (h : live <:+ chain) :
    live = [.stmt, .connection, .dbc, .env] ∨ live = [.connection, .dbc, .env] ∨
      live = [.dbc, .env] ∨ live = [.env] ∨ live = [] := by
  simpa [chain, List.suffix_cons_iff] using h

theorem accepts_record {w : World} {l m : Ledger Handle} {e : Event}
    (h : Accepts parent (w.trace.map Event.effect) l) (hstep : l.step parent e.effect = some m) :
    Accepts parent ((w.record e).trace.map Event.effect) m := by
  rw [World.record, List.map_append]
  exact accepts_concat.mpr ⟨l, h, hstep⟩

variable {drv : Driver}

/-- The call that ends a handle. -/
def freeing : Handle → Call
  | .connection => .disconnect
  | h => .freeHandle h

/-- What `free_handles` adds to the trace. -/
def freed (drv : Driver) (live : List Handle) : List Event :=
  (live.map freeing).map fun c => ⟨c, drv.answer c⟩

theorem freeHandles_run {live : List Handle} {w : World} (held : Held live w)
    (hchain : live <:+ chain) :
    freeHandles drv w = (.ok (), { w with trace := w.trace ++ freed drv live }) := by
  obtain ⟨-, henv, hdbc, hstmt, hconnected⟩ := held
  obtain ⟨trace, env, dbc, stmt, connected, rowCount, out⟩ := w
  simp only at henv hdbc hstmt hconnected
  subst henv hdbc hstmt hconnected
  rcases chain_cases hchain with rfl | rfl | rfl | rfl | rfl
  all_goals
    simp [freeHandles, freeHandle, call, World.record, freed, freeing, run_bind, run_pure, run_get,
      run_modify]

theorem Held.released {live : List Handle} {w : World} (held : Held live w)
    (hchain : live <:+ chain) (drv : Driver) : Released { w with trace := w.trace ++ freed drv live } := by
  refine ⟨live.reverse, ?_⟩
  rw [List.map_append]
  refine accepts_append.mpr ⟨_, held.accepted, ?_⟩
  rcases chain_cases hchain with rfl | rfl | rfl | rfl | rfl
  all_goals rfl

theorem Held.use {live : List Handle} {w : World} {e : Event} {h : Handle} (held : Held live w)
    (heff : e.effect = .use [h]) (hh : h ∈ live) : Held live (w.record e) := by
  refine ⟨accepts_record held.accepted ?_, held.henv, held.hdbc, held.hstmt, held.connected⟩
  simp [Ledger.step, heff, Effect.uses, hh]

/-! ## A failed check -/

theorem readDiag_run (drv : Driver) (h : Handle) (a : Answer) (w : World) :
    ∃ text, readDiag drv h a w =
      (.ok text, w.record ⟨.getDiagRec h, drv.answer (.getDiagRec h)⟩) := by
  simp only [readDiag, call, run_bind, run_modify]
  split
  · exact ⟨_, rfl⟩
  · exact ⟨_, rfl⟩

theorem checked_failed {live : List Handle} {w : World} {a : Answer} {h : Handle} (what place : Str)
    (held : Held live w) (hchain : live <:+ chain) (hh : h ∈ live)
    (hfail : succeeded a.rc = false) :
    ∃ s, checked drv a what place h w = (.ok false, s) ∧ Released s ∧ s.out.error ≠ [] := by
  obtain ⟨text, hdiag⟩ := readDiag_run drv h a w
  have held' : Held live ((w.record ⟨.getDiagRec h, drv.answer (.getDiagRec h)⟩).setError
      (what ++ " failed".toList ++ place ++ ": ".toList ++ text)) := by
    have read := held.use (e := ⟨.getDiagRec h, drv.answer (.getDiagRec h)⟩) rfl hh
    exact ⟨read.accepted, read.henv, read.hdbc, read.hstmt, read.connected⟩
  refine ⟨_, ?_, held'.released hchain drv, ?_⟩
  · simp only [checked, hfail, Bool.false_eq_true, if_false, run_bind, hdiag, run_modify,
      freeHandles_run held' hchain, run_pure]
  · simp [World.setError]

theorem checked_succeeded {w : World} {a : Answer} {what place : Str} {h : Handle}
    (hok : succeeded a.rc = true) : checked drv a what place h w = (.ok true, w) := by
  simp [checked, hok, run_pure]

/-! ## What a run depends on -/

/-- A call that did not do what it was made for; the end of the data is not a failure. -/
def Event.Failed (e : Event) : Prop :=
  succeeded e.answer.rc = false ∧
    ¬ (e.answer.rc = noData ∧ (e.call = .fetch ∨ ∃ row i cType len, e.call = .getData row i cType len))

/-- The driver says that a cell was longer than its buffer. -/
def Answer.Truncated (a : Answer) : Prop :=
  a.rc = successWithInfo ∧ ∃ d ∈ a.diag, d.sqlstate = "01004".toList

def Event.Faulty (e : Event) : Prop := e.Failed ∨ (e.call = .fetch ∧ e.answer.Truncated)

def columnCalls (drv : Driver) (useGetdata : Bool) (i : Nat) : List Call :=
  .describeCol (i + 1) ::
    if useGetdata then [] else [.bindCol (i + 1) (bufferType drv i) (bufferLen drv i)]

/-- The calls before the drain, whose results are checked. -/
def checkedCalls (drv : Driver) (cfg : Config) (sql : Str) (useGetdata : Bool) : List Call :=
  [.allocHandle .env, .setEnvAttr, .allocHandle .dbc, connectCall cfg, .allocHandle .stmt,
    .execDirect sql, .numResultCols] ++ (List.range drv.ncols).flatMap (columnCalls drv useGetdata)

/-- The rows fetched. -/
def Driver.rows (drv : Driver) : List Answer := drv.fetches.takeWhile fun a => succeeded a.rc

def Driver.cell (drv : Driver) (row i : Nat) : Answer :=
  drv.answer (.getData (row + 1) (i + 1) (bufferType drv i) (bufferLen drv i))

/-- No checked call of the iteration fails. -/
structure Passes (drv : Driver) (cfg : Config) (sql : Str) (useGetdata : Bool) : Prop where
  calls : ∀ c ∈ checkedCalls drv cfg sql useGetdata, succeeded (drv.answer c).rc = true
  cells : useGetdata = true → ∀ row < drv.rows.length, ∀ i < drv.ncols,
    succeeded (drv.cell row i).rc = true ∨ (drv.cell row i).rc = noData
  ends : ∀ a ∈ (drv.fetches.dropWhile fun a => succeeded a.rc).head?, a.rc = noData

/-! ## Still going, or left -/

/-- What holds of an iteration that is still going, behind the calls `done`. -/
structure Fine (drv : Driver) (live : List Handle) (done : List Call) (truncated : Prop)
    (w : World) : Prop where
  held : Held live w
  error : w.out.error = []
  done : ∀ c ∈ done, succeeded (drv.answer c).rc = true
  faulty : (∃ e ∈ w.trace, e.Faulty) ↔ truncated

/-- What holds where an iteration left early. -/
structure Left (drv : Driver) (cfg : Config) (sql : Str) (useGetdata : Bool) (w : World) : Prop where
  released : Released w
  error : w.out.error ≠ []
  failed : ¬ Passes drv cfg sql useGetdata

/-- Where a check lets an iteration go on, `M` holds. -/
abbrev GoesOn (drv : Driver) (cfg : Config) (sql : Str) (useGetdata : Bool) (M : World → Prop) :
    Bool → World → Prop :=
  fun go s => if go = true then M s else Left drv cfg sql useGetdata s

section Specs
variable {cfg : Config} {sql : Str} {useGetdata : Bool} {live : List Handle} {done : List Call}
  {truncated : Prop} {R : Halt → World → Prop}

theorem not_faulty {c : Call} {a : Answer} (hok : succeeded a.rc = true) (hfetch : c ≠ .fetch) :
    ¬ (Event.mk c a).Faulty := by
  simp [Event.Faulty, Event.Failed, hok, hfetch]

theorem faulty_fetch {a : Answer} (hok : succeeded a.rc = true) :
    (Event.mk .fetch a).Faulty ↔ a.Truncated := by
  simp [Event.Faulty, Event.Failed, hok]

theorem Fine.record {live' : List Handle} {e : Event} {w s : World}
    (fine : Fine drv live done truncated w) (hfaulty : ¬ e.Faulty) (held : Held live' s)
    (htrace : s.trace = w.trace ++ [e]) (herror : s.out.error = w.out.error) :
    Fine drv live' done truncated s := by
  refine ⟨held, herror.trans fine.error, fine.done, ?_⟩
  simp [htrace, or_and_right, exists_or, fine.faulty, hfaulty]

/-- One more checked call has succeeded. -/
theorem Fine.succeed {live' : List Handle} {c : Call} {w s : World}
    (fine : Fine drv live done truncated w) (hok : succeeded (drv.answer c).rc = true)
    (hfetch : c ≠ .fetch) (held : Held live' s) (htrace : s.trace = w.trace ++ [⟨c, drv.answer c⟩])
    (herror : s.out.error = w.out.error) : Fine drv live' (done ++ [c]) truncated s := by
  have recorded := fine.record (not_faulty hok hfetch) held htrace herror
  refine ⟨recorded.held, recorded.error, ?_, recorded.faulty⟩
  intro c' hc'
  rcases List.mem_append.mp hc' with hc' | hc'
  · exact recorded.done c' hc'
  · rw [List.mem_singleton.mp hc']
    exact hok

/-- The rule of a check: `P` before it, `M` behind a success. -/
theorem checked_spec {P M : World → Prop} {a : Answer} {what place : Str} {h : Handle}
    (hchain : live <:+ chain) (hh : h ∈ live)
    (hneed : succeeded a.rc = false → ¬ Passes drv cfg sql useGetdata)
    (hok : ∀ s, P s → succeeded a.rc = true → M s)
    (hfail : ∀ s, P s → succeeded a.rc = false → Held live s) :
    Triple P (checked drv a what place h)
      (GoesOn drv cfg sql useGetdata M) R := by
  intro w hw
  cases hrc : succeeded a.rc with
  | true =>
    rw [checked_succeeded hrc]
    exact hok w hw hrc
  | false =>
    obtain ⟨s, hrun, hreleased, herror⟩ := checked_failed what place (hfail w hw hrc) hchain hh hrc
    rw [hrun]
    exact ⟨hreleased, herror, hneed hrc⟩

theorem needed {c : Call} (hc : c ∈ checkedCalls drv cfg sql useGetdata)
    (hfail : succeeded (drv.answer c).rc = false) : ¬ Passes drv cfg sql useGetdata := by
  intro passes
  rw [passes.calls c hc] at hfail
  cases hfail

theorem ne_fetch {c : Call} (hc : c ∈ checkedCalls drv cfg sql useGetdata) : c ≠ .fetch := by
  intro heq
  subst heq
  cases useGetdata <;> simp [checkedCalls, columnCalls, connectCall] at hc

/-- A checked call on a handle that stays as it is. -/
theorem attempt_spec {c : Call} {what place : Str} {h : Handle}
    (hc : c ∈ checkedCalls drv cfg sql useGetdata)
    (heff : ∀ a, (Event.mk c a).effect = .use [h]) (hchain : live <:+ chain) (hh : h ∈ live) :
    Triple (Fine drv live done truncated) (attempt drv c what place h)
      (GoesOn drv cfg sql useGetdata (Fine drv live (done ++ [c]) truncated)) R := by
  refine Triple.bind (Triple.modify (Q := fun _ s => ∃ w, Fine drv live done truncated w ∧
    s = w.record ⟨c, drv.answer c⟩) fun w hw => ⟨w, hw, rfl⟩) fun _ => ?_
  refine checked_spec hchain hh (needed hc) ?_ ?_
  · intro s hs hok
    obtain ⟨w, fine, rfl⟩ := hs
    exact fine.succeed hok (ne_fetch hc) (fine.held.use (heff _) hh) rfl rfl
  · intro s hs _
    obtain ⟨w, fine, rfl⟩ := hs
    exact fine.held.use (heff _) hh

/-- A call, and what the program notes of its output. -/
theorem called_spec {c : Call} {note : World → World} {k : Program World Bool}
    {Q : Bool → World → Prop}
    (hk : Triple (fun s => ∃ w, Fine drv live done truncated w ∧
      s = note (w.record ⟨c, drv.answer c⟩)) k Q R) :
    Triple (Fine drv live done truncated)
      (call drv c >>= fun _ => modify note >>= fun _ => k) Q R := by
  refine Triple.bind (Triple.modify (Q := fun _ s => ∃ w, Fine drv live done truncated w ∧
    s = w.record ⟨c, drv.answer c⟩) fun w hw => ⟨w, hw, rfl⟩) fun _ => ?_
  refine Triple.bind (Triple.modify ?_) fun _ => hk
  intro s hs
  obtain ⟨w, fine, rfl⟩ := hs
  exact ⟨w, fine, rfl⟩

/-- A note of the program that the handles and the error do not depend on. -/
theorem noted_spec {note : World → World}
    (hnote : ∀ w, Fine drv live done truncated w → Fine drv live done truncated (note w)) :
    Triple (Fine drv live done truncated) (modify note >>= fun _ => pure true)
      (GoesOn drv cfg sql useGetdata (Fine drv live done truncated)) R :=
  Triple.bind (Triple.modify hnote) fun _ => Triple.pure fun _ h => h

/-- The variables the handles and the error do not depend on. -/
theorem Fine.noted {w : World} {n : Nat} {out : PhaseTimings} (fine : Fine drv live done truncated w)
    (herror : out.error = w.out.error) :
    Fine drv live done truncated { w with rowCount := n, out := out } :=
  ⟨⟨fine.held.accepted, fine.held.henv, fine.held.hdbc, fine.held.hstmt, fine.held.connected⟩,
    herror.trans fine.error, fine.done, fine.faulty⟩

/-! ## The phases -/

theorem output_of {h : Handle} {b : Bool} (hrc : succeeded (drv.answer (.allocHandle h)).rc = b) :
    drv.output h = if b = true then some h else none := by
  rw [Driver.output, drv.handleSet_eq, hrc]

theorem Fine.start : Fine drv [] [] False {} :=
  ⟨⟨Accepts.nil, rfl, rfl, rfl, rfl⟩, rfl, (fun _ h => nomatch h), by simp⟩

/-- The handle an allocation leaves, on a chain it extends. -/
theorem allocated_step {h : Handle} {b : Bool} {a : Answer} (hrc : succeeded a.rc = b)
    (hparent : ∀ p, parent h = some p → p ∈ live) (hnew : h ∉ live) :
    Ledger.step parent ⟨live, []⟩ (Event.mk (.allocHandle h) a).effect =
      some ⟨if b = true then h :: live else live, []⟩ := by
  cases b with
  | true => simp_all [Event.effect, Ledger.step, Effect.uses]
  | false => simp_all [Event.effect, Ledger.step, Effect.uses]

theorem allocated_accepts {h : Handle} {b : Bool} {w : World} (held : Held live w)
    (hrc : succeeded (drv.answer (.allocHandle h)).rc = b)
    (hparent : ∀ p, parent h = some p → p ∈ live) (hnew : h ∉ live) :
    Accepts parent
      ((w.record ⟨.allocHandle h, drv.answer (.allocHandle h)⟩).trace.map Event.effect)
      ⟨if b = true then h :: live else live, []⟩ :=
  accepts_record held.accepted (allocated_step hrc hparent hnew)

theorem connected_step {b : Bool} {a : Answer} (hrc : succeeded a.rc = b) :
    Ledger.step parent ⟨[.dbc, .env], []⟩ (Event.mk (connectCall cfg) a).effect =
      some ⟨if b = true then [.connection, .dbc, .env] else [.dbc, .env], []⟩ := by
  have heff : (Event.mk (connectCall cfg) a).effect =
      if succeeded a.rc = true then .create [.dbc] .connection else .use [.dbc] := rfl
  rw [heff, hrc]
  cases b <;> rfl

/-- The environment; its failure leaves without a diagnostic. -/
theorem openEnv_spec {k : Program World Bool} {M : World → Prop}
    (hk : Triple (Fine drv [.env] [.allocHandle .env] False) k (GoesOn drv cfg sql useGetdata M) R) :
    Triple (Fine drv [] [] False)
      (do
        call drv (.allocHandle .env)
        modify fun w => { w with henv := drv.output .env }
        unless succeeded (drv.answer (.allocHandle .env)).rc do
          modify fun w => w.setError "SQLAllocHandle(ENV) failed".toList
          return false
        k)
      (GoesOn drv cfg sql useGetdata M) R := by
  have hcall : Call.allocHandle .env ∈ checkedCalls drv cfg sql useGetdata := .head _
  refine called_spec (Triple.ite (fun hok => ?_) fun hno => ?_)
  · refine hk.weaken ?_ (fun _ _ h => h) fun _ _ h => h
    intro s hs
    obtain ⟨w, fine, rfl⟩ := hs
    refine fine.succeed hok (ne_fetch hcall) ?_ rfl rfl
    exact ⟨allocated_accepts fine.held hok (by simp [parent]) (by simp), output_of hok,
      fine.held.hdbc, fine.held.hstmt, fine.held.connected⟩
  · have hrc := Bool.eq_false_iff.mpr hno
    refine Triple.bind (Triple.modify (Q := fun _ => Left drv cfg sql useGetdata) ?_)
      fun _ => Triple.pure fun _ h => h
    intro s hs
    obtain ⟨w, fine, rfl⟩ := hs
    exact ⟨⟨[], allocated_accepts fine.held hrc (by simp [parent]) (by simp)⟩,
      List.cons_ne_nil _ _, needed hcall hrc⟩

/-- A handle under one that is held; `note` keeps it in its variable. -/
theorem allocate_spec {h under : Handle} {note : World → World} {what : Str}
    {k : Program World Bool} {M : World → Prop}
    (hc : Call.allocHandle h ∈ checkedCalls drv cfg sql useGetdata) (hchain : live <:+ chain)
    (hunder : under ∈ live)
    (hnote : ∀ w b, succeeded (drv.answer (.allocHandle h)).rc = b → Held live w →
      Held (if b = true then h :: live else live)
        (note (w.record ⟨.allocHandle h, drv.answer (.allocHandle h)⟩)))
    (htrace : ∀ w, (note w).trace = w.trace) (hout : ∀ w, (note w).out = w.out)
    (hk : Triple (Fine drv (h :: live) (done ++ [.allocHandle h]) truncated) k
      (GoesOn drv cfg sql useGetdata M) R) :
    Triple (Fine drv live done truncated)
      (do
        call drv (.allocHandle h)
        modify note
        unless ← checked drv (drv.answer (.allocHandle h)) what [] under do return false
        k)
      (GoesOn drv cfg sql useGetdata M) R := by
  refine called_spec (Triple.guard (checked_spec hchain hunder (needed hc) ?_ ?_) hk fun _ h => h)
  · intro s hs hok
    obtain ⟨w, fine, rfl⟩ := hs
    exact fine.succeed hok (ne_fetch hc) (hnote w true hok fine.held) (htrace _) (by rw [hout]; rfl)
  · intro s hs hno
    obtain ⟨w, fine, rfl⟩ := hs
    exact hnote w false hno fine.held

theorem connect_spec {k : Program World Bool} {M : World → Prop}
    (hc : connectCall cfg ∈ checkedCalls drv cfg sql useGetdata)
    (hk : Triple (Fine drv [.connection, .dbc, .env] (done ++ [connectCall cfg]) truncated) k
      (GoesOn drv cfg sql useGetdata M) R) :
    Triple (Fine drv [.dbc, .env] done truncated)
      (do
        unless ← attempt drv (connectCall cfg) "SQLConnect".toList [] .dbc do return false
        modify fun w => { w with connected := true }
        k)
      (GoesOn drv cfg sql useGetdata M) R := by
  let e : Event := ⟨connectCall cfg, drv.answer (connectCall cfg)⟩
  refine Triple.guard (M := fun s => ∃ w, Fine drv [.dbc, .env] done truncated w ∧
    succeeded (drv.answer (connectCall cfg)).rc = true ∧ s = w.record e) ?_ ?_ fun _ h => h
  · refine Triple.bind (Triple.modify (Q := fun _ s => ∃ w, Fine drv [.dbc, .env] done truncated w ∧
      s = w.record e) fun w hw => ⟨w, hw, rfl⟩) fun _ => ?_
    refine checked_spec (List.drop_suffix 2 chain) (.head _) (needed hc) ?_ ?_
    · intro s hs hok
      obtain ⟨w, fine, rfl⟩ := hs
      exact ⟨w, fine, hok, rfl⟩
    · intro s hs hno
      obtain ⟨w, fine, rfl⟩ := hs
      exact ⟨accepts_record fine.held.accepted (connected_step hno), fine.held.henv, fine.held.hdbc,
        fine.held.hstmt, fine.held.connected⟩
  · refine Triple.bind (Triple.modify ?_) fun _ => hk
    intro s hs
    obtain ⟨w, fine, hok, rfl⟩ := hs
    refine fine.succeed hok (ne_fetch hc) ?_ rfl rfl
    exact ⟨accepts_record fine.held.accepted (connected_step hok), fine.held.henv, fine.held.hdbc,
      fine.held.hstmt, rfl⟩

theorem connectPhase_spec :
    Triple (Fine drv [] [] False) (connectPhase drv cfg)
      (GoesOn drv cfg sql useGetdata (Fine drv chain
        [.allocHandle .env, .setEnvAttr, .allocHandle .dbc, connectCall cfg, .allocHandle .stmt]
        False)) R := by
  have hcalls : ∀ c ∈ [Call.allocHandle .env, .setEnvAttr, .allocHandle .dbc, connectCall cfg,
      .allocHandle .stmt], c ∈ checkedCalls drv cfg sql useGetdata := by
    intro c hc
    refine List.mem_append_left _ ?_
    exact List.mem_append_left [.execDirect sql, .numResultCols] hc
  have henv : [Handle.env] <:+ chain := List.drop_suffix 3 chain
  have hconnection : [Handle.connection, .dbc, .env] <:+ chain := List.drop_suffix 1 chain
  refine openEnv_spec ?_
  refine Triple.guard (attempt_spec (hcalls _ (by simp)) (fun _ => rfl) henv (by simp)) ?_ fun _ h => h
  refine allocate_spec (hcalls _ (by simp)) henv (by simp) ?_ (fun _ => rfl) (fun _ => rfl) ?_
  · intro w b hb held
    have accepted := allocated_accepts held hb (by simp [parent]) (by simp)
    cases b with
    | true => exact ⟨accepted, held.henv, output_of hb, held.hstmt, held.connected⟩
    | false => exact ⟨accepted, held.henv, output_of hb, held.hstmt, held.connected⟩
  refine connect_spec (hcalls _ (by simp)) ?_
  refine allocate_spec (hcalls _ (by simp)) hconnection (by simp) ?_ (fun _ => rfl) (fun _ => rfl)
    (noted_spec ?_)
  · intro w b hb held
    have accepted := allocated_accepts held hb (by simp [parent]) (by simp)
    cases b with
    | true => exact ⟨accepted, held.henv, held.hdbc, output_of hb, held.connected⟩
    | false => exact ⟨accepted, held.henv, held.hdbc, output_of hb, held.connected⟩
  · intro w fine
    exact fine.noted rfl

theorem stmt_mem_chain : Handle.stmt ∈ chain := .head _

theorem executePhase_spec :
    Triple (Fine drv chain done False) (executePhase drv sql)
      (GoesOn drv cfg sql useGetdata (Fine drv chain (done ++ [.execDirect sql]) False)) R := by
  have hcall : Call.execDirect sql ∈ checkedCalls drv cfg sql useGetdata := by
    simp [checkedCalls]
  refine Triple.guard (attempt_spec hcall (fun _ => rfl) List.suffix_rfl stmt_mem_chain)
    (noted_spec ?_) fun _ h => h
  intro w fine
  exact fine.noted rfl

theorem columnCalls_subset {i : Nat} (hi : i < drv.ncols) {c : Call}
    (hc : c ∈ columnCalls drv useGetdata i) : c ∈ checkedCalls drv cfg sql useGetdata :=
  List.mem_append_right _ (List.mem_flatMap.mpr ⟨i, List.mem_range.mpr hi, hc⟩)

theorem describeColumn_spec {i : Nat} (hi : i < drv.ncols) :
    Triple (Fine drv chain done False) (describeColumn drv useGetdata i)
      (GoesOn drv cfg sql useGetdata
        (Fine drv chain (done ++ columnCalls drv useGetdata i) False)) R := by
  have hcalls : ∀ c ∈ columnCalls drv useGetdata i, c ∈ checkedCalls drv cfg sql useGetdata :=
    fun c hc => columnCalls_subset hi hc
  refine Triple.guard (attempt_spec (hcalls _ (.head _)) (fun _ => rfl) List.suffix_rfl stmt_mem_chain)
    ?_ fun _ h => h
  cases useGetdata with
  | true => exact Triple.pure fun _ h => h
  | false =>
    have both : done ++ columnCalls drv false i = done ++ [.describeCol (i + 1)] ++
        [.bindCol (i + 1) (bufferType drv i) (bufferLen drv i)] := by simp [columnCalls]
    rw [both]
    exact attempt_spec (hcalls _ (by simp [columnCalls])) (fun _ => rfl) List.suffix_rfl stmt_mem_chain

theorem bindPhase_spec :
    Triple (Fine drv chain done False) (bindPhase drv useGetdata)
      (GoesOn drv cfg sql useGetdata (Fine drv chain (done ++ [.numResultCols] ++
        (List.range drv.ncols).flatMap (columnCalls drv useGetdata)) False)) R := by
  have hcall : Call.numResultCols ∈ checkedCalls drv cfg sql useGetdata := by
    simp [checkedCalls]
  refine Triple.guard (attempt_spec hcall (fun _ => rfl) List.suffix_rfl stmt_mem_chain) ?_ fun _ h => h
  refine Triple.bind (Triple.modify (Q := fun _ => Fine drv chain (done ++ [.numResultCols]) False)
    ?_) fun _ => ?_
  · intro w fine
    exact fine.noted rfl
  refine Triple.guard ?_ (noted_spec fun w fine => fine.noted rfl) fun _ h => h
  have loop : Triple _ (forWhile (describeColumn drv useGetdata) (List.range drv.ncols)) _ R :=
    Triple.forWhile
      (fun is => Fine drv chain
        (done ++ [.numResultCols] ++ is.flatMap (columnCalls drv useGetdata)) False)
      (Left drv cfg sql useGetdata) (List.range drv.ncols) ?_
  · rw [List.flatMap_nil, List.append_nil] at loop
    exact loop
  · intro before i hstart
    have hi : i < drv.ncols := List.mem_range.mp (hstart.subset (by simp))
    rw [List.flatMap_append, List.flatMap_singleton, ← List.append_assoc]
    exact describeColumn_spec hi

/-! ## The drain -/

/-- The row with this number was fetched and its cells were read. -/
def CellsRead (drv : Driver) (useGetdata : Bool) (row : Nat) : Prop :=
  useGetdata = true → ∀ i < drv.ncols,
    succeeded (drv.cell row i).rc = true ∨ (drv.cell row i).rc = noData

/-- Still going, behind the rows `before`. -/
structure Draining (drv : Driver) (done : List Call) (before : List Answer) (w : World) : Prop where
  fine : Fine drv chain done (∃ a ∈ before, a.Truncated) w
  rowCount : w.rowCount = before.length

/-- The rows `before` have been fetched, and `rest` is yet to come. -/
structure Fetched (drv : Driver) (useGetdata : Bool) (before rest : List Answer) : Prop where
  split : before ++ rest = drv.fetches
  rows : ∀ b ∈ before, succeeded b.rc = true
  cells : ∀ row < before.length, CellsRead drv useGetdata row

namespace Fetched
variable {before rest : List Answer} {a : Answer}

theorem rows_of_end (f : Fetched drv useGetdata before (a :: rest))
    (hend : succeeded a.rc = false) :
    drv.rows = before ∧ drv.fetches.dropWhile (fun a => succeeded a.rc) = a :: rest := by
  rw [Driver.rows, ← f.split]
  constructor
  · rw [List.takeWhile_append_of_pos f.rows, List.takeWhile_cons_of_neg (by simp [hend]),
      List.append_nil]
  · rw [List.dropWhile_append_of_pos f.rows, List.dropWhile_cons_of_neg (by simp [hend])]

theorem length_lt_rows (f : Fetched drv useGetdata before (a :: rest))
    (hrow : succeeded a.rc = true) : before.length < drv.rows.length := by
  have hkept : drv.rows = before ++ a :: rest.takeWhile (fun a => succeeded a.rc) := by
    rw [Driver.rows, ← f.split, List.takeWhile_append_of_pos f.rows, List.takeWhile_cons, if_pos hrow]
  rw [hkept, List.length_append, List.length_cons]
  omega

theorem not_passes (f : Fetched drv useGetdata before (a :: rest)) (hfail : succeeded a.rc = false)
    (hmore : a.rc ≠ noData) : ¬ Passes drv cfg sql useGetdata := by
  intro passes
  have hends := passes.ends a
  rw [(f.rows_of_end hfail).2] at hends
  exact hmore (hends rfl)

theorem next (f : Fetched drv useGetdata before (a :: rest)) (hok : succeeded a.rc = true)
    (hread : CellsRead drv useGetdata before.length) :
    Fetched drv useGetdata (before ++ [a]) rest := by
  refine ⟨by simpa using f.split, ?_, ?_⟩
  · intro b hb
    rcases List.mem_append.mp hb with hb | hb
    · exact f.rows b hb
    · rw [List.mem_singleton.mp hb]
      exact hok
  · intro row hlt
    rw [List.length_append, List.length_singleton] at hlt
    rcases Nat.lt_succ_iff_lt_or_eq.mp hlt with hlt | heq
    · exact f.cells row hlt
    · rw [heq]
      exact hread

end Fetched

theorem pullCell_spec {row i : Nat} (hrow : row < drv.rows.length) (hi : i < drv.ncols)
    (hmode : useGetdata = true) :
    Triple (fun w => Fine drv chain done truncated w ∧ w.rowCount = row) (pullCell drv i)
      (GoesOn drv cfg sql useGetdata fun s => (Fine drv chain done truncated s ∧ s.rowCount = row) ∧
        (succeeded (drv.cell row i).rc = true ∨ (drv.cell row i).rc = noData)) R := by
  refine Triple.read fun w hw => ?_
  obtain ⟨fine, hcount⟩ := hw
  rw [hcount]
  let e : Event := ⟨.getData (row + 1) (i + 1) (bufferType drv i) (bufferLen drv i), drv.cell row i⟩
  have held : Held chain (w.record e) := fine.held.use rfl stmt_mem_chain
  refine Triple.bind (Triple.modify (Q := fun _ s => s = w.record e) ?_) fun _ => ?_
  · intro s hs
    rw [hs]
    rfl
  refine Triple.ite (fun hend => Triple.pure ?_) (fun hmore => ?_)
  · intro s hs
    subst hs
    refine ⟨⟨fine.record ?_ held rfl rfl, hcount⟩, .inr hend⟩
    have hend : (drv.cell row i).rc = noData := hend
    simp [e, Event.Faulty, Event.Failed, hend]
  · refine checked_spec List.suffix_rfl stmt_mem_chain ?_ ?_ ?_
    · intro hfail passes
      rcases passes.cells hmode row hrow i hi with hok | hend
      · exact absurd (hfail.symm.trans hok) (by simp)
      · exact hmore hend
    · intro s hs hok
      subst hs
      exact ⟨⟨fine.record (not_faulty hok (by simp)) held rfl rfl, hcount⟩, .inl hok⟩
    · intro s hs _
      subst hs
      exact held

theorem pullRow_spec {row : Nat} (hrow : row < drv.rows.length) :
    Triple (fun w => Fine drv chain done truncated w ∧ w.rowCount = row) (pullRow drv useGetdata)
      (GoesOn drv cfg sql useGetdata fun s => (Fine drv chain done truncated s ∧ s.rowCount = row) ∧
        CellsRead drv useGetdata row) R := by
  refine Triple.ite (fun hmode => ?_) (fun hmode => ?_)
  · have loop : Triple _ (forWhile (pullCell drv) (List.range drv.ncols)) _ R :=
      Triple.forWhile
        (fun is w => (Fine drv chain done truncated w ∧ w.rowCount = row) ∧
          ∀ i ∈ is, succeeded (drv.cell row i).rc = true ∨ (drv.cell row i).rc = noData)
        (Left drv cfg sql useGetdata) (List.range drv.ncols) ?_
    · refine loop.weaken (fun w hw => ⟨hw, fun _ h => nomatch h⟩) ?_ fun _ _ h => h
      intro go s hs
      cases go with
      | true => exact ⟨hs.1, fun _ i hi => hs.2 i (List.mem_range.mpr hi)⟩
      | false => exact hs
    · intro before i hstart
      have hi : i < drv.ncols := List.mem_range.mp (hstart.subset (by simp))
      refine Triple.of_states fun w hw => ?_
      have cell : Triple (fun w => Fine drv chain done truncated w ∧ w.rowCount = row)
          (pullCell drv i) (GoesOn drv cfg sql useGetdata _) R := pullCell_spec hrow hi hmode
      refine cell.weaken (fun s hs => hs ▸ hw.1) ?_ fun _ _ h => h
      intro go s hs
      cases go with
      | true =>
        refine ⟨hs.1, fun j hj => ?_⟩
        rcases List.mem_append.mp hj with hj | hj
        · exact hw.2 j hj
        · rw [List.mem_singleton.mp hj]
          exact hs.2
      | false => exact hs
  · exact Triple.pure fun s hs => ⟨hs, fun h => absurd h hmode⟩

/-- What the drain leaves behind when it comes to the end of the rows. -/
structure Drained (drv : Driver) (useGetdata : Bool) (done : List Call) (w : World) : Prop where
  fine : Fine drv chain done (∃ a ∈ drv.rows, a.Truncated) w
  cells : ∀ row < drv.rows.length, CellsRead drv useGetdata row
  ends : ∀ a ∈ (drv.fetches.dropWhile fun a => succeeded a.rc).head?, a.rc = noData

theorem Draining.ended {before rest : List Answer} {a : Answer} {w : World}
    (draining : Draining drv done before w) (fetched : Fetched drv useGetdata before (a :: rest))
    (hend : a.rc = noData) : Drained drv useGetdata done (w.record ⟨.fetch, a⟩) := by
  have hlast : succeeded a.rc = false := by simp [hend, succeeded, noData]
  obtain ⟨hrows, hrest⟩ := fetched.rows_of_end hlast
  refine ⟨?_, ?_, ?_⟩
  · rw [hrows]
    refine draining.fine.record ?_ (draining.fine.held.use rfl stmt_mem_chain) rfl rfl
    simp [Event.Faulty, Event.Failed, Answer.Truncated, hend, noData, successWithInfo]
  · rw [hrows]
    exact fetched.cells
  · rw [hrest]
    intro b hb
    rw [← Option.some.inj hb]
    exact hend

theorem Draining.fetched {before : List Answer} {a : Answer} {w : World}
    (draining : Draining drv done before w) (hok : succeeded a.rc = true) :
    Fine drv chain done (∃ b ∈ before ++ [a], b.Truncated) (w.record ⟨.fetch, a⟩) := by
  refine ⟨draining.fine.held.use rfl stmt_mem_chain, draining.fine.error, draining.fine.done, ?_⟩
  simp [World.record, or_and_right, exists_or, draining.fine.faulty, faulty_fetch hok]

theorem drain_spec {before rest : List Answer} (fetched : Fetched drv useGetdata before rest) :
    Triple (Draining drv done before) (drain drv useGetdata rest)
      (GoesOn drv cfg sql useGetdata (Drained drv useGetdata done)) (fun _ _ => False) := by
  induction rest generalizing before with
  | nil =>
    obtain ⟨a, ha, hend⟩ := drv.fetches_end
    rw [← fetched.split, List.append_nil] at ha
    exact absurd (fetched.rows a ha) hend
  | cons a rest ih =>
    refine Triple.bind (Triple.modify (Q := fun _ s => ∃ w, Draining drv done before w ∧
      s = w.record ⟨.fetch, a⟩) fun w hw => ⟨w, hw, rfl⟩) fun _ => ?_
    refine Triple.ite (fun hend => Triple.pure ?_) (fun hmore => ?_)
    · intro s hs
      obtain ⟨w, draining, rfl⟩ := hs
      exact draining.ended fetched hend
    -- no end yet: a row, or a failure
    refine Triple.read fun v hv => ?_
    obtain ⟨w, draining, rfl⟩ := hv
    refine Triple.guard (M := fun s => Fine drv chain done (∃ b ∈ before ++ [a], b.Truncated) s ∧
      s.rowCount = before.length ∧ succeeded a.rc = true)
      (checked_spec List.suffix_rfl stmt_mem_chain ?_ ?_ ?_) ?_ fun _ h => h
    · intro hfail
      exact fetched.not_passes hfail hmore
    · intro s hs hok
      subst hs
      exact ⟨draining.fetched hok, draining.rowCount, hok⟩
    · intro s hs _
      subst hs
      exact draining.fine.held.use rfl stmt_mem_chain
    refine Triple.of_states fun v hv => ?_
    obtain ⟨fine, hcount, hok⟩ := hv
    have row : Triple (fun w => Fine drv chain done (∃ b ∈ before ++ [a], b.Truncated) w ∧
        w.rowCount = before.length) (pullRow drv useGetdata) (GoesOn drv cfg sql useGetdata _)
        (fun _ _ => False) := pullRow_spec (fetched.length_lt_rows hok)
    refine Triple.guard (row.weaken (fun s hs => hs ▸ ⟨fine, hcount⟩) (fun _ _ h => h)
      fun _ _ h => h) ?_ fun _ h => h
    refine Triple.of_states fun v hv => ?_
    obtain ⟨⟨fine, hcount⟩, hread⟩ := hv
    refine Triple.bind (Triple.modify (Q := fun _ => Draining drv done (before ++ [a])) ?_)
      fun _ => ih (fetched.next hok hread)
    intro s hs
    subst hs
    exact ⟨fine.noted rfl, by simp [hcount]⟩

theorem drainPhase_spec :
    Triple (Fine drv chain done False) (drainPhase drv useGetdata)
      (GoesOn drv cfg sql useGetdata (Drained drv useGetdata done)) (fun _ _ => False) := by
  refine Triple.bind (Triple.modify (Q := fun _ => Draining drv done []) ?_) fun _ => ?_
  · intro w fine
    have noted : Fine drv chain done False { w with rowCount := 0 } := fine.noted rfl
    exact ⟨⟨noted.held, noted.error, noted.done, by simpa using noted.faulty⟩, rfl⟩
  have start : Fetched drv useGetdata [] drv.fetches :=
    ⟨List.nil_append _, (fun _ h => nomatch h), fun _ h => absurd h (Nat.not_lt_zero _)⟩
  refine Triple.guard (drain_spec start)
    (Triple.bind (Triple.modify (Q := fun _ => Drained drv useGetdata done) ?_)
      fun _ => Triple.pure fun _ h => h) fun _ h => h
  intro w drained
  exact ⟨drained.fine.noted rfl, drained.cells, drained.ends⟩

/-! ## The release -/

/-- The calls whose results are dropped. -/
def discardedCalls : List Call := .closeCursor :: chain.map freeing

/-- What holds at the end of an iteration no check has stopped. -/
structure Finished (drv : Driver) (cfg : Config) (sql : Str) (useGetdata : Bool) (w : World) :
    Prop where
  released : Released w
  error : w.out.error = []
  passes : Passes drv cfg sql useGetdata
  faulty : (∃ e ∈ w.trace, e.Faulty) ↔
    (∃ a ∈ drv.rows, a.Truncated) ∨ ∃ c ∈ discardedCalls, succeeded (drv.answer c).rc = false

theorem faulty_discarded {c : Call} (hc : c ∈ discardedCalls) :
    (Event.mk c (drv.answer c)).Faulty ↔ succeeded (drv.answer c).rc = false := by
  simp only [discardedCalls, chain, freeing, List.map_cons, List.map_nil, List.mem_cons,
    List.not_mem_nil, or_false] at hc
  rcases hc with rfl | rfl | rfl | rfl | rfl
  all_goals simp [Event.Faulty, Event.Failed]

theorem releasePhase_spec :
    Triple (Drained drv useGetdata (checkedCalls drv cfg sql useGetdata)) (releasePhase drv)
      (fun _ => Finished drv cfg sql useGetdata) R := by
  refine Triple.of_states fun w drained => ?_
  let v := w.record ⟨.closeCursor, drv.answer .closeCursor⟩
  have held : Held chain v := drained.fine.held.use rfl stmt_mem_chain
  refine Triple.bind (Triple.modify (Q := fun _ s => s = v) fun s hs => by rw [hs]) fun _ => ?_
  refine Triple.bind (Q := fun _ s => s = { v with trace := v.trace ++ freed drv chain }) ?_ fun _ =>
    Triple.modify ?_
  · intro s hs
    rw [hs, freeHandles_run held List.suffix_rfl]
  · intro s hs
    subst hs
    refine ⟨held.released List.suffix_rfl drv, drained.fine.error,
      ⟨drained.fine.done, fun hmode row hrow => drained.cells row hrow hmode, drained.ends⟩, ?_⟩
    have htrace : v.trace ++ freed drv chain =
        w.trace ++ discardedCalls.map fun c => ⟨c, drv.answer c⟩ := by
      simp [v, World.record, freed, discardedCalls]
    show (∃ e ∈ v.trace ++ freed drv chain, e.Faulty) ↔ _
    rw [htrace, ← drained.fine.faulty]
    simp only [List.mem_append, List.mem_map, or_and_right, exists_or]
    refine or_congr_right ⟨?_, ?_⟩
    · intro h
      obtain ⟨e, ⟨c, hc, rfl⟩, hfaulty⟩ := h
      exact ⟨c, hc, (faulty_discarded hc).mp hfaulty⟩
    · intro h
      obtain ⟨c, hc, hfail⟩ := h
      exact ⟨_, ⟨c, hc, rfl⟩, (faulty_discarded hc).mpr hfail⟩

/-- **Where an iteration ends**: behind a check that failed, or behind the release. -/
theorem runOdbcIter_spec (drv : Driver) (cfg : Config) (sql odbcMode : Str) :
    Triple (· = {}) (runOdbcIter drv cfg sql odbcMode)
      (fun _ s => Finished drv cfg sql (usesGetdata odbcMode) s ∨
        Left drv cfg sql (usesGetdata odbcMode) s) (fun _ _ => False) := by
  have all : Triple (Fine drv [] [] False) (runOdbcIter drv cfg sql odbcMode)
      (fun _ s => Finished drv cfg sql (usesGetdata odbcMode) s ∨
        Left drv cfg sql (usesGetdata odbcMode) s) (fun _ _ => False) := by
    refine Triple.guard connectPhase_spec ?_ fun _ h => .inr h
    refine Triple.guard executePhase_spec ?_ fun _ h => .inr h
    refine Triple.guard bindPhase_spec ?_ fun _ h => .inr h
    refine Triple.guard drainPhase_spec ?_ fun _ h => .inr h
    exact releasePhase_spec.weaken (fun _ h => h) (fun _ _ h => .inl h) fun _ _ h => h
  exact all.weaken (fun s hs => hs ▸ Fine.start) (fun _ _ h => h) fun _ _ h => h

end Specs

end DeltaForgeBench.Drivers.Odbc
