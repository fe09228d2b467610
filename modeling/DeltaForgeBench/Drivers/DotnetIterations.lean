import DeltaForgeBench.Drivers.DotnetRuns

/-! # The iterations of the .NET bench

The ADBC iteration returns whatever the driver does, the ODBC iteration unless a
`Dispose` of its `finally` throws. Where they return, every object was disposed
of, and the timings are those of a full run or the error is that of the first
call that failed. -/
namespace DeltaForgeBench.Drivers.DotnetPaths
open DeltaForgeBench.Base.Text DeltaForgeBench.Base.Handles DeltaForgeBench.Base.Disposal
open DeltaForgeBench.Base.Interrupt
open DeltaForgeBench.Drivers DeltaForgeBench.Drivers.WarmMedian

/-! ## ADBC -/

namespace AdbcPath

/-- An exception, or a stream that is null. -/
def fails (drv : Driver) (e : Event Call) : Option Str :=
  match e.thrown, e.call with
  | some t, _ => some t.adbcText
  | none, .executeQuery => if drv.streamNull then some nullStream.adbcText else none
  | none, _ => none

def path (drv : Driver) : Path Call Obj where
  throws := drv.throws
  parent := parent
  effect := effect drv
  text := Thrown.adbcText
  fails := fails drv
  fails_thrown _ _ := rfl
  dispose := .dispose
  effect_dispose _ _ := rfl
  order := order
  nodup := by decide
  children_first := by decide

/-- The batches disposed of, the last one first. -/
def spent (n : Nat) : List Obj := (List.range n).reverse.map .batch

/-- The columns of the first batch that has some. -/
def firstColumns (ncols : Int) (batches : List Batch) : Int :=
  batches.foldl (fun k batch => if k = 0 then batch.columnCount else k) ncols

/-- The timings of an iteration in which nothing fails. -/
def full (drv : Driver) : Dotnet.PhaseTimings where
  tConnect := drv.elapsed 0
  tExecute := drv.elapsed 1
  tDrain := drv.elapsed 2
  tRelease := drv.elapsed 3
  tTotal := drv.elapsed 0 + drv.elapsed 1 + drv.elapsed 2 + drv.elapsed 3
  rows := (drv.batches.map (·.length)).sum
  columns := firstColumns 0 drv.batches

variable {drv : Driver}

/-- The objects of an open connection, and of an open stream. -/
def connected : List Obj := [.connection, .database, .driver]
def streaming : List Obj := .stream :: .statement :: connected

theorem owned_self {L gone : List Obj} (h : ∀ o ∈ L, o ∈ order) : Owned (path drv) ⟨L, gone⟩ L :=
  ⟨fun _ h => h, fun _ h => .inl h, h⟩

theorem connectPhase_spec (cfg : Config) :
    Triple (Going (path drv) ⟨[], []⟩ [] 0 0) (connectPhase drv cfg)
      (fun _ => Going (path drv) ⟨connected, []⟩ connected 0 0) (Stopped (path drv)) := by
  refine Triple.bind (assign_spec rfl rfl (fun _ => rfl) (by simp) (by simp) (by simp)
    (by simp [path, parent]) (owned_self (by simp))) fun _ => ?_
  refine Triple.bind (assign_spec rfl rfl (fun _ => rfl) (by simp) (by simp) (by simp)
    (by simp [path, parent]) (owned_self (by simp [order]))) fun _ => ?_
  exact assign_spec rfl rfl (fun _ => rfl) (by simp) (by simp) (by simp)
    (by simp [path, parent]) (owned_self (by simp [order]))

theorem executePhase_spec (sql : Str) :
    Triple (Going (path drv) ⟨connected, []⟩ connected 0 0) (executePhase drv sql)
      (fun _ => Going (path drv) ⟨streaming, []⟩ streaming 0 0) (Stopped (path drv)) := by
  have known : ∀ o ∈ Obj.statement :: connected, o ∈ order := by simp [connected, order]
  refine Triple.bind (assign_spec rfl rfl (fun _ => rfl) (by simp [connected]) (by simp [connected])
    (by simp) (by simp [path, parent, connected]) (owned_self (by simp [connected, order])))
    fun _ => ?_
  refine Triple.bind (use_spec rfl (fun _ => rfl) (by simp) (owned_self known)) fun _ => ?_
  refine Triple.ite (fun hnull => ?_) fun hnull => ?_
  · refine invoke_raise (by simp [path, fails, hnull]) fun thrown =>
      ⟨⟨.statement :: connected, []⟩, ?_, owned_self known⟩
    have uses : (path drv).effect ⟨.executeQuery, thrown⟩ = .use [.statement] := if_pos hnull
    rw [uses, settle_use (by simp)]
  · exact assign_spec (by simp [path, fails, hnull]) (if_neg hnull) (fun _ => if_neg hnull)
      (by simp) (by simp [connected]) (by simp) (by simp [path, parent]) (owned_self known)

theorem batch_not_mem_spent (n : Nat) : Obj.batch n ∉ spent n := by simp [spent]

theorem spent_succ (n : Nat) : spent (n + 1) = .batch n :: spent n := by
  simp [spent, List.range_succ]

theorem streaming_known : ∀ o ∈ streaming, o ∈ order := by simp [streaming, connected, order]

theorem drainPhase_spec (batches : List Batch) (n : Nat) (rowCount ncols : Int)
    (hn : n + batches.length = drv.batches.length) :
    Triple (Going (path drv) ⟨streaming, spent n⟩ streaming rowCount ncols)
      (drainPhase drv n batches)
      (fun _ => Going (path drv) ⟨streaming, spent drv.batches.length⟩ streaming
        (rowCount + (batches.map (·.length)).sum) (firstColumns ncols batches))
      (Stopped (path drv)) := by
  induction batches generalizing n rowCount ncols with
  | nil =>
    obtain rfl : n = drv.batches.length := hn
    have last : ∀ t, (path drv).effect ⟨.readNext drv.batches.length, t⟩ = .use [.stream] :=
      fun t => if_neg (lt_irrefl _)
    rw [List.map_nil, List.sum_nil, Int.add_zero]
    exact use_spec rfl last (by simp [streaming]) (owned_self streaming_known)
  | cons batch rest ih =>
    have more : n < drv.batches.length := by
      rw [← hn, List.length_cons]
      omega
    refine Triple.bind (create_spec rfl (if_pos more) (fun _ => if_pos more) (by simp [streaming])
      (by simp [streaming, connected]) (batch_not_mem_spent n) (by simp [path, parent, streaming])
      (owned_self streaming_known)) fun _ => ?_
    refine Triple.bind (Q := fun _ => Going (path drv) ⟨.batch n :: streaming, spent n⟩ streaming
      (rowCount + batch.length) (if ncols = 0 then batch.columnCount else ncols))
      (Triple.modify fun w hw => ?_) fun _ => ?_
    · exact ⟨hw.holds, hw.fine, hw.locals, congrArg (· + batch.length) hw.rowCount, by rw [hw.ncols],
        hw.p⟩
    · refine Triple.bind (release_spec rfl (fun _ => rfl) (batch_not_mem_spent n)
        (by simp [path, parent, streaming, connected]) (owned_self streaming_known)) fun _ => ?_
      rw [← spent_succ, List.map_cons, List.sum_cons, ← Int.add_assoc]
      exact ih (n + 1) _ _ (by rw [← hn, List.length_cons]; omega)

theorem not_mem_spent {o : Obj} (ho : o ∈ order) (n : Nat) : o ∉ spent n := by
  intro h
  obtain ⟨k, -, rfl⟩ := List.mem_map.mp h
  simp [order] at ho

/-- The release goes through the variables from the first to the last. -/
theorem releasePhase_spec {n : Nat} {rowCount ncols : Int} :
    Triple (Going (path drv) ⟨streaming, spent n⟩ streaming rowCount ncols) (releasePhase drv)
      (fun _ => Going (path drv) ⟨[], order.reverse ++ spent n⟩ streaming rowCount ncols)
      (Stopped (path drv)) := by
  let released (done : List Obj) (w : World Call Obj) : Prop := ∃ live, order = done ++ live ∧
    Going (path drv) ⟨live, done.reverse ++ spent n⟩ streaming rowCount ncols w
  have loop : Triple (released []) (releasePhase drv) (fun _ => released order)
      (Stopped (path drv)) := by
    refine Triple.forEach released order fun done o hturn => Triple.of_states ?_
    rintro w ⟨live, horder, going⟩
    obtain ⟨rest, hrest⟩ := exists_rest hturn
    obtain rfl : live = o :: rest := List.append_cancel_left (horder.symm.trans hrest)
    have nodup : (done ++ o :: rest).Nodup := horder ▸ (show order.Nodup from (path drv).nodup)
    obtain ⟨-, -, apart⟩ := List.nodup_append.mp nodup
    have known : ∀ x ∈ o :: rest, x ∈ order := fun x hx => horder ▸ List.mem_append_right _ hx
    have fresh : o ∉ done.reverse ++ spent n := by
      simpa [not_mem_spent (known o List.mem_cons_self)] using
        fun h => apart o h o List.mem_cons_self rfl
    have childless : ∀ x ∈ o :: rest, parent x ≠ some o := by
      intro x hx hparent
      have before : x ∈ done :=
        mem_done_of_child (show (path drv).order = _ from horder) (known x hx) hparent
      exact apart x before x hx rfl
    have owned : Owned (path drv) ⟨rest, o :: (done.reverse ++ spent n)⟩ streaming := by
      refine ⟨fun x hx => known x (List.mem_cons_of_mem _ hx), fun x hx => ?_, streaming_known⟩
      have hx : x ∈ done ++ o :: rest := horder ▸ hx
      simp only [List.mem_append, List.mem_cons, List.mem_reverse] at hx ⊢
      tauto
    have release : Triple (Going (path drv) ⟨o :: rest, done.reverse ++ spent n⟩ streaming rowCount
        ncols) (invoke drv.throws (.dispose o)) (fun _ => Going (path drv)
          ⟨rest, o :: (done.reverse ++ spent n)⟩ streaming rowCount ncols) (Stopped (path drv)) :=
      release_spec rfl (fun _ => rfl) fresh childless owned
    refine release.weaken (fun _ h => h ▸ going) (fun _ s hs => ⟨rest, ?_, ?_⟩) fun _ _ h => h
    · rw [horder, List.append_assoc, List.singleton_append]
    · rwa [List.reverse_append, List.reverse_singleton, List.singleton_append, List.cons_append]
  refine loop.weaken (fun w hw => ⟨order, rfl, hw⟩) (fun _ w => ?_) fun _ _ h => h
  rintro ⟨live, horder, going⟩
  obtain rfl : live = [] := List.append_cancel_left (horder.symm.trans (List.append_nil _).symm)
  exact going

theorem tryBlock_spec (cfg : Config) (sql : Str) :
    Triple (· = {}) (tryBlock drv cfg sql)
      (fun _ w => (∃ l, Holds (path drv) w l ∧ Owned (path drv) l w.locals) ∧
        (∀ e ∈ w.trace, (path drv).fails e = none) ∧ w.p = full drv) (Stopped (path drv)) := by
  have start : ∀ w : World Call Obj, w = {} → Going (path drv) ⟨[], []⟩ [] 0 0 w := by
    rintro _ rfl
    exact ⟨Settles.nil, nofun, rfl, rfl, rfl, rfl⟩
  refine ((connectPhase_spec cfg).weaken start (fun _ _ h => h) fun _ _ h => h).bind fun _ => ?_
  refine (executePhase_spec sql).bind fun _ => ?_
  refine (drainPhase_spec drv.batches 0 0 0 (Nat.zero_add _)).bind fun _ => ?_
  refine releasePhase_spec.bind fun _ => Triple.modify fun w hw => ⟨?_, hw.fine, ?_⟩
  · have known : ∀ o ∈ w.locals, o ∈ order := fun o ho => streaming_known o (hw.locals ▸ ho)
    refine ⟨_, hw.holds, fun _ h => absurd h List.not_mem_nil, fun o ho => .inr ?_, known⟩
    exact List.mem_append_left _ (List.mem_reverse.mpr (known o ho))
  · simp [full, hw.p, hw.rowCount, hw.ncols]

theorem disposeQuietly_spec {tried : List (Event Call)} {p : Dotnet.PhaseTimings}
    {done rest : List Obj} {o : Obj} (horder : order = done ++ o :: rest) :
    Triple (Cleaning (path drv) tried p (fun _ => True) done) (disposeQuietly drv o)
      (fun _ => Cleaning (path drv) tried p (fun _ => True) (done ++ [o])) fun _ _ => False := by
  have dispose : Triple (Cleaning (path drv) tried p (fun _ => True) done)
      (disposeOf drv.throws .dispose o) _ _ := disposeOf_spec (fun _ => trivial) horder
  refine Triple.bind (Triple.contained (dispose.weaken (fun _ h => h) (fun _ _ h => h)
    fun e w h => ?_)) fun _ => Triple.pure fun _ h => h
  obtain rfl := h.raised
  exact h.cleaning

/-- What an ADBC iteration leaves. -/
theorem runIter_spec (drv : Driver) (cfg : Config) (sql : Str) :
    Triple (· = {}) (runIter drv cfg sql)
      (fun _ w => ∃ tried p, Reported (path drv) (full drv) tried p ∧
        Cleaning (path drv) tried p (fun _ => True) order w) fun _ _ => False := by
  have caught : Triple (· = {}) (tryCatch (path drv).text (tryBlock drv cfg sql))
      (fun _ => Caught (path drv) (full drv)) fun _ _ => False :=
    tryCatch_spec (tryBlock_spec cfg sql)
  refine caught.bind fun _ => Triple.of_states fun w hw => ?_
  have loop : Triple (Cleaning (path drv) w.trace w.p (fun _ => True) [])
      (forEach (disposeQuietly drv) order) _ _ :=
    Triple.forEach (Cleaning (path drv) w.trace w.p fun _ => True) order
      fun _ _ hturn => disposeQuietly_spec (exists_rest hturn).choose_spec
  refine loop.weaken (fun _ h => h ▸ hw.cleaning) (fun _ s hs => ?_) fun _ _ h => h
  exact ⟨w.trace, w.p, hw.reported, hs⟩

end AdbcPath

/-! ## ODBC -/

namespace OdbcPath

/-- An exception, or a row of another length. -/
def fails (drv : Driver) (e : Event Call) : Option Str :=
  match e.thrown, e.call with
  | some t, _ => some t.odbcText
  | none, .getValues n => (drv.rows[n]?.filter (· ≠ drv.fieldCount)).map (shortRow drv · |>.odbcText)
  | none, _ => none

def path (drv : Driver) : Path Call Obj where
  throws := drv.throws
  parent := parent
  effect := effect
  text := Thrown.odbcText
  fails := fails drv
  fails_thrown _ _ := rfl
  dispose := .dispose
  effect_dispose _ _ := rfl
  order := order
  nodup := by decide
  children_first := by decide

/-- The timings of an iteration in which nothing fails. -/
def full (drv : Driver) : Dotnet.PhaseTimings where
  tConnect := drv.elapsed 0
  tExecute := drv.elapsed 1
  tDrain := drv.elapsed 2
  tRelease := drv.elapsed 3
  tTotal := drv.elapsed 0 + drv.elapsed 1 + drv.elapsed 2 + drv.elapsed 3
  rows := drv.rows.length
  columns := drv.fieldCount

variable {drv : Driver}

theorem owned_self {L gone : List Obj} : Owned (path drv) ⟨L, gone⟩ L :=
  ⟨fun _ h => h, fun _ h => .inl h, fun o _ => by cases o <;> simp [path, order]⟩

theorem connectPhase_spec (cfg : Config) :
    Triple (Going (path drv) ⟨[], []⟩ [] 0 0) (connectPhase drv cfg)
      (fun _ => Going (path drv) ⟨[.connection], []⟩ [.connection] 0 0) (Stopped (path drv)) := by
  refine Triple.bind (assign_spec rfl rfl (fun _ => rfl) (by simp) (by simp) (by simp)
    (by simp [path, parent]) owned_self) fun _ => ?_
  exact use_spec rfl (fun _ => rfl) (by simp) owned_self

theorem executePhase_spec (sql : Str) :
    Triple (Going (path drv) ⟨[.connection], []⟩ [.connection] 0 0) (executePhase drv sql)
      (fun _ => Going (path drv) ⟨[.reader, .command, .connection], []⟩ order 0 0)
      (Stopped (path drv)) := by
  refine Triple.bind (assign_spec rfl rfl (fun _ => rfl) (by simp) (by simp) (by simp)
    (by simp [path, parent]) owned_self) fun _ => ?_
  exact assign_spec rfl rfl (fun _ => rfl) (by simp) (by simp) (by simp) (by simp [path, parent])
    owned_self

/-- The objects of an open reader. -/
abbrev reading : Ledger Obj := ⟨[.reader, .command, .connection], []⟩

theorem readRows_spec (rows : List Int) (n : Nat) (rowCount ncols : Int)
    (hn : drv.rows.drop n = rows) :
    Triple (Going (path drv) reading order rowCount ncols) (readRows drv n rows)
      (fun _ => Going (path drv) reading order (rowCount + rows.length) ncols)
      (Stopped (path drv)) := by
  have read : ∀ n, Triple (Going (path drv) reading order rowCount ncols)
      (invoke drv.throws (.read n)) (fun _ => Going (path drv) reading order rowCount ncols)
      (Stopped (path drv)) := fun n => use_spec rfl (fun _ => rfl) (by simp) owned_self
  induction rows generalizing n rowCount with
  | nil => simpa [readRows] using read n
  | cons got rest ih =>
    have here : drv.rows[n]? = some got := by
      have head : (drv.rows.drop n)[0]? = some got := by rw [hn, List.getElem?_cons_zero]
      rwa [List.getElem?_drop, Nat.add_zero] at head
    have later : drv.rows.drop (n + 1) = rest := by rw [← List.drop_drop, hn]; rfl
    refine (read n).bind fun _ => ?_
    by_cases hgot : got = drv.fieldCount
    · have fine : (path drv).fails ⟨.getValues n, none⟩ = none := by
        simp [path, fails, here, hgot]
      refine Triple.bind (use_spec fine (fun _ => rfl) (by simp) owned_self) fun _ => ?_
      rw [if_neg (not_not.mpr hgot)]
      refine Triple.bind (Q := fun _ => Going (path drv) reading order (rowCount + 1) ncols)
        (Triple.modify fun w hw => ?_) fun _ => ?_
      · exact ⟨hw.holds, hw.fine, hw.locals, congrArg (· + 1) hw.rowCount, hw.ncols, hw.p⟩
      · have next := ih (n + 1) (rowCount + 1) later fun n =>
          use_spec rfl (fun _ => rfl) (by simp) owned_self
        rwa [List.length_cons, Nat.cast_succ, add_comm (rest.length : Int), ← Int.add_assoc]
    · have short : (path drv).fails ⟨.getValues n, none⟩ = some (shortRow drv got).odbcText := by
        simp [path, fails, here, hgot]
      simp only [if_pos (show got ≠ drv.fieldCount from hgot)]
      refine invoke_raise short fun thrown => ⟨reading, ?_, owned_self⟩
      exact settle_use (by simp)

theorem drainPhase_spec :
    Triple (Going (path drv) reading order 0 0) (drainPhase drv)
      (fun _ => Going (path drv) reading order drv.rows.length drv.fieldCount)
      (Stopped (path drv)) := by
  refine Triple.bind (use_spec rfl (fun _ => rfl) (by simp) owned_self) fun _ => ?_
  refine Triple.bind (Q := fun _ => Going (path drv) reading order 0 drv.fieldCount)
    (Triple.modify fun w hw => ?_) fun _ => ?_
  · exact ⟨hw.holds, hw.fine, hw.locals, hw.rowCount, rfl, hw.p⟩
  · simpa using readRows_spec drv.rows 0 0 drv.fieldCount rfl

theorem releasePhase_spec {rowCount ncols : Int} :
    Triple (Going (path drv) reading order rowCount ncols) (releasePhase drv)
      (fun _ => Going (path drv) ⟨[], [.connection, .command, .reader]⟩ order rowCount ncols)
      (Stopped (path drv)) := by
  have owned : ∀ {live gone : List Obj}, (∀ o, o ∈ live ∨ o ∈ gone) →
      Owned (path drv) ⟨live, gone⟩ order := fun h =>
    ⟨fun o _ => by cases o <;> simp [order], fun o _ => h o,
      fun o _ => by cases o <;> simp [path, order]⟩
  refine Triple.bind (release_spec rfl (fun _ => rfl) (by simp) (by simp [path, parent])
    (owned fun o => by cases o <;> simp)) fun _ => ?_
  refine Triple.bind (release_spec rfl (fun _ => rfl) (by simp) (by simp [path, parent])
    (owned fun o => by cases o <;> simp)) fun _ => ?_
  exact release_spec rfl (fun _ => rfl) (by simp) (by simp [path, parent]) (owned fun o => by cases o <;> simp)

theorem tryBlock_spec (cfg : Config) (sql : Str) :
    Triple (· = {}) (tryBlock drv cfg sql)
      (fun _ w => (∃ l, Holds (path drv) w l ∧ Owned (path drv) l w.locals) ∧
        (∀ e ∈ w.trace, (path drv).fails e = none) ∧ w.p = full drv) (Stopped (path drv)) := by
  have start : ∀ w : World Call Obj, w = {} → Going (path drv) ⟨[], []⟩ [] 0 0 w := by
    rintro _ rfl
    exact ⟨Settles.nil, nofun, rfl, rfl, rfl, rfl⟩
  refine ((connectPhase_spec cfg).weaken start (fun _ _ h => h) fun _ _ h => h).bind fun _ => ?_
  refine (executePhase_spec sql).bind fun _ => drainPhase_spec.bind fun _ => ?_
  refine releasePhase_spec.bind fun _ => Triple.modify fun w hw => ⟨?_, hw.fine, ?_⟩
  · refine ⟨_, hw.holds, fun _ h => absurd h List.not_mem_nil, fun o _ => .inr ?_, fun o _ => ?_⟩
    · cases o <;> simp
    · cases o <;> simp [path, order]
  · simp [full, hw.p, hw.rowCount, hw.ncols]

/-- A call of the `try`. -/
def Tries (c : Call) : Prop := ∀ o, c ≠ .dispose o

theorem readRows_only (rows : List Int) (n : Nat) :
    Triple (Only Tries) (readRows drv n rows) (fun _ => Only Tries) fun _ => Only Tries := by
  induction rows generalizing n with
  | nil => exact invoke_only (by simp [Tries])
  | cons got rest ih =>
    refine (invoke_only (by simp [Tries])).bind fun _ =>
      (invoke_only (by simp [Tries])).bind fun _ => Triple.ite (fun _ => raise_only) fun _ => ?_
    exact Triple.bind (modify_only fun _ => rfl) fun _ => ih (n + 1)

theorem tryBlock_only (cfg : Config) (sql : Str) :
    Triple (· = {}) (tryBlock drv cfg sql) (fun _ => Only Tries) fun _ => Only Tries := by
  have connect : Triple (Only Tries) (connectPhase drv cfg) (fun _ => Only Tries) fun _ =>
      Only Tries :=
    (assign_only _ (by simp [Tries])).bind fun _ => invoke_only (by simp [Tries])
  have execute : Triple (Only Tries) (executePhase drv sql) (fun _ => Only Tries) fun _ =>
      Only Tries :=
    (assign_only _ (by simp [Tries])).bind fun _ => assign_only _ (by simp [Tries])
  have drain : Triple (Only Tries) (drainPhase drv) (fun _ => Only Tries) fun _ => Only Tries :=
    (invoke_only (by simp [Tries])).bind fun _ => Triple.bind (modify_only fun _ => rfl) fun _ =>
      readRows_only drv.rows 0
  have release : Triple (Only Tries) (releasePhase drv) (fun _ => Only Tries) fun _ => Only Tries :=
    (invoke_only (by simp [Tries])).bind fun _ => (invoke_only (by simp [Tries])).bind fun _ =>
      invoke_only (by simp [Tries])
  refine Triple.bind (connect.weaken ?_ (fun _ _ h => h) fun _ _ h => h) fun _ =>
    execute.bind fun _ => drain.bind fun _ => release.bind fun _ => modify_only fun _ => rfl
  rintro _ rfl
  exact fun _ he => absurd he List.not_mem_nil

/-- What an ODBC iteration leaves, and what it leaves when its `finally` throws. -/
theorem runIter_spec (drv : Driver) (cfg : Config) (sql : Str) :
    Triple (· = {}) (runIter drv cfg sql)
      (fun _ w => ∃ tried p, (∀ e ∈ tried, Tries e.call) ∧
        Reported (path drv) (full drv) tried p ∧
          Cleaning (path drv) tried p (·.thrown = none) order w)
      fun h w => ∃ tried p done, (∀ e ∈ tried, Tries e.call) ∧
        Reported (path drv) (full drv) tried p ∧
          Broken (path drv) tried p (·.thrown = none) done h w := by
  have caught : Triple (· = {}) (tryCatch (path drv).text (tryBlock drv cfg sql))
      (fun _ => Caught (path drv) (full drv)) fun _ _ => False :=
    tryCatch_spec (tryBlock_spec cfg sql)
  have tries := caught.and (tryCatch_only (tryBlock_only cfg sql))
  refine (tries.weaken (fun _ h => h) (fun _ _ h => h) fun _ _ h => h.1.elim).bind fun _ =>
    Triple.of_states fun w ⟨hw, honly⟩ => ?_
  have loop : Triple (Cleaning (path drv) w.trace w.p (·.thrown = none) [])
      (forEach (disposeOf drv.throws .dispose) order)
      (fun _ => Cleaning (path drv) w.trace w.p (·.thrown = none) order)
      fun h s => ∃ done, Broken (path drv) w.trace w.p (·.thrown = none) done h s :=
    Triple.forEach (Cleaning (path drv) w.trace w.p (·.thrown = none)) order
      fun done o hturn => (disposeOf_spec (fun _ => rfl)
        (show (path drv).order = _ from (exists_rest hturn).choose_spec)).weaken (fun _ h => h)
          (fun _ _ h => h) fun _ _ h => ⟨done ++ [o], h⟩
  refine loop.weaken (fun _ h => h ▸ hw.cleaning)
    (fun _ s hs => ⟨_, _, honly, hw.reported, hs⟩) ?_
  rintro h s ⟨done, hs⟩
  exact ⟨_, _, done, honly, hw.reported, hs⟩

end OdbcPath

/-! ## What the two iterations owe -/

/-- The ADBC iteration returns. Its trace is that of the `try` and then the calls
of the `finally`, all objects were disposed of, and the timings say what failed. -/
def AdbcConducted (drv : AdbcPath.Driver) (cfg : Config) (sql : Str) : Prop :=
  ∃ w tried cleaned, AdbcPath.runIter drv cfg sql {} = (.ok (), w) ∧ w.trace = tried ++ cleaned ∧
    (∀ e ∈ cleaned, Disposal (AdbcPath.path drv) e) ∧
    Reported (AdbcPath.path drv) (AdbcPath.full drv) tried w.p ∧
    Disciplined AdbcPath.parent (firstReleases [] (w.trace.map (AdbcPath.effect drv)))

/-- The ODBC iteration owes the same, unless a `Dispose` of its `finally` throws:
then the exception leaves it, behind that call. -/
def OdbcConducted (drv : OdbcPath.Driver) (cfg : Config) (sql : Str) : Prop :=
  ∃ exit w tried cleaned, OdbcPath.runIter drv cfg sql {} = (exit, w) ∧
    w.trace = tried ++ cleaned ∧ (∀ e ∈ tried, OdbcPath.Tries e.call) ∧
    (∀ e ∈ cleaned, Disposal (OdbcPath.path drv) e) ∧
    Reported (OdbcPath.path drv) (OdbcPath.full drv) tried w.p ∧
    ((exit = .ok () ∧ (∀ e ∈ cleaned, e.thrown = none) ∧
        Disciplined OdbcPath.parent (firstReleases [] (w.trace.map OdbcPath.effect))) ∨
      (exit = .error .raised ∧ ∃ before e, cleaned = before ++ [e] ∧ e.thrown.isSome = true ∧
        ∀ b ∈ before, b.thrown = none))

theorem adbcConducted (drv : AdbcPath.Driver) (cfg : Config) (sql : Str) :
    AdbcConducted drv cfg sql := by
  rcases (AdbcPath.runIter_spec drv cfg sql).run with
    ⟨_, w, hrun, tried, p, reported, cleaning⟩ | ⟨_, _, _, hfalse⟩
  · obtain ⟨cleaned, htrace, hcleaned⟩ := cleaning.trace
    exact ⟨w, tried, cleaned, hrun, htrace, fun e he => (hcleaned e he).1, cleaning.p ▸ reported,
      cleaning.disciplined⟩
  · exact hfalse.elim

theorem odbcConducted (drv : OdbcPath.Driver) (cfg : Config) (sql : Str) :
    OdbcConducted drv cfg sql := by
  rcases (OdbcPath.runIter_spec drv cfg sql).run with
    ⟨_, w, hrun, tried, p, tries, reported, cleaning⟩ |
    ⟨h, w, hrun, tried, p, done, tries, reported, broken⟩
  · obtain ⟨cleaned, htrace, hcleaned⟩ := cleaning.trace
    exact ⟨_, w, tried, cleaned, hrun, htrace, tries, fun e he => (hcleaned e he).1, cleaning.p ▸ reported,
      .inl ⟨rfl, fun e he => (hcleaned e he).2, cleaning.disciplined⟩⟩
  · obtain ⟨cleaned, e, htrace, hcleaned, he, hthrown⟩ := broken.trace
    obtain rfl := broken.raised
    refine ⟨_, w, tried, cleaned ++ [e], hrun, htrace, tries, fun e' he' => ?_, broken.p ▸ reported,
      .inr ⟨rfl, cleaned, e, rfl, hthrown, fun b hb => (hcleaned b hb).2⟩⟩
    rcases List.mem_append.mp he' with he' | he'
    · exact (hcleaned e' he').1
    · exact List.mem_singleton.mp he' ▸ he

/-- **Both iterations dispose of what they create and report the first failure**,
whatever the drivers throw and wherever; only an ODBC `Dispose` of the `finally`
that throws itself is not contained. -/
theorem dotnet_iterations :
    (∀ drv cfg sql, AdbcConducted drv cfg sql) ∧ ∀ drv cfg sql, OdbcConducted drv cfg sql :=
  ⟨adbcConducted, odbcConducted⟩

end DeltaForgeBench.Drivers.DotnetPaths
