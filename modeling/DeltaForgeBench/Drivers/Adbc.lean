import DeltaForgeBench.Base.Handles
import DeltaForgeBench.Base.Interrupt
import DeltaForgeBench.Drivers.Timings

/-! # The ADBC path

One iteration of the ADBC bench: the driver library is loaded, database,
connection and statement are set up, the query returns a stream and its batches
are pulled one by one. Each early return has its own cleanup. What the driver
and the loader answer is a parameter; the calls made are kept as a trace. -/
namespace DeltaForgeBench.Drivers.Adbc
open DeltaForgeBench.Base.Text DeltaForgeBench.Base.Handles DeltaForgeBench.Base.Interrupt
open DeltaForgeBench.Drivers

/-! ## The driver -/

inductive Handle
  | lib | database | connection | statement | stream | schema
  | batch (n : Nat)
  deriving DecidableEq, Repr

def parent : Handle → Option Handle
  | .lib => none
  | .database => some .lib
  | .connection => some .database
  | .statement => some .connection
  | .stream => some .statement
  | .schema | .batch _ => some .stream

inductive Call
  | dlopen (path : Str)
  | dlsym (symbol : Str)
  | driverInit
  | databaseNew
  | databaseSetOption (key value : Str)
  | databaseInit
  | connectionNew
  | connectionInit
  | statementNew
  | statementSetSqlQuery (sql : Str)
  | statementExecuteQuery
  | getSchema
  | schemaRelease
  | getNext (n : Nat)
  | batchRelease (n : Nat)
  | streamRelease
  | profile
  | statementRelease
  | connectionRelease
  | databaseRelease
  | dlclose
  deriving DecidableEq

/-- The status of a call, zero for a pointer that is not null, and whether the
struct it was to fill has a release callback. -/
structure Answer where
  code : Int
  filled : Bool

structure Event where
  call : Call
  answer : Answer

def Answer.opens (a : Answer) (hs : List Handle) (h : Handle) : Effect Handle :=
  if a.code = 0 then .create hs h else .use hs

def Answer.fills (a : Answer) (hs : List Handle) (h : Handle) : Effect Handle :=
  if a.code = 0 ∧ a.filled = true then .create hs h else .use hs

/-- What a call does to the handles. All but the loader's calls run code of the library. -/
def Event.effect (e : Event) : Effect Handle :=
  match e.call with
  | .dlopen _ => e.answer.opens [] .lib
  | .dlsym _ | .driverInit | .profile => .use [.lib]
  | .databaseNew => e.answer.opens [.lib] .database
  | .databaseSetOption .. | .databaseInit => .use [.lib, .database]
  | .connectionNew => e.answer.opens [.lib] .connection
  | .connectionInit => .use [.lib, .connection, .database]
  | .statementNew => e.answer.opens [.lib, .connection] .statement
  | .statementSetSqlQuery _ => .use [.lib, .statement]
  | .statementExecuteQuery => e.answer.fills [.lib, .statement] .stream
  | .getSchema => e.answer.fills [.lib, .stream] .schema
  | .schemaRelease => .release [.lib] .schema
  | .getNext n => e.answer.fills [.lib, .stream] (.batch n)
  | .batchRelease n => .release [.lib] (.batch n)
  | .streamRelease => .release [.lib] .stream
  | .statementRelease => .release [.lib] .statement
  | .connectionRelease => .release [.lib] .connection
  | .databaseRelease => .release [.lib] .database
  | .dlclose => .release [] .lib

/-- What a failed call leaves in the error struct. -/
structure AdbcError where
  sqlstate : Str
  message : Option Str

/-- The stream goes on. -/
def IsBatch (a : Answer) : Prop := a.code = 0 ∧ a.filled = true

instance (a : Answer) : Decidable (IsBatch a) := inferInstanceAs (Decidable (_ ∧ _))

/-- All the driver and the loader answer in one iteration. -/
structure Driver where
  answer : Call → Answer
  /-- The answers to the calls of `get_next`, in order. -/
  batches : List Answer
  error : Call → AdbcError
  /-- The message a failed call of the loader leaves for `dlerror`. -/
  dlMessage : Call → Option Str
  nChildren : Int
  batchLength : Nat → Int
  /-- The readings of `now_seconds` between the phases. -/
  clock : Nat → ℚ
  /-- A stream or a schema that was returned can be released. -/
  stream_filled : (answer .statementExecuteQuery).code = 0 →
    (answer .statementExecuteQuery).filled = true
  schema_filled : (answer .getSchema).code = 0 → (answer .getSchema).filled = true
  /-- The stream ends, or pulling from it fails. -/
  batches_end : ∃ a ∈ batches, ¬ IsBatch a

/-! ## Error texts -/

def adbcStatusName (rc : Int) : Str :=
  match rc with
  | 0 => "OK".toList
  | 1 => "UNKNOWN".toList
  | 2 => "NOT_IMPLEMENTED".toList
  | 3 => "NOT_FOUND".toList
  | 4 => "ALREADY_EXISTS".toList
  | 5 => "INVALID_ARGUMENT".toList
  | 6 => "INVALID_STATE".toList
  | 7 => "INVALID_DATA".toList
  | 8 => "INTEGRITY".toList
  | 9 => "INTERNAL".toList
  | 10 => "IO".toList
  | 11 => "CANCELLED".toList
  | 12 => "TIMEOUT".toList
  | 13 => "UNAUTHENTICATED".toList
  | 14 => "UNAUTHORIZED".toList
  | _ => "???".toList

def adbcErrorToString (rc : Int) (err : AdbcError) : Str :=
  let state := if err.sqlstate = [] then [] else " sqlstate=".toList ++ err.sqlstate.take 5
  let message := (err.message.map (" msg=".toList ++ ·)).getD []
  "rc=".toList ++ number rc ++ " (".toList ++ adbcStatusName rc ++ ")".toList ++ state ++ message

/-! ## One iteration -/

structure Flags where
  dbInit : Bool := false
  connInit : Bool := false
  stmtInit : Bool := false

/-- The trace, the loader's pending message and the variables of `run_adbc_iter`. -/
structure World where
  trace : List Event := []
  pending : Option Str := none
  flags : Flags := {}
  rowCount : Int := 0
  out : PhaseTimings := {}

def World.record (w : World) (e : Event) : World := { w with trace := w.trace ++ [e] }

def World.setError (w : World) (text : Str) : World :=
  { w with out := { w.out with error := text } }

/-- `dlerror`: the pending message, once. -/
def dlerror : Program World (Option Str) := do
  let w ← get
  modify fun w => { w with pending := none }
  return w.pending

/-- A `std::string` from a C string; from a null pointer there is none. -/
def cString : Option Str → Program World Str
  | some text => pure text
  | none => halt .raised

section Program
variable (drv : Driver)

def Driver.ok (c : Call) : Bool := (drv.answer c).code = 0

def call (c : Call) : Program World Unit := modify fun w => w.record ⟨c, drv.answer c⟩

/-- A call of the loader, which keeps a message where it fails. -/
def load (c : Call) : Program World Unit := modify fun w =>
  { w.record ⟨c, drv.answer c⟩ with
    pending := if drv.ok c then w.pending else drv.dlMessage c }

def failWith (what : Str) (c : Call) : Program World Unit := modify fun w => w.setError
  (what ++ " failed: ".toList ++ adbcErrorToString (drv.answer c).code (drv.error c))

/-- The check behind a call: a failure fills the error, cleans up and leaves. -/
def attempt (c : Call) (what : Str) (cleanup : Program World Unit) : Program World Bool := do
  call drv c
  if drv.ok c then return true
  failWith drv what c
  cleanup
  return false

def releaseWhen (flag : Flags → Bool) (c : Call) : Program World Unit := do
  let w ← get
  if flag w.flags then call drv c else pure ()

/-! ### The cleanups -/

def closeLib : Program World Unit := call drv .dlclose

def closeDatabase : Program World Unit := do
  call drv .databaseRelease
  call drv .dlclose

def closeConnection : Program World Unit := do
  call drv .connectionRelease
  call drv .databaseRelease
  call drv .dlclose

/-- The cleanup of an open connection, by the flags. -/
def closeOpen : Program World Unit := do
  releaseWhen drv (·.connInit) .connectionRelease
  releaseWhen drv (·.dbInit) .databaseRelease
  call drv .dlclose

/-- The cleanup of an open statement, by the flags. -/
def closeStatement : Program World Unit := do
  releaseWhen drv (·.stmtInit) .statementRelease
  closeOpen drv

/-! ### Connect -/

def initSymbol : Call := .dlsym "AdbcDriverInit".toList

def profileSymbol : Call := .dlsym "df_adbc_profile_reset_and_dump".toList

/-- The message is asked for twice: a first time whether there is one. -/
def dlsymMessage : Program World Str := do
  match ← dlerror with
  | some _ => cString (← dlerror)
  | none => return "(unknown)".toList

def loadPhase (cfg : Config) : Program World Bool := do
  load drv (.dlopen cfg.adbcSo)
  unless drv.ok (.dlopen cfg.adbcSo) do
    let message ← dlerror
    modify fun w => w.setError ("dlopen(".toList ++ cfg.adbcSo ++ ") failed: ".toList ++
      message.getD "(unknown)".toList)
    return false
  load drv initSymbol
  unless drv.ok initSymbol do
    let message ← dlsymMessage
    modify fun w => w.setError ("dlsym(AdbcDriverInit) failed: ".toList ++ message)
    closeLib drv
    return false
  attempt drv .driverInit "AdbcDriverInit".toList (closeLib drv)

def uriCall (cfg : Config) : Call := .databaseSetOption "uri".toList cfg.adbcUri

def computeCall (cfg : Config) : Call :=
  .databaseSetOption "adbc.deltaforge.compute_url".toList cfg.adbcCompute

/-- The options of the login; a session token takes precedence. -/
def credentialCalls (cfg : Config) : List Call :=
  if cfg.adbcToken ≠ [] then
    [.databaseSetOption "adbc.deltaforge.session_token".toList cfg.adbcToken]
  else
    (if cfg.adbcUser ≠ [] then [.databaseSetOption "username".toList cfg.adbcUser] else []) ++
      (if cfg.adbcPwd ≠ [] then [.databaseSetOption "password".toList cfg.adbcPwd] else [])

def computeOption (cfg : Config) : Program World Bool :=
  if cfg.adbcCompute ≠ [] then
    attempt drv (computeCall cfg) "DatabaseSetOption(compute_url)".toList (closeDatabase drv)
  else pure true

def databasePhase (cfg : Config) : Program World Bool := do
  unless ← attempt drv .databaseNew "DatabaseNew".toList (closeLib drv) do return false
  unless ← attempt drv (uriCall cfg) "DatabaseSetOption(uri)".toList (closeDatabase drv) do
    return false
  unless ← computeOption drv cfg do return false
  forEach (call drv) (credentialCalls cfg)
  unless ← attempt drv .databaseInit "DatabaseInit".toList (closeDatabase drv) do return false
  modify fun w => { w with flags := { w.flags with dbInit := true } }
  return true

def connectPhase : Program World Bool := do
  unless ← attempt drv .connectionNew "ConnectionNew".toList (closeDatabase drv) do return false
  unless ← attempt drv .connectionInit "ConnectionInit".toList (closeConnection drv) do
    return false
  modify fun w => { w with
    flags := { w.flags with connInit := true }
    out := { w.out with tConnect := drv.clock 1 - drv.clock 0 } }
  return true

/-! ### Prepare and execute -/

def preparePhase (sql : Str) : Program World Bool := do
  unless ← attempt drv .statementNew "StatementNew".toList (closeOpen drv) do return false
  modify fun w => { w with flags := { w.flags with stmtInit := true } }
  unless ← attempt drv (.statementSetSqlQuery sql) "StatementSetSqlQuery".toList
    (closeStatement drv) do return false
  modify fun w => { w with out := { w.out with tPrepare := drv.clock 2 - drv.clock 1 } }
  return true

/-- `if (stream.release) stream.release(&stream)`. -/
def releaseStream : Program World Unit :=
  if (drv.answer .statementExecuteQuery).filled then call drv .streamRelease else pure ()

def releaseSchema : Program World Unit :=
  if (drv.answer .getSchema).filled then call drv .schemaRelease else pure ()

def executePhase : Program World Bool := do
  unless ← attempt drv .statementExecuteQuery "StatementExecuteQuery".toList
    (closeStatement drv) do return false
  call drv .getSchema
  unless drv.ok .getSchema do
    modify fun w => w.setError ("ArrowArrayStream.get_schema returned ".toList ++
      number (drv.answer .getSchema).code)
    releaseStream drv
    closeStatement drv
    return false
  modify fun w => { w with out := { w.out with columns := drv.nChildren } }
  releaseSchema drv
  modify fun w => { w with out := { w.out with tExecute := drv.clock 3 - drv.clock 2, tBind := 0 } }
  return true

/-! ### Drain and release -/

/-- The loop over `get_next`; it is cut where the driver has not answered. -/
def pull : Nat → List Answer → Program World Unit
  | _, [] => halt .killed
  | n, a :: rest => do
    modify fun w => w.record ⟨.getNext n, a⟩
    if a.code ≠ 0 then
      modify fun w => w.setError ("ArrowArrayStream.get_next returned ".toList ++ number a.code)
    else if a.filled = false then
      pure ()
    else do
      modify fun w => { w with rowCount := w.rowCount + drv.batchLength n }
      call drv (.batchRelease n)
      pull (n + 1) rest

def profile (verbose : Bool) : Program World Unit :=
  if verbose then do
    load drv profileSymbol
    if drv.ok profileSymbol then call drv .profile else pure ()
  else pure ()

def drainPhase (verbose : Bool) : Program World Bool := do
  modify fun w => { w with rowCount := 0 }
  pull drv 0 drv.batches
  releaseStream drv
  modify fun w => { w with out := { w.out with
    tDrain := drv.clock 4 - drv.clock 3, rows := w.rowCount } }
  profile drv verbose
  let w ← get
  if w.out.error ≠ [] then
    closeStatement drv
    return false
  return true

/-- A release at the end of the iteration: its failure is reported if none was before. -/
def reportRelease (flag : Flags → Bool) (c : Call) (what : Str) : Program World Unit := do
  let w ← get
  if flag w.flags then
    call drv c
    if drv.ok c = false ∧ w.out.error = [] then failWith drv what c else pure ()
  else pure ()

def releasePhase : Program World Unit := do
  reportRelease drv (·.stmtInit) .statementRelease "StatementRelease".toList
  reportRelease drv (·.connInit) .connectionRelease "ConnectionRelease".toList
  reportRelease drv (·.dbInit) .databaseRelease "DatabaseRelease".toList
  call drv .dlclose
  modify fun w => { w with out := { w.out with
    tRelease := drv.clock 5 - drv.clock 4, tTotal := drv.clock 5 - drv.clock 0 } }

/-- `run_adbc_iter`; `verbose` says whether `DF_BENCH_VERBOSE` is set. -/
def runAdbcIter (verbose : Bool) (cfg : Config) (sql : Str) : Program World Unit := do
  unless ← loadPhase drv cfg do return
  unless ← databasePhase drv cfg do return
  unless ← connectPhase drv do return
  unless ← preparePhase drv sql do return
  unless ← executePhase drv do return
  unless ← drainPhase drv verbose do return
  releasePhase drv

end Program

end DeltaForgeBench.Drivers.Adbc
