import DeltaForgeBench.Base.Handles
import DeltaForgeBench.Base.Interrupt
import DeltaForgeBench.Drivers.Timings

/-! # The ODBC path

One iteration of the ODBC bench: environment, connection and statement are set
up, the query runs, its columns are described and bound, the rows are drained
and everything is released. What the driver answers is a parameter; the calls
made and their answers are kept as a trace. -/
namespace DeltaForgeBench.Drivers.Odbc
open DeltaForgeBench.Base.Text DeltaForgeBench.Base.Handles DeltaForgeBench.Base.Interrupt
open DeltaForgeBench.Drivers

/-! ## The driver manager -/

inductive Handle
  | env | dbc | connection | stmt
  deriving DecidableEq, Repr

/-- A connection is opened on its DBC handle, a statement on the connection. -/
def parent : Handle → Option Handle
  | .env => none
  | .dbc => some .env
  | .connection => some .dbc
  | .stmt => some .connection

/-- `SQL_SUCCEEDED`: `SQL_SUCCESS` and `SQL_SUCCESS_WITH_INFO`. -/
def succeeded (rc : Int) : Bool := rc = 0 || rc = 1

def successWithInfo : Int := 1

def noData : Int := 100

structure DiagRec where
  sqlstate : Str
  message : Str

/-- A return code with the diagnostic records left on the handle. -/
structure Answer where
  rc : Int
  diag : List DiagRec

inductive Call
  | allocHandle (h : Handle)
  | setEnvAttr
  | connect (dsn : Str) (uid pwd : Option Str)
  | execDirect (sql : Str)
  | numResultCols
  | describeCol (i : Nat)
  | bindCol (i : Nat) (cType : Int) (bufferLen : Nat)
  | fetch
  | getData (row i : Nat) (cType : Int) (bufferLen : Nat)
  | closeCursor
  | freeHandle (h : Handle)
  | disconnect
  | getDiagRec (h : Handle)
  deriving DecidableEq

structure Event where
  call : Call
  answer : Answer

/-- What a call does to the handles: only a successful one creates, and a
release is over with the call. -/
def Event.effect (e : Event) : Effect Handle :=
  match e.call with
  | .allocHandle h =>
    if succeeded e.answer.rc then .create (parent h).toList h else .use (parent h).toList
  | .connect .. => if succeeded e.answer.rc then .create [.dbc] .connection else .use [.dbc]
  | .setEnvAttr => .use [.env]
  | .execDirect _ | .numResultCols | .describeCol _ | .bindCol .. | .fetch | .getData ..
  | .closeCursor => .use [.stmt]
  | .freeHandle h => .release [] h
  | .disconnect => .release [.dbc] .connection
  | .getDiagRec h => .use [h]

structure Column where
  sqlType : Int
  colSize : Nat

/-- A row arrived. -/
def IsRow (a : Answer) : Prop := succeeded a.rc = true

/-- All a driver answers in one iteration. -/
structure Driver where
  answer : Call → Answer
  /-- The answers to the calls of `SQLFetch`, in order. -/
  fetches : List Answer
  /-- Whether the output handle of `SQLAllocHandle` is not null afterwards. -/
  handleSet : Handle → Bool
  ncols : Nat
  column : Nat → Column
  /-- The readings of `now_seconds` between the phases. -/
  clock : Nat → ℚ
  /-- A failed allocation leaves `SQL_NULL_HANDLE`. -/
  handleSet_eq : ∀ h, handleSet h = succeeded (answer (.allocHandle h)).rc
  /-- The result set ends, or fetching from it fails. -/
  fetches_end : ∃ a ∈ fetches, ¬ IsRow a

/-! ## Buffers -/

/-- The cases of `natural_c_type`: a SQL type and its C type. -/
def cTypes : List (Int × Int) :=
  [(-7, -7),                                  -- SQL_BIT
    (-6, -6), (5, 5), (4, 4), (-5, -25),      -- SQL_TINYINT, SMALLINT, INTEGER, BIGINT
    (7, 7), (6, 8), (8, 8),                   -- SQL_REAL, FLOAT, DOUBLE
    (3, 2), (2, 2),                           -- SQL_DECIMAL, NUMERIC
    (9, 91), (91, 91), (10, 92), (92, 92),    -- SQL_DATE, TYPE_DATE, TIME, TYPE_TIME
    (11, 93), (93, 93),                       -- SQL_TIMESTAMP, TYPE_TIMESTAMP
    (-11, -11),                               -- SQL_GUID
    (-2, -2), (-3, -2), (-4, -2),             -- SQL_BINARY, VARBINARY, LONGVARBINARY
    (-8, -8), (-9, -8), (-10, -8)]            -- SQL_WCHAR, WVARCHAR, WLONGVARCHAR

/-- `natural_c_type`; everything else is read as `SQL_C_CHAR`. -/
def naturalCType (sqlType : Int) : Int := (cTypes.lookup sqlType).getD 1

/-- The cases of `cell_buffer_bytes` whose size does not depend on the column. -/
def fixedSizes : List (Int × Nat) :=
  [(-7, 1), (-6, 1), (5, 2), (4, 4), (7, 4), (-25, 8), (8, 8),
    (2, 19), (91, 6), (92, 6), (93, 16), (-11, 16)]

/-- The length a column announces, when it is usable, or the default. -/
def cellLength (colSize cap default : Nat) : Nat :=
  if 0 < colSize ∧ colSize < cap then colSize else default

/-- `cell_buffer_bytes`. -/
def cellBufferBytes (cType : Int) (colSize : Nat) : Nat :=
  match fixedSizes.lookup cType with
  | some size => size
  | none =>
    if cType = -2 then cellLength colSize (2 ^ 20) 65536
    else if cType = -8 then (cellLength colSize (2 ^ 18) 8192 + 1) * 2
    else cellLength colSize (2 ^ 18) 8192 + 1

/-! ## One iteration -/

/-- The trace and the variables of `run_odbc_iter`. -/
structure World where
  trace : List Event := []
  henv : Option Handle := none
  hdbc : Option Handle := none
  hstmt : Option Handle := none
  connected : Bool := false
  rowCount : Nat := 0
  out : PhaseTimings := {}

def World.record (w : World) (e : Event) : World := { w with trace := w.trace ++ [e] }

def World.setError (w : World) (text : Str) : World := { w with out := { w.out with error := text } }

section Program
variable (drv : Driver)

def call (c : Call) : Program World Unit := modify fun w => w.record ⟨c, drv.answer c⟩

/-- `read_diag`: the first record left by the call that failed. -/
def readDiag (h : Handle) (a : Answer) : Program World Str := do
  call drv (.getDiagRec h)
  let d := a.diag.headD ⟨[], []⟩
  if succeeded (drv.answer (.getDiagRec h)).rc then
    return '[' :: d.sqlstate ++ "] ".toList ++ d.message
  else return "(no diagnostic)".toList

def freeHandle (h : Option Handle) : Program World Unit :=
  match h with
  | some h => call drv (.freeHandle h)
  | none => pure ()

/-- `free_handles`. -/
def freeHandles : Program World Unit := do
  let w ← get
  freeHandle drv w.hstmt
  if w.connected then call drv .disconnect
  freeHandle drv w.hdbc
  freeHandle drv w.henv

/-- The check behind a call: a failure fills the error, frees the handles and
leaves the iteration. -/
def checked (a : Answer) (what place : Str) (h : Handle) : Program World Bool := do
  if succeeded a.rc then return true
  let diag ← readDiag drv h a
  modify fun w => w.setError (what ++ " failed".toList ++ place ++ ": ".toList ++ diag)
  freeHandles drv
  return false

def attempt (c : Call) (what place : Str) (h : Handle) : Program World Bool := do
  call drv c
  checked drv (drv.answer c) what place h

/-- What `SQLAllocHandle` writes to its output. -/
def Driver.output (h : Handle) : Option Handle := if drv.handleSet h then some h else none

/-- `none` for an option left empty. -/
def optional (text : Str) : Option Str := if text = [] then none else some text

def connectCall (cfg : Config) : Call :=
  .connect cfg.odbcDsn (optional cfg.odbcUid) (optional cfg.odbcPwd)

def connectPhase (cfg : Config) : Program World Bool := do
  call drv (.allocHandle .env)
  modify fun w => { w with henv := drv.output .env }
  unless succeeded (drv.answer (.allocHandle .env)).rc do
    modify fun w => w.setError "SQLAllocHandle(ENV) failed".toList
    return false
  unless ← attempt drv .setEnvAttr "SQLSetEnvAttr(ODBC_VERSION=3)".toList [] .env do return false
  call drv (.allocHandle .dbc)
  modify fun w => { w with hdbc := drv.output .dbc }
  unless ← checked drv (drv.answer (.allocHandle .dbc)) "SQLAllocHandle(DBC)".toList [] .env do
    return false
  unless ← attempt drv (connectCall cfg) "SQLConnect".toList [] .dbc do return false
  modify fun w => { w with connected := true }
  call drv (.allocHandle .stmt)
  modify fun w => { w with hstmt := drv.output .stmt }
  unless ← checked drv (drv.answer (.allocHandle .stmt)) "SQLAllocHandle(STMT)".toList [] .dbc do
    return false
  modify fun w => { w with out := { w.out with tConnect := drv.clock 1 - drv.clock 0 } }
  return true

def executePhase (sql : Str) : Program World Bool := do
  unless ← attempt drv (.execDirect sql) "SQLExecDirect".toList [] .stmt do return false
  modify fun w => { w with out := { w.out with
    tPrepare := 0, tExecute := drv.clock 2 - drv.clock 1 } }
  return true

def bufferType (i : Nat) : Int := naturalCType (drv.column i).sqlType

def bufferLen (i : Nat) : Nat := cellBufferBytes (bufferType drv i) (drv.column i).colSize

def atColumn (i : Nat) : Str := " col ".toList ++ number (i + 1)

def typesOf (i : Nat) : Str :=
  " (sql_type=".toList ++ number (drv.column i).sqlType ++ ", c_type=".toList ++
    number (bufferType drv i) ++ ")".toList

/-- Only a run without `SQLGetData` binds its columns. -/
def describeColumn (useGetdata : Bool) (i : Nat) : Program World Bool := do
  unless ← attempt drv (.describeCol (i + 1)) "SQLDescribeCol".toList (" at".toList ++ atColumn i)
    .stmt do return false
  if useGetdata then return true
  attempt drv (.bindCol (i + 1) (bufferType drv i) (bufferLen drv i)) "SQLBindCol".toList
    (" at".toList ++ atColumn i ++ typesOf drv i) .stmt

def bindPhase (useGetdata : Bool) : Program World Bool := do
  unless ← attempt drv .numResultCols "SQLNumResultCols".toList [] .stmt do return false
  modify fun w => { w with out := { w.out with columns := drv.ncols } }
  unless ← forWhile (describeColumn drv useGetdata) (List.range drv.ncols) do return false
  modify fun w => { w with out := { w.out with tBind := drv.clock 3 - drv.clock 2 } }
  return true

def atRow (w : World) : Str := " at row ".toList ++ number (w.rowCount + 1)

/-- The column's cell of the row just fetched; `SQL_NO_DATA` is let through. -/
def pullCell (i : Nat) : Program World Bool := do
  let w ← get
  let c := Call.getData (w.rowCount + 1) (i + 1) (bufferType drv i) (bufferLen drv i)
  call drv c
  if (drv.answer c).rc = noData then return true
  checked drv (drv.answer c) "SQLGetData".toList (atRow w ++ atColumn i ++ typesOf drv i) .stmt

def pullRow (useGetdata : Bool) : Program World Bool := do
  if useGetdata then
    forWhile (pullCell drv) (List.range drv.ncols)
  else return true

/-- The loop over `SQLFetch`; it is cut where the driver has not answered. -/
def drain (useGetdata : Bool) : List Answer → Program World Bool
  | [] => halt .killed
  | a :: rest => do
    modify fun w => w.record ⟨.fetch, a⟩
    if a.rc = noData then return true
    let w ← get
    unless ← checked drv a "SQLFetch".toList (atRow w) .stmt do return false
    unless ← pullRow drv useGetdata do return false
    modify fun w => { w with rowCount := w.rowCount + 1 }
    drain useGetdata rest

def drainPhase (useGetdata : Bool) : Program World Bool := do
  modify fun w => { w with rowCount := 0 }
  unless ← drain drv useGetdata drv.fetches do return false
  modify fun w => { w with out := { w.out with
    tDrain := drv.clock 4 - drv.clock 3, rows := w.rowCount } }
  return true

def releasePhase : Program World Unit := do
  call drv .closeCursor
  freeHandles drv
  modify fun w => { w with out := { w.out with
    tRelease := drv.clock 5 - drv.clock 4, tTotal := drv.clock 5 - drv.clock 0 } }

def usesGetdata (odbcMode : Str) : Bool := odbcMode = "getdata".toList

/-- `run_odbc_iter`. -/
def runOdbcIter (cfg : Config) (sql odbcMode : Str) : Program World Unit := do
  unless ← connectPhase drv cfg do return
  unless ← executePhase drv sql do return
  unless ← bindPhase drv (usesGetdata odbcMode) do return
  unless ← drainPhase drv (usesGetdata odbcMode) do return
  releasePhase drv

end Program

end DeltaForgeBench.Drivers.Odbc
