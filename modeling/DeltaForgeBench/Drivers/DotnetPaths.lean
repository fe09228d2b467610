import DeltaForgeBench.Base.Dict
import DeltaForgeBench.Base.Disposal
import DeltaForgeBench.Base.Interrupt
import DeltaForgeBench.Drivers.WarmMedian

/-! # The paths of the .NET bench

An iteration through ADBC, and one through ODBC. Any call of a driver may throw,
and a repeated one may do what the first did not. The `catch` of an iteration
keeps the text of the exception, and its `finally` disposes of the variables
that are not null: one by one behind a `try` with ADBC, without one with ODBC. -/
namespace DeltaForgeBench.Drivers.DotnetPaths
open DeltaForgeBench.Base.Text DeltaForgeBench.Base.Dict DeltaForgeBench.Base.Handles
open DeltaForgeBench.Base.Interrupt
open DeltaForgeBench.Drivers DeltaForgeBench.Drivers.WarmMedian

/-! ## Exceptions -/

/-- An exception, as the handlers tell them apart. -/
inductive Thrown
  | adbc (message status sqlState : Str)
  | odbc (message : Str) (errorCode : Int)
  | other (type message : Str)

/-- `catch (Exception ex)`. -/
def Thrown.text : Thrown → Str
  | .adbc message _ _ => "AdbcException: ".toList ++ message
  | .odbc message _ => "OdbcException: ".toList ++ message
  | .other type message => type ++ ": ".toList ++ message

/-- The handlers of the ADBC path. -/
def Thrown.adbcText : Thrown → Str
  | .adbc message status sqlState => "AdbcException: ".toList ++ message ++
      " (status=".toList ++ status ++ " sqlstate=".toList ++ sqlState ++ ")".toList
  | thrown => thrown.text

/-- The handlers of the ODBC path. -/
def Thrown.odbcText : Thrown → Str
  | .odbc message errorCode => "OdbcException: ".toList ++ message ++
      " (code=".toList ++ number errorCode ++ ")".toList
  | thrown => thrown.text

/-! ## Calls -/

variable {γ ο : Type}

structure Event (γ : Type) where
  call : γ
  thrown : Option Thrown

/-- The trace, and the variables of `RunIter`. -/
structure World (γ ο : Type) where
  trace : List (Event γ) := []
  /-- The variables that hold an object. -/
  locals : List ο := []
  rowCount : Int := 0
  ncols : Int := 0
  /-- The exception under way, or the last one there was. -/
  thrown : Option Thrown := none
  p : Dotnet.PhaseTimings := {}

def World.record (w : World γ ο) (e : Event γ) : World γ ο := { w with trace := w.trace ++ [e] }

def raise (e : Thrown) : Program (World γ ο) Unit := do
  modify fun w => { w with thrown := some e }
  halt .raised

/-- A call; what it throws depends on the calls before it. -/
def invoke (throws : Nat → γ → Option Thrown) (c : γ) : Program (World γ ο) Unit := do
  let w ← get
  modify fun w => w.record ⟨c, throws w.trace.length c⟩
  -- the length here is that of the trace before the call
  match throws w.trace.length c with
  | none => pure ()
  | some e => raise e

/-- A call whose result goes into a variable. -/
def assign (throws : Nat → γ → Option Thrown) (c : γ) (o : ο) : Program (World γ ο) Unit := do
  invoke throws c
  modify fun w => { w with locals := o :: w.locals }

/-- `o?.Dispose()`. -/
def disposeOf [DecidableEq ο] (throws : Nat → γ → Option Thrown) (dispose : ο → γ) (o : ο) :
    Program (World γ ο) Unit := do
  let w ← get
  if o ∈ w.locals then invoke throws (dispose o) else pure ()

/-- `try { ... } catch { ... return p; }`. -/
def tryCatch (text : Thrown → Str) (block : Program (World γ ο) Unit) :
    Program (World γ ο) Unit := do
  let ended ← contained block
  if ended then pure ()
  else modify fun w => { w with p := { w.p with error := w.thrown.map text } }

/-! ## The ADBC path -/

namespace AdbcPath

inductive Obj
  | driver | database | connection | statement | stream
  | batch (n : Nat)
  deriving DecidableEq, Repr

def parent : Obj → Option Obj
  | .driver => none
  | .database => some .driver
  | .connection => some .database
  | .statement => some .connection
  | .stream => some .statement
  | .batch _ => some .stream

inductive Call
  | loadDriver (file entryPoint : Str)
  | openDatabase (params : List (Str × Str))
  | connect
  | createStatement
  | setSqlQuery (sql : Str)
  | executeQuery
  | readNext (n : Nat)
  | disposeBatch (n : Nat)
  | dispose (o : Obj)

structure Batch where
  length : Int
  columnCount : Int

/-- All the driver does in one iteration. -/
structure Driver where
  throws : Nat → Call → Option Thrown
  /-- `QueryResult.Stream` is null. -/
  streamNull : Bool
  batches : List Batch
  /-- The stopwatch at the end of each phase. -/
  elapsed : Nat → ℚ

/-- What a call does to the objects. -/
def effect (drv : Driver) (e : Event Call) : Effect Obj :=
  let creates (hs : List Obj) (o : Obj) := if e.thrown.isNone then Effect.create hs o else .use hs
  match e.call with
  | .loadDriver .. => creates [] .driver
  | .openDatabase _ => creates [.driver] .database
  | .connect => creates [.database] .connection
  | .createStatement => creates [.connection] .statement
  | .setSqlQuery _ => .use [.statement]
  | .executeQuery => if drv.streamNull then .use [.statement] else creates [.statement] .stream
  | .readNext n =>
    if n < drv.batches.length then creates [.stream] (.batch n) else .use [.stream]
  | .disposeBatch n => .release [] (.batch n)
  | .dispose o => .release [] o

def dbParams (cfg : Config) : List (Str × Str) :=
  let params := [("uri".toList, cfg.adbcUri)]
  let params :=
    if cfg.adbcCompute ≠ [] then set params "adbc.deltaforge.compute_url".toList cfg.adbcCompute
    else params
  if cfg.adbcToken ≠ [] then set params "adbc.deltaforge.session_token".toList cfg.adbcToken
  else
    let params := if cfg.adbcUser ≠ [] then set params "username".toList cfg.adbcUser else params
    if cfg.adbcPwd ≠ [] then set params "password".toList cfg.adbcPwd else params

section Program
variable (drv : Driver)

def connectPhase (cfg : Config) : Program (World Call Obj) Unit := do
  assign drv.throws (.loadDriver cfg.adbcSo "AdbcDriverInit".toList) .driver
  assign drv.throws (.openDatabase (dbParams cfg)) .database
  assign drv.throws .connect .connection

def nullStream : Thrown :=
  .other "InvalidOperationException".toList "ExecuteQuery returned a null stream".toList

def executePhase (sql : Str) : Program (World Call Obj) Unit := do
  assign drv.throws .createStatement .statement
  invoke drv.throws (.setSqlQuery sql)
  if drv.streamNull then do
    invoke drv.throws .executeQuery
    raise nullStream
  else assign drv.throws .executeQuery .stream

/-- The loop over the batches, from the `n`-th on. -/
def drainPhase : Nat → List Batch → Program (World Call Obj) Unit
  | n, [] => invoke drv.throws (.readNext n)
  | n, batch :: rest => do
    invoke drv.throws (.readNext n)
    modify fun w => { w with
      rowCount := w.rowCount + batch.length
      ncols := if w.ncols = 0 then batch.columnCount else w.ncols }
    invoke drv.throws (.disposeBatch n)
    drainPhase (n + 1) rest

/-- The variables, as they are disposed of. -/
def order : List Obj := [.stream, .statement, .connection, .database, .driver]

def releasePhase : Program (World Call Obj) Unit :=
  forEach (fun o => invoke drv.throws (.dispose o)) order

def tryBlock (cfg : Config) (sql : Str) : Program (World Call Obj) Unit := do
  connectPhase drv cfg
  executePhase drv sql
  drainPhase drv 0 drv.batches
  releasePhase drv
  modify fun w => { w with p := { w.p with
    tConnect := drv.elapsed 0
    tExecute := drv.elapsed 1
    tDrain := drv.elapsed 2
    tRelease := drv.elapsed 3
    tTotal := drv.elapsed 0 + drv.elapsed 1 + drv.elapsed 2 + drv.elapsed 3
    rows := w.rowCount
    columns := w.ncols } }

/-- `try { o?.Dispose(); } catch { }`. -/
def disposeQuietly (o : Obj) : Program (World Call Obj) Unit := do
  let _ ← contained (disposeOf drv.throws .dispose o)
  pure ()

/-- `AdbcPath.RunIter`. -/
def runIter (cfg : Config) (sql : Str) : Program (World Call Obj) Unit := do
  tryCatch Thrown.adbcText (tryBlock drv cfg sql)
  forEach (disposeQuietly drv) order

end Program

end AdbcPath

/-! ## The ODBC path -/

namespace OdbcPath

inductive Obj
  | connection | command | reader
  deriving DecidableEq, Repr

def parent : Obj → Option Obj
  | .connection => none
  | .command => some .connection
  | .reader => some .command

inductive Call
  | newConnection (connectionString : Str)
  | openConnection
  | newCommand (sql : Str)
  | executeReader
  | fieldCount
  | read (n : Nat)
  | getValues (n : Nat)
  | closeReader
  | disposeCommand
  | closeConnection
  | dispose (o : Obj)

/-- All the driver does in one iteration. -/
structure Driver where
  throws : Nat → Call → Option Thrown
  fieldCount : Int
  /-- What `GetValues` returns, row by row. -/
  rows : List Int
  /-- The stopwatch at the end of each phase. -/
  elapsed : Nat → ℚ

/-- What a call does to the objects: closing one is as good as disposing of it. -/
def effect (e : Event Call) : Effect Obj :=
  let creates (hs : List Obj) (o : Obj) := if e.thrown.isNone then Effect.create hs o else .use hs
  match e.call with
  | .newConnection _ => creates [] .connection
  | .openConnection => .use [.connection]
  | .newCommand _ => creates [.connection] .command
  | .executeReader => creates [.command] .reader
  | .fieldCount | .read _ | .getValues _ => .use [.reader]
  | .closeReader => .release [] .reader
  | .disposeCommand => .release [] .command
  | .closeConnection => .release [] .connection
  | .dispose o => .release [] o

def connectionString (cfg : Config) : Str :=
  "DSN=".toList ++ cfg.odbcDsn ++ ";".toList ++
    (if cfg.odbcUid ≠ [] then "Uid=".toList ++ cfg.odbcUid ++ ";".toList else []) ++
    (if cfg.odbcPwd ≠ [] then "Pwd=".toList ++ cfg.odbcPwd ++ ";".toList else [])

section Program
variable (drv : Driver)

def connectPhase (cfg : Config) : Program (World Call Obj) Unit := do
  assign drv.throws (.newConnection (connectionString cfg)) .connection
  invoke drv.throws .openConnection

def executePhase (sql : Str) : Program (World Call Obj) Unit := do
  assign drv.throws (.newCommand sql) .command
  assign drv.throws .executeReader .reader

def shortRow (got : Int) : Thrown :=
  .other "InvalidOperationException".toList
    ("OdbcDataReader.GetValues returned ".toList ++ number got ++ " != ".toList ++
      number drv.fieldCount)

/-- The loop over the rows, from the `n`-th on. -/
def readRows : Nat → List Int → Program (World Call Obj) Unit
  | n, [] => invoke drv.throws (.read n)
  | n, got :: rest => do
    invoke drv.throws (.read n)
    invoke drv.throws (.getValues n)
    if got ≠ drv.fieldCount then raise (shortRow drv got)
    else do
      modify fun w => { w with rowCount := w.rowCount + 1 }
      readRows (n + 1) rest

def drainPhase : Program (World Call Obj) Unit := do
  invoke drv.throws .fieldCount
  modify fun w => { w with ncols := drv.fieldCount }
  readRows drv 0 drv.rows

def releasePhase : Program (World Call Obj) Unit := do
  invoke drv.throws .closeReader
  invoke drv.throws .disposeCommand
  invoke drv.throws .closeConnection

def tryBlock (cfg : Config) (sql : Str) : Program (World Call Obj) Unit := do
  connectPhase drv cfg
  executePhase drv sql
  drainPhase drv
  releasePhase drv
  modify fun w => { w with p := { w.p with
    tConnect := drv.elapsed 0
    tExecute := drv.elapsed 1
    tDrain := drv.elapsed 2
    tRelease := drv.elapsed 3
    tTotal := drv.elapsed 0 + drv.elapsed 1 + drv.elapsed 2 + drv.elapsed 3
    rows := w.rowCount
    columns := w.ncols } }

/-- The variables, as they are disposed of. -/
def order : List Obj := [.reader, .command, .connection]

/-- `OdbcPath.RunIter`. -/
def runIter (cfg : Config) (sql : Str) : Program (World Call Obj) Unit := do
  tryCatch Thrown.odbcText (tryBlock drv cfg sql)
  forEach (disposeOf drv.throws .dispose) order

end Program

end OdbcPath

end DeltaForgeBench.Drivers.DotnetPaths
