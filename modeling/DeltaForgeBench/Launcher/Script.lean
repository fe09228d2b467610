import DeltaForgeBench.Base.Runs
import DeltaForgeBench.Base.Text

/-! # The launcher

`./bench` puts the platform on a virtual display, waits until it is healthy and
serves queries, runs the harness against it, and takes everything down again
from a trap. From the line that sets the trap on, the script interleaves with
the processes it has started, with the clock, and with the signals it catches. -/
namespace DeltaForgeBench.Launcher.Script
open DeltaForgeBench.Base.Text DeltaForgeBench.Base.Runs

/-! ## What the probe prints -/

/-- `grep -qi` for a plain phrase, which is given in lower case. -/
def mentions (text : Str) (phrase : String) : Bool :=
  (lower text).tails.any fun rest => phrase.toList.isPrefixOf rest

/-- `grep -qi` for `first.?second`. -/
def mentionsApart (text : Str) (first second : String) : Bool :=
  (lower text).tails.any fun rest => first.toList.isPrefixOf rest &&
    match rest.drop first.length with
    | [] => false
    | c :: cs => second.toList.isPrefixOf (c :: cs) || (c != '\n' && second.toList.isPrefixOf cs)

def isWordChar (c : Char) : Bool := c.isAlphanum || c == '_'

/-- `grep -q` for `\b4(02|29)\b`, behind the character `before`. -/
def mentionsStatus (before : Option Char) : Str → Bool
  | [] => false
  | c :: cs =>
    (!before.any isWordChar &&
      [['4', '0', '2'], ['4', '2', '9']].any fun code =>
        code.isPrefixOf (c :: cs) && !((c :: cs)[3]?).any isWordChar) ||
      mentionsStatus (some c) cs

def looksLikeNotActivated (out : Str) : Bool :=
  ["not_activated", "not activated", "activate your license", "license not activated"].any
    (mentions out)

def looksLikeLicenseLimit (out : Str) : Bool :=
  ["licen", "quota", "exhaust", "dfcu", "compute unit", "usage cap", "limit exceeded",
    "payment required"].any (mentions out) ||
    mentionsApart out "over" "limit" || mentionsApart out "rate" "limit" ||
    mentionsStatus none out

def showsRows (out : Str) : Bool := ["\"row_count\"", "\"rows\""].any (mentions out)

inductive Reading
  | notActivated | rejected | rows | nothing
  deriving DecidableEq, Repr

/-- The tests of an answer that are cut short: a signal has ended the `grep`, or it
was the broken pipe of the `printf` that `grep -q` had left. Under `pipefail` such
a test fails. -/
structure Cut where
  activation : Bool := false
  licence : Bool := false
  rows : Bool := false

/-- What a probe printed, and how it was looked at. -/
structure Probe where
  out : Str
  cut : Cut := {}

/-- How the loop takes what the probe printed; a device that is not activated yet
is asked for first, since its message speaks of the licence as well. -/
def Probe.read (p : Probe) : Reading :=
  if looksLikeNotActivated p.out && !p.cut.activation then .notActivated
  else if looksLikeLicenseLimit p.out && !p.cut.licence then .rejected
  else if showsRows p.out && !p.cut.rows then .rows
  else .nothing

/-! ## The processes -/

inductive Kind
  | xvfb | platform
  deriving DecidableEq, Repr

/-- A process the script has put into the background. It is `alive` until the
shell has reaped it, and `told` once it was sent a `kill`. -/
structure Child where
  kind : Kind
  alive : Bool := true
  told : Bool := false
  deriving DecidableEq, Repr

/-- A process that `pgrep -x postgres` lists; it is `ours` when its command line
names the data directory of this launcher, and `late` when it came up while no
platform ran. -/
structure Server where
  ours : Bool
  late : Bool := false
  alive : Bool := true
  told : Bool := false
  deriving DecidableEq, Repr

/-- How the script comes to its end: the `fail` it takes, the harness, or a command
that did not succeed where nothing looks at it (`set -e`). -/
inductive Outcome
  | exitedDuringStartup
  | notHealthy
  | exitedWhileWaiting
  | rejected
  | notActivated
  | noResult
  | harness (code : Nat)
  | aborted (status : Nat)
  deriving DecidableEq, Repr

def Outcome.exitCode : Outcome → Nat
  | .harness code => code
  | .aborted status => status
  | _ => 1

/-- Where the script is. -/
inductive Control
  -- `start_virtual_display`, at the display `n` or in front of those that are left
  | search (rest : List Nat)
  | spawned (n : Nat) (rest : List Nat)
  | polling (n : Nat) (rest : List Nat) (i : Nat)
  | testing (n : Nat) (rest : List Nat) (i : Nat)
  | givingUp (rest : List Nat)
  | reaping (rest : List Nat)
  | forgetting (rest : List Nat)
  | boot
  | booted
  -- the loop over `health`
  | healthStart
  | healthTime (deadline : Nat)
  | healthAlive (deadline : Nat)
  | healthCall (deadline : Nat)
  | healthSleep (deadline wake : Nat)
  -- the loop over the probe; `saw` is `saw_not_activated`
  | probeStart
  | probeTime (deadline : Nat) (saw : Bool)
  | probeAlive (deadline : Nat) (saw : Bool)
  | probeCall (deadline : Nat) (saw : Bool)
  | probeSleep (deadline : Nat) (saw : Bool) (wake : Nat)
  | harness
  | running
  -- what is shown of the logs in front of a `fail`
  | failing (outcome : Outcome)
  | leaving (outcome : Outcome)
  | exited (outcome : Outcome)

/-- Where a call of `stop_platform` is; `left` are the servers of `pgrep`'s list it
has not looked at yet. -/
inductive Handler
  | killPlatform | waitPlatform | listServers | stopServers (left : List Nat) | killXvfb | waitXvfb
  deriving DecidableEq, Repr

/-- What the script did to the platform, as far as it counts. -/
inductive Entry
  | health (ok : Bool)
  | probe (p : Probe)
  | probeKilled
  | harness (code : Nat)

/-- `handlers` are the traps that run, the innermost first: a signal that comes
while one of them runs starts another. -/
structure State where
  control : Control
  handlers : List Handler := []
  children : List Child := []
  platformPid : Option Nat := none
  xvfbPid : Option Nat := none
  display : Option Nat := none
  servers : List Server := []
  clock : Nat := 0
  log : List Entry := []

/-- `kill -0`. -/
def State.isAlive (s : State) (pid : Option Nat) : Bool :=
  ((pid.bind (s.children[·]?)).map (·.alive)).getD false

/-- `[ -n "$pid" ] && kill "$pid" || true`. -/
def State.tell (s : State) : Option Nat → State
  | none => s
  | some pid => { s with children := s.children.modify pid ({ · with told := true }) }

/-- `cmd &`. -/
def State.spawn (s : State) (kind : Kind) : State :=
  { s with children := s.children ++ [{ kind := kind }] }

/-- `$!`: the process that was put into the background last. -/
def State.last (s : State) : Nat := s.children.length - 1

/-- The end of the script, which runs the trap on `EXIT`. -/
def State.leave (s : State) (outcome : Outcome) : State :=
  { s with control := .leaving outcome, handlers := [.killPlatform] }

/-- What a command of the script answers. A `code` other than zero is that of a
command that failed or was killed. -/
inductive Answer
  | ok | no
  | printed (p : Probe)
  | code (n : Nat)

def State.goto (s : State) (control : Control) : State := { s with control := control }

def State.note (s : State) (entry : Entry) : State := { s with log := s.log ++ [entry] }

/-- The probe has not been answered in time. -/
def State.timeOut (s : State) (saw : Bool) : State :=
  if saw then s.leave .notActivated else s.goto (.failing .noResult)

/-- `set -e` behind a command that has failed. -/
def State.abort (s : State) (status : Nat) : Option State :=
  if status = 0 then none else some (s.leave (.aborted status))

/-- One command of the script. Where a `date` is killed, the deadline has no value,
or the test of it fails; a `health` that is killed is one that says no. -/
def State.advance (s : State) (a : Answer) : Option State :=
  match s.control, a with
  | .search [], .ok => some (s.goto .boot)
  | .search (_ :: rest), .ok => some (s.goto (.search rest))
  | .search (n :: rest), .no => some ((s.spawn .xvfb).goto (.spawned n rest))
  | .spawned n rest, .ok => some { s with control := .polling n rest 0, xvfbPid := some s.last }
  | .polling n rest i, .ok =>
    some (s.goto (if i < 50 ∧ s.isAlive s.xvfbPid then .testing n rest i else .givingUp rest))
  | .testing n _ _, .ok => some { s with control := .boot, display := some n }
  | .testing n rest i, .no => some (s.goto (.polling n rest (i + 1)))
  | .givingUp rest, .ok => some ((s.tell s.xvfbPid).goto (.reaping rest))
  | .reaping rest, .ok =>
    if s.isAlive s.xvfbPid then none else some (s.goto (.forgetting rest))
  | .forgetting rest, .ok => some { s with control := .search rest, xvfbPid := none }
  | .boot, .ok => some ((s.spawn .platform).goto .booted)
  | .booted, .ok => some { s with control := .healthStart, platformPid := some s.last }
  | .healthStart, .ok => some (s.goto (.healthTime (s.clock + 180)))
  | .healthStart, .code n => s.abort n
  | .healthTime deadline, .ok =>
    some (s.goto (if s.clock < deadline then .healthAlive deadline else .failing .notHealthy))
  | .healthTime _, .no => some (s.goto (.failing .notHealthy))
  | .healthAlive deadline, .ok =>
    some (s.goto (if s.isAlive s.platformPid then .healthCall deadline
      else .failing .exitedDuringStartup))
  | .healthCall _, .ok => some ((s.note (.health true)).goto .probeStart)
  | .healthCall deadline, .no =>
    some ((s.note (.health false)).goto (.healthSleep deadline (s.clock + 2)))
  | .healthSleep deadline wake, .ok =>
    if wake ≤ s.clock then some (s.goto (.healthTime deadline)) else none
  | .healthSleep _ _, .code n => s.abort n
  | .probeStart, .ok => some (s.goto (.probeTime (s.clock + 90) false))
  | .probeStart, .code n => s.abort n
  | .probeTime deadline saw, .ok =>
    some (if s.clock < deadline then s.goto (.probeAlive deadline saw) else s.timeOut saw)
  | .probeTime _ saw, .no => some (s.timeOut saw)
  | .probeAlive deadline saw, .ok =>
    some (s.goto (if s.isAlive s.platformPid then .probeCall deadline saw
      else .failing .exitedWhileWaiting))
  | .probeCall _ _, .code n => (s.note .probeKilled).abort n
  | .probeCall deadline saw, .printed p =>
    let noted := s.note (.probe p)
    some (match p.read with
      | .notActivated => noted.goto (.probeSleep deadline true (s.clock + 2))
      | .rejected => noted.leave .rejected
      | .rows => noted.goto .harness
      | .nothing => noted.goto (.probeSleep deadline saw (s.clock + 2)))
  | .probeSleep deadline saw wake, .ok =>
    if wake ≤ s.clock then some (s.goto (.probeTime deadline saw)) else none
  | .probeSleep _ _ _, .code n => s.abort n
  | .harness, .ok => some (s.goto .running)
  | .running, .code n => some ((s.note (.harness n)).leave (.harness n))
  | .failing outcome, .ok => some (s.leave outcome)
  | .failing _, .code n => s.abort n
  | .leaving outcome, .ok => some (s.goto (.exited outcome))
  | _, _ => none

/-- What `pgrep -x postgres` lists. -/
def State.listed (s : State) : List Nat :=
  (List.range s.servers.length).filter fun i => s.servers[i]?.any (·.alive)

/-- The `kill` of a server whose command line names the data directory. -/
def Server.stop (p : Server) : Server := { p with told := p.told || (p.ours && p.alive) }

/-- One command of the innermost trap, or one round of its loop over the servers. -/
def State.handle (s : State) : Option State :=
  match s.handlers with
  | [] => none
  | .killPlatform :: rest => some { s.tell s.platformPid with handlers := .waitPlatform :: rest }
  | .waitPlatform :: rest =>
    if s.isAlive s.platformPid then none else some { s with handlers := .listServers :: rest }
  | .listServers :: rest => some { s with handlers := .stopServers s.listed :: rest }
  | .stopServers [] :: rest => some { s with handlers := .killXvfb :: rest }
  | .stopServers (i :: left) :: rest => some { s with
      servers := s.servers.modify i Server.stop
      handlers := .stopServers left :: rest }
  | .killXvfb :: rest => some { s.tell s.xvfbPid with handlers := .waitXvfb :: rest }
  | .waitXvfb :: rest =>
    if s.isAlive s.xvfbPid then none else some { s with handlers := rest }

/-- A signal makes a `wait` return at once, and ends a `pgrep`, which has then listed
nothing, or the test of a server's command line. -/
def State.interrupt (s : State) : State :=
  match s.handlers with
  | .waitPlatform :: rest => { s with handlers := .listServers :: rest }
  | .listServers :: rest => { s with handlers := .stopServers [] :: rest }
  | .stopServers (_ :: left) :: rest => { s with handlers := .stopServers left :: rest }
  | .waitXvfb :: rest => { s with handlers := rest }
  | _ :: _ => s
  | [] => match s.control with
    | .reaping rest => s.goto (.forgetting rest)
    | _ => s

/-- The trap is run, out of the command it interrupts or behind it. -/
def State.trapped (s : State) (interrupts : Bool) : State :=
  let s := if interrupts then s.interrupt else s
  { s with handlers := .killPlatform :: s.handlers }

/-- The script has a command in the foreground. -/
def Control.foreground : Control → Bool
  | .healthCall _ | .healthSleep .. | .probeCall .. | .probeSleep .. | .running => true
  | _ => false

/-- `trap stop_platform INT TERM`: the trap runs between two commands, or out of
a `wait`; while a command is in the foreground the shell puts it off. -/
def State.signal (s : State) (interrupts : Bool) : Option State :=
  match s.control, s.handlers with
  | .exited _, _ => none
  | control, [] => if control.foreground then none else some (s.trapped interrupts)
  | _, _ => some (s.trapped interrupts)

/-- What happens around the script. -/
inductive Event
  | script (a : Answer)
  | trap
  | signal (interrupts : Bool)
  | died (pid : Nat)
  | serverStarted (ours : Bool)
  | serverDied (i : Nat)
  | tick

def State.platformRuns (s : State) : Bool :=
  s.children.any fun c => c.kind == .platform && c.alive

/-- The script itself goes on when no trap runs. -/
def State.next (s : State) : Event → Option State
  | .script a => if s.handlers = [] then s.advance a else none
  | .trap => s.handle
  | .signal interrupts => s.signal interrupts
  | .died pid => some { s with children := s.children.modify pid ({ · with alive := false }) }
  | .serverStarted ours =>
    some { s with servers := s.servers ++ [{ ours := ours, late := !s.platformRuns }] }
  | .serverDied i => some { s with servers := s.servers.modify i ({ · with alive := false }) }
  | .tick => some { s with clock := s.clock + 1 }

/-- The display numbers that are tried. -/
def displays : List Nat := [99, 100, 101, 102, 103, 104, 105, 106, 107, 108]

/-- The script from its trap on. Elsewhere than on Linux, and without `Xvfb`, it
searches no display. -/
def launcher : System State Event where
  start s := s = { control := .search displays } ∨ s = { control := .boot }
  step s e s' := s.next e = some s'

end DeltaForgeBench.Launcher.Script
