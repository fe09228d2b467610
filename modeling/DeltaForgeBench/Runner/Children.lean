import DeltaForgeBench.Runner.PartialFiles

/-! # One child process for each engine

A child empties its engine's record file once the engine is up, lets
`run_workload` append to it, and writes its version and cold start at its very
end. What becomes of each of its calls, and where it is stopped, is left open;
what it has done by then follows from that. -/
namespace DeltaForgeBench.Runner.Children
open DeltaForgeBench.Base.Text DeltaForgeBench.Base.Interrupt DeltaForgeBench.Base.Dict
open DeltaForgeBench.Base.JsonText DeltaForgeBench.Base.JsonPretty
open DeltaForgeBench.Base.JsonCompact DeltaForgeBench.Base.TextFiles
open DeltaForgeBench.Engines.Base DeltaForgeBench.Workloads.Spec
open DeltaForgeBench.Runner.Resolve DeltaForgeBench.Runner.RunWorkload
open DeltaForgeBench.Runner.PartialFiles

variable {ν : Type} {number : Str → ν}

/-! ## The fragment of a child -/

structure ColdStart (ν : Type) where
  importToSessionReadyMs : ν
  sessionToFirstQueryMs : ν

def ColdStart.json (c : ColdStart ν) : Json ν :=
  .obj [(key "import_to_session_ready_ms", .num c.importToSessionReadyMs),
    (key "session_to_first_query_ms", .num c.sessionToFirstQueryMs)]

/-- The dict of `engine.version_info()`. -/
structure Version (ν : Type) where
  members : List (Points × Json ν)
  printable : Printable (.obj members)

def Version.json (v : Version ν) : Json ν := .obj v.members

structure Fragment (ν : Type) where
  engine : Str
  version : Version ν
  coldStart : ColdStart ν

def Fragment.members (f : Fragment ν) : List (Points × Json ν) :=
  [(key "engine_versions", .obj [(points f.engine, f.version.json)]),
   (key "cold_starts", .obj [(points f.engine, f.coldStart.json)])]

variable (N : Numbers number)

/-- `json.dumps(frag)`. -/
def Fragment.dumped (f : Fragment ν) : Str := compact N.printer (.obj f.members)

def Fragment.text (f : Fragment ν) : Str := f.dumped N ++ ['\n']

/-! ## A child -/

/-- The arguments every child gets from the parent, but for its engine. -/
structure Plan where
  workloads : List Workload
  dataDir : Str → Path
  scale : Int

def applies (engine : Str) (w : Workload) : Bool :=
  match w.applicableEngines with
  | none => true
  | some engines => engines.contains engine

/-- The calls of `run_workload` that a child has before it. -/
def Plan.jobs (plan : Plan) (engine : Str) : List Job :=
  (plan.workloads.filter (applies engine)).map fun w =>
    { engineName := engine, workload := w, dataDir := plan.dataDir w.name, scale := plan.scale }

/-- The catalog steps that have something to run. -/
def Plan.catalogSteps (plan : Plan) (engine : Str) : List WorkloadStep :=
  (plan.jobs engine).flatMap fun job =>
    (job.workload.catalogSetupSteps.map job.resolve).filter fun s => s.sql ≠ none

/-- What a child does that can be seen from outside. A fragment may land with
its first characters only, and so may the line of a record. -/
inductive Act (ν : Type)
  | started
  | opened
  | wrote (w : Write)
  | fragment (f : Fragment ν) (landed : Nat)

def Act.write? : Act ν → Option Write
  | .wrote w => some w
  | _ => none

def Act.fragment? : Act ν → Option (Fragment ν × Nat)
  | .fragment f landed => some (f, landed)
  | _ => none

structure Child (ν : Type) where
  acts : List (Act ν) := []
  clock : Nat := 0

/-- How a child meets the world: whether it comes up, what becomes of each of
its calls, what the engine reports, and the surroundings of each workload. -/
structure Behaviour (ν : Type) where
  launches : Bool
  outcome : Nat → Option Halt
  coldStart : ColdStart ν
  version : Version ν
  env : Nat → Environment
  landed : Nat

/-- What a child has written to its record file so far. -/
def writesOf (acts : List (Act ν)) : List Write := acts.filterMap Act.write?

/-- The records of a child so far, those whose line landed. -/
def recordsOf (acts : List (Act ν)) : List Record := (writesOf acts).filterMap Write.record?

/-- Anything that may raise or take the process down. -/
def call (b : Behaviour ν) : Program (Child ν) Unit := do
  let c ← get
  modify fun c => { c with clock := c.clock + 1 }
  match b.outcome c.clock with
  | none => pure ()
  | some h => halt h

def act (a : Act ν) : Program (Child ν) Unit := modify fun c => { c with acts := c.acts ++ [a] }

/-- A call of `run_workload` on the child's record file as it is then. -/
structure Call where
  env : Environment
  job : Job
  before : Str

def Call.run (c : Call) : Except Halt (List Record) × World :=
  runWorkload { c.env with dumps := recordText N } c.job { file := c.before }

def Call.writes (c : Call) : List Write := (c.run N).2.history.filterMap Write.ofEvent?

def Call.records (c : Call) : List Record := (c.writes N).filterMap Write.record?

/-- `run_workload`, by what it appends to the file. -/
def callWorkload (b : Behaviour ν) (job : Job) : Program (Child ν) Unit := do
  let c ← get
  let called : Call := ⟨b.env c.clock, job, contents N (writesOf c.acts)⟩
  modify fun c =>
    { acts := c.acts ++ (called.writes N).map .wrote, clock := c.clock + 1 }
  match (called.run N).1 with
  | .ok _ => pure ()
  | .error h => halt h

/-- `write_text` of the fragment. -/
def writeFragment (b : Behaviour ν) (engine : Str) : Program (Child ν) Unit := do
  let c ← get
  let f : Fragment ν := ⟨engine, b.version, b.coldStart⟩
  match b.outcome c.clock with
  | none => act (.fragment f (f.text N).length)
  | some h => do
    act (.fragment f b.landed)
    halt h

/-- `cmd_run` with `--out-dir`, for the one engine it is given. -/
def child (plan : Plan) (engine : Str) (b : Behaviour ν) : Program (Child ν) Unit := do
  -- the arguments, the host facts, the pre-flight
  call b
  let imported ← contained (call b)
  if imported then do
    let started ← contained (do
      call b
      act .started)
    if started then do
      -- `version_info`
      call b
      act .opened
      forEach (fun _ => call b) (plan.catalogSteps engine)
      forEach (fun job => do
        let _ ← contained (callWorkload N b job)) (plan.jobs engine)
      -- `engine.stop`
      let _ ← contained (call b)
      writeFragment N b engine
    else pure ()
  else pure ()

def exitOf (plan : Plan) (engine : Str) (b : Behaviour ν) : Except Halt Unit :=
  (child N plan engine b {}).1

/-- What a child has done when it is gone. -/
def actsOf (plan : Plan) (engine : Str) (b : Behaviour ν) : List (Act ν) :=
  if b.launches then (child N plan engine b {}).2.acts else []

/-! ## How a child goes -/

/-- The acts of a child that has made these calls. -/
def during (calls : List Call) : List (Act ν) :=
  [.started, .opened] ++ (calls.flatMap (Call.writes N)).map .wrote

/-- Every call finds what the calls before it have written. -/
def Chained (calls : List Call) : Prop :=
  ∀ done call, done ++ [call] <+: calls →
    call.before = contents N (done.flatMap (Call.writes N))

/-- The calls of `run_workload` for these jobs, from a tick of the child's clock on. -/
def callsFrom (b : Behaviour ν) : Nat → List Write → List Job → List Call
  | _, _, [] => []
  | clock, earlier, job :: jobs =>
    let call : Call := ⟨b.env clock, job, contents N earlier⟩
    call :: callsFrom b (clock + 1) (earlier ++ call.writes N) jobs

section Ticks

variable (plan : Plan) (engine : Str) (b : Behaviour ν)

/-- The first tick behind the catalog: the calls of `run_workload` begin. -/
def Plan.upTick : Nat := 4 + (plan.catalogSteps engine).length

/-- The tick of the fragment, behind that of `engine.stop`. -/
def Plan.writeTick : Nat := plan.upTick engine + (plan.jobs engine).length + 1

def callsOf (jobs : List Job) : List Call := callsFrom N b (plan.upTick engine) [] jobs

/-- The child gets as far as writing its fragment. -/
structure Reaches : Prop where
  /-- It comes up, tells its version and gets through its catalog. -/
  up : ∀ tick < plan.upTick engine, b.outcome tick = none
  /-- No call of `run_workload` is killed; one that raises is contained. -/
  called : ∀ call ∈ callsOf N plan engine b (plan.jobs engine), (call.run N).1 ≠ .error .killed
  /-- Neither is `engine.stop`. -/
  stopped : b.outcome (plan.upTick engine + (plan.jobs engine).length) ≠ some .killed

/-- The child gets behind `version_info` and opens its record file. -/
def Opens : Prop := ∀ tick < 4, b.outcome tick = none

def fragmentOf (engine : Str) (b : Behaviour ν) : Fragment ν := ⟨engine, b.version, b.coldStart⟩

/-- A child is gone before it opened its file, in its catalog, in a call of
`run_workload` or in `engine.stop`, or in the middle of its fragment, or it came
to its end. -/
inductive Course : Except Halt Unit → List (Act ν) → Prop
  | early (exit : Except Halt Unit) (acts : List (Act ν))
      (unopened : acts = [] ∨ acts = [.started]) (down : ¬ Opens b) : Course exit acts
  | catalog (h : Halt) (up : Opens b) (tick : Nat) (behind : 4 ≤ tick)
      (within : tick < plan.upTick engine) (stopped : b.outcome tick = some h) :
      Course (.error h) (during N [])
  | killed (done : List Job) (job : Job) (first : done ++ [job] <+: plan.jobs engine)
      (up : ∀ tick < plan.upTick engine, b.outcome tick = none) (call : Call)
      (last : (callsOf N plan engine b (done ++ [job])).getLast? = some call)
      (stopped : (call.run N).1 = .error .killed) :
      Course (.error .killed) (during N (callsOf N plan engine b (done ++ [job])))
  | stopping (up : ∀ tick < plan.upTick engine, b.outcome tick = none)
      (stopped : b.outcome (plan.upTick engine + (plan.jobs engine).length) = some .killed) :
      Course (.error .killed) (during N (callsOf N plan engine b (plan.jobs engine)))
  | torn (h : Halt) (reaches : Reaches N plan engine b)
      (stopped : b.outcome (plan.writeTick engine) = some h) :
      Course (.error h) (during N (callsOf N plan engine b (plan.jobs engine)) ++
        [.fragment (fragmentOf engine b) b.landed])
  | ended (reaches : Reaches N plan engine b) (through : b.outcome (plan.writeTick engine) = none) :
      Course (.ok ()) (during N (callsOf N plan engine b (plan.jobs engine)) ++
        [.fragment (fragmentOf engine b) ((fragmentOf engine b).text N).length])

end Ticks

variable {N} {plan : Plan} {engine : Str} {b : Behaviour ν}

theorem writesOf_during (calls : List Call) :
    writesOf (during N calls : List (Act ν)) = calls.flatMap (Call.writes N) := by
  have all : ∀ writes : List Write, writesOf (writes.map (Act.wrote (ν := ν))) = writes := by
    intro writes
    rw [writesOf, List.filterMap_map]
    exact List.filterMap_some
  rw [during, writesOf, List.filterMap_append]
  exact all _

theorem opens_of_up (h : ∀ tick < plan.upTick engine, b.outcome tick = none) : Opens b :=
  fun tick htick => h tick (Nat.lt_add_right _ htick)

/-! ### The calls of `run_workload` -/

theorem callsFrom_append (clock : Nat) (earlier : List Write) (done rest : List Job) :
    callsFrom N b clock earlier (done ++ rest) = callsFrom N b clock earlier done ++
      callsFrom N b (clock + done.length)
        (earlier ++ (callsFrom N b clock earlier done).flatMap (Call.writes N)) rest := by
  induction done generalizing clock earlier with
  | nil => simp [callsFrom]
  | cons job jobs ih =>
    simp only [List.cons_append, callsFrom, ih, List.flatMap_cons, List.length_cons]
    rw [← List.append_assoc, Nat.add_assoc, Nat.add_comm 1]

theorem callsOf_snoc (done : List Job) (job : Job) :
    callsOf N plan engine b (done ++ [job]) = callsOf N plan engine b done ++
      [⟨b.env (plan.upTick engine + done.length), job,
        contents N ((callsOf N plan engine b done).flatMap (Call.writes N))⟩] := by
  rw [callsOf, callsFrom_append, List.nil_append]
  rfl

theorem callsOf_mono {done jobs : List Job} (h : done <+: jobs) :
    callsOf N plan engine b done <+: callsOf N plan engine b jobs := by
  obtain ⟨rest, rfl⟩ := h
  rw [callsOf, callsOf, callsFrom_append]
  exact List.prefix_append _ _

theorem chained_callsOf (jobs : List Job) : Chained N (callsOf N plan engine b jobs) := by
  induction jobs using List.reverseRecOn with
  | nil => exact fun done call h => by simp [callsOf, callsFrom] at h
  | append_singleton earlier job ih =>
    intro done call h
    rw [callsOf_snoc] at h
    rcases List.prefix_concat_iff.mp h with h | h
    · obtain ⟨rfl, e⟩ := List.append_inj' h rfl
      rw [List.singleton_inj.mp e]
    · exact ih done call h

/-- What a call leaves in the file is what it found and what it wrote. -/
theorem Call.file (c : Call) : (c.run N).2.file = c.before ++ contents N (c.writes N) :=
  file_written N { c.env with dumps := recordText N } rfl c.job c.before

/-- `run_workload` leaves all that was written so far. -/
theorem Chained.file {calls done : List Call} {call : Call} (chained : Chained N calls)
    (h : done ++ [call] <+: calls) :
    (call.run N).2.file = contents N ((done ++ [call]).flatMap (Call.writes N)) := by
  rw [call.file, chained done call h]
  simp [contents_append]

/-! ### One step -/

/-- A call takes one tick. -/
theorem call_spec (acts : List (Act ν)) (clock : Nat) :
    Triple (· = ⟨acts, clock⟩) (call b)
      (fun _ c => c = ⟨acts, clock + 1⟩ ∧ b.outcome clock = none)
      (fun h c => c = ⟨acts, clock + 1⟩ ∧ b.outcome clock = some h) := by
  refine Triple.read fun c hc => ?_
  subst hc
  refine Triple.bind (Triple.modify (Q := fun _ c => c = ⟨acts, clock + 1⟩) ?_) fun _ => ?_
  · intro s hs
    rw [hs]
  cases houtcome : b.outcome clock with
  | none => exact Triple.pure fun c hc => ⟨hc, rfl⟩
  | some h => exact Triple.halt fun c hc => ⟨hc, rfl⟩

/-- The child is coming up: all went well until now. -/
def At (b : Behaviour ν) (acts : List (Act ν)) (clock : Nat) (c : Child ν) : Prop :=
  c = ⟨acts, clock⟩ ∧ ∀ tick < clock, b.outcome tick = none

/-- The child was stopped at this tick. -/
def Gone (b : Behaviour ν) (acts : List (Act ν)) (clock : Nat) (h : Halt) (c : Child ν) : Prop :=
  c.acts = acts ∧ b.outcome clock = some h ∧ ∀ tick < clock, b.outcome tick = none

theorem call_up {acts : List (Act ν)} {clock : Nat} :
    Triple (At b acts clock) (call b) (fun _ => At b acts (clock + 1)) (Gone b acts clock) := by
  refine Triple.of_states fun c hc => ?_
  obtain ⟨rfl, before⟩ := hc
  refine (call_spec acts clock).weaken (fun _ h => h) ?_ ?_
  · intro _ c hc
    refine ⟨hc.1, fun tick htick => ?_⟩
    rcases Nat.lt_succ_iff_lt_or_eq.mp htick with htick | rfl
    · exact before tick htick
    · exact hc.2
  · rintro h c ⟨rfl, stopped⟩
    exact ⟨rfl, stopped, before⟩

theorem contained_up {p : Program (Child ν) Unit} {acts acts' : List (Act ν)} {clock : Nat}
    (h : Triple (At b acts clock) p (fun _ => At b acts' (clock + 1)) (Gone b acts clock)) :
    Triple (At b acts clock) (contained p)
      (fun up c => if up then At b acts' (clock + 1) c else Gone b acts clock .raised c)
      (Gone b acts clock) := by
  refine Triple.contained (h.weaken (fun _ h => h) (fun _ _ h => by simpa using h) ?_)
  intro h c gone
  cases h with
  | raised => simpa using gone
  | killed => exact gone

/-- These jobs are behind the child. -/
structure Called (N : Numbers number) (plan : Plan) (engine : Str) (b : Behaviour ν) (done : List Job)
    (c : Child ν) : Prop where
  acts : c.acts = during N (callsOf N plan engine b done)
  clock : c.clock = plan.upTick engine + done.length
  up : ∀ tick < plan.upTick engine, b.outcome tick = none
  alive : ∀ call ∈ callsOf N plan engine b done, (call.run N).1 ≠ .error .killed

theorem callWorkload_spec {done : List Job} {job : Job} (next : done ++ [job] <+: plan.jobs engine) :
    Triple (Called N plan engine b done) (contained (callWorkload N b job))
      (fun _ => Called N plan engine b (done ++ [job]))
      (fun h c => Course N plan engine b (.error h) c.acts) := by
  refine Triple.contained (Triple.read fun c hc => ?_)
  let called : Call := ⟨b.env c.clock, job, contents N (writesOf c.acts)⟩
  have grown : callsOf N plan engine b (done ++ [job]) = callsOf N plan engine b done ++ [called] := by
    rw [callsOf_snoc, ← hc.clock, ← writesOf_during (ν := ν), ← hc.acts]
  have acts : c.acts ++ (called.writes N).map .wrote =
      during N (callsOf N plan engine b (done ++ [job])) := by
    rw [grown, hc.acts]
    simp [during]
  have clock : c.clock + 1 = plan.upTick engine + (done ++ [job]).length := by
    rw [hc.clock, List.length_append, List.length_singleton, Nat.add_assoc]
  refine Triple.bind (Triple.modify (Q := fun _ s => s = ⟨during N (callsOf N plan engine b
    (done ++ [job])), plan.upTick engine + (done ++ [job]).length⟩) ?_) fun _ => ?_
  · intro s hs
    rw [hs, ← acts, ← clock]
  have through : (called.run N).1 ≠ .error .killed → ∀ s : Child ν,
      s = ⟨during N (callsOf N plan engine b (done ++ [job])),
        plan.upTick engine + (done ++ [job]).length⟩ → Called N plan engine b (done ++ [job]) s := by
    intro alive s hs
    refine ⟨by rw [hs], by rw [hs], hc.up, fun call hcall => ?_⟩
    rw [grown] at hcall
    rcases List.mem_append.mp hcall with hcall | hcall
    · exact hc.alive call hcall
    · exact List.mem_singleton.mp hcall ▸ alive
  cases hexit : (called.run N).1 with
  | ok records => exact Triple.pure fun s hs => through (by simp [hexit]) s hs
  | error h =>
    refine Triple.halt fun s hs => ?_
    cases h with
    | raised => exact through (by simp [hexit]) s hs
    | killed =>
      rw [hs]
      exact .killed done job next hc.up called (by rw [grown, List.getLast?_concat]) hexit

/-- The child stands right before its fragment. -/
def Writing (N : Numbers number) (plan : Plan) (engine : Str) (b : Behaviour ν) (c : Child ν) : Prop :=
  c = ⟨during N (callsOf N plan engine b (plan.jobs engine)), plan.writeTick engine⟩ ∧
    Reaches N plan engine b

theorem stop_spec :
    Triple (Called N plan engine b (plan.jobs engine)) (contained (call b))
      (fun _ => Writing N plan engine b) (fun h c => Course N plan engine b (.error h) c.acts) := by
  refine Triple.of_states fun c hc => Triple.contained ?_
  have here : c = ⟨during N (callsOf N plan engine b (plan.jobs engine)),
      plan.upTick engine + (plan.jobs engine).length⟩ := by
    rw [← hc.acts, ← hc.clock]
  rw [here]
  refine (call_spec _ _).weaken (fun _ h => h) ?_ ?_
  · intro _ s hs
    exact ⟨hs.1, hc.up, hc.alive, by simp [hs.2]⟩
  · intro h s hs
    obtain ⟨rfl, outcome⟩ := hs
    cases h with
    | raised => exact ⟨rfl, hc.up, hc.alive, by simp [outcome]⟩
    | killed => exact .stopping hc.up outcome

theorem writeFragment_spec :
    Triple (Writing N plan engine b) (writeFragment N b engine)
      (fun _ c => Course N plan engine b (.ok ()) c.acts)
      (fun h c => Course N plan engine b (.error h) c.acts) := by
  refine Triple.read fun c hc => ?_
  obtain ⟨rfl, reaches⟩ := hc
  cases outcome : b.outcome (plan.writeTick engine) with
  | none =>
    refine Triple.modify fun s hs => ?_
    subst hs
    exact .ended reaches outcome
  | some h =>
    refine Triple.bind (Triple.modify (Q := fun _ c =>
      Course N plan engine b (.error h) c.acts) ?_) fun _ => Triple.halt fun _ h => h
    intro s hs
    subst hs
    exact .torn h reaches outcome

/-! ### The whole child -/

theorem catalog_spec :
    Triple (At b [.started, .opened] 4) (forEach (fun _ => call b) (plan.catalogSteps engine))
      (fun _ => At b [.started, .opened] (plan.upTick engine))
      (fun h c => Course N plan engine b (.error h) c.acts) := by
  refine Triple.forEach (fun done => At b [.started, .opened] (4 + done.length))
    (plan.catalogSteps engine) fun done step next => ?_
  have here : 4 + done.length < plan.upTick engine := by
    have long := next.length_le
    rw [List.length_append, List.length_singleton] at long
    exact Nat.add_lt_add_left long 4
  refine call_up.weaken (fun _ h => h) (fun _ c h => ?_) fun h c gone => ?_
  · simpa [Nat.add_assoc] using h
  · obtain ⟨hacts, stopped, before⟩ := gone
    rw [hacts]
    exact .catalog h (fun tick htick => before tick (Nat.lt_add_right _ htick)) _
      (Nat.le_add_right _ _) here stopped

theorem workloads_spec :
    Triple (At b [.started, .opened] (plan.upTick engine))
      (forEach (fun job => do
        let _ ← contained (callWorkload N b job)) (plan.jobs engine))
      (fun _ => Called N plan engine b (plan.jobs engine))
      (fun h c => Course N plan engine b (.error h) c.acts) := by
  refine Triple.weaken (P := Called N plan engine b []) ?_ (fun c hc => ?_) (fun _ _ h => h)
    fun _ _ h => h
  · exact Triple.forEach (Called N plan engine b) (plan.jobs engine) fun done job next =>
      Triple.bind (callWorkload_spec next) fun _ => Triple.pure fun _ h => h
  · exact ⟨by rw [hc.1]; rfl, by rw [hc.1]; rfl, hc.2, nofun⟩

theorem Gone.course {exit : Except Halt Unit} {acts : List (Act ν)} {clock : Nat} {h : Halt}
    {c : Child ν} (gone : Gone b acts clock h c) (first : clock < 4)
    (unopened : acts = [] ∨ acts = [.started]) : Course N plan engine b exit c.acts := by
  refine .early _ _ (gone.1 ▸ unopened) fun up => ?_
  cases (up clock first).symm.trans gone.2.1

theorem child_spec (plan : Plan) (engine : Str) (b : Behaviour ν) :
    Triple (· = {}) (child N plan engine b)
      (fun _ c => Course N plan engine b (.ok ()) c.acts)
      (fun h c => Course N plan engine b (.error h) c.acts) := by
  have begun : Triple (At b [] 0) (call b) (fun _ => At b [] 1) (Gone b [] 0) := call_up
  refine Triple.bind (begun.weaken (fun _ h => ⟨h, nofun⟩) (fun _ _ h => h)
    fun _ _ gone => gone.course (by omega) (.inl rfl)) fun _ => ?_
  have importing : Triple (At b [] 1) (contained (call b)) _ (Gone b [] 1) := contained_up call_up
  refine Triple.bind (importing.weaken (fun _ h => h) (fun _ _ h => h)
    fun _ _ gone => gone.course (by omega) (.inl rfl)) fun imported =>
      Triple.ite (fun up => ?_) fun down => ?_
  · have starting : Triple (At b [] 2) (do call b; act .started) (fun _ => At b [.started] 3)
        (Gone b [] 2) := by
      refine Triple.bind call_up fun _ => Triple.modify fun c hc => ?_
      exact ⟨by rw [hc.1]; rfl, hc.2⟩
    refine Triple.bind ((contained_up starting).weaken (fun _ h => by simpa [up] using h) (fun _ _ h => h)
      fun _ _ gone => gone.course (by omega) (.inl rfl)) fun started =>
        Triple.ite (fun up => ?_) fun down => ?_
    · have version : Triple (At b [.started] 3) (call b) (fun _ => At b [.started] 4)
          (Gone b [.started] 3) := call_up
      refine Triple.bind (version.weaken (fun _ h => by simpa [up] using h) (fun _ _ h => h)
        fun _ _ gone => gone.course (by omega) (.inr rfl)) fun _ => ?_
      have opening : Triple (At b [.started] 4) (act .opened) (fun _ => At b [.started, .opened] 4)
          (fun h c => Course N plan engine b (.error h) c.acts) :=
        Triple.modify fun c hc => ⟨by rw [hc.1]; rfl, hc.2⟩
      refine Triple.bind opening fun _ => Triple.bind catalog_spec fun _ => ?_
      refine Triple.bind workloads_spec fun _ => ?_
      exact Triple.bind stop_spec fun _ => writeFragment_spec
    · refine Triple.pure fun c hc => ?_
      have gone : Gone b [] 2 .raised c := by simpa [down] using hc
      exact gone.course (by omega) (.inl rfl)
  · refine Triple.pure fun c hc => ?_
    have gone : Gone b [] 1 .raised c := by simpa [down] using hc
    exact gone.course (by omega) (.inl rfl)

/-- How the child for an engine went. -/
theorem child_course (plan : Plan) (engine : Str) (b : Behaviour ν) :
    Course N plan engine b (exitOf N plan engine b) (child N plan engine b {}).2.acts := by
  have spec := child_spec (N := N) plan engine b {} rfl
  unfold exitOf
  cases hrun : child N plan engine b {} with
  | mk exit c =>
    rw [hrun] at spec
    cases exit with
    | ok _ => exact spec
    | error h => exact spec

end DeltaForgeBench.Runner.Children
