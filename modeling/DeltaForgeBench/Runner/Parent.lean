import DeltaForgeBench.Runner.Children

/-! # What the children leave and the manifest has

The parent goes through its engines, whatever becomes of each child, and then
merges the fragments it can read. An engine's files are the doing of its own
children; its version and cold start are in the manifest when a child got to
write them. -/
namespace DeltaForgeBench.Runner.Parent
open DeltaForgeBench.Base.Text DeltaForgeBench.Base.Interrupt DeltaForgeBench.Base.Dict
open DeltaForgeBench.Base.JsonText DeltaForgeBench.Base.JsonPretty
open DeltaForgeBench.Base.JsonCompact DeltaForgeBench.Base.TextFiles
open DeltaForgeBench.Engines.Base DeltaForgeBench.Workloads.Spec
open DeltaForgeBench.Runner.RunWorkload DeltaForgeBench.Runner.PartialFiles
open DeltaForgeBench.Runner.Children

variable {ν : Type} {number : Str → ν} (N : Numbers number)

/-! ## The parent -/

/-- The two files of an engine under `raw`. -/
structure Slot where
  jsonl : Option Str := none
  fragment : Option Str := none

def Slot.apply (s : Slot) : Act ν → Slot
  | .started => s
  | .opened => { s with jsonl := some [] }
  | .wrote w => { s with jsonl := some (s.jsonl.getD [] ++ w.text N) }
  | .fragment f landed => { s with fragment := some ((f.text N).take landed) }

/-- `raw`, and for every engine that was started whether it returned zero. -/
structure Loop where
  raw : Str → Slot := fun _ => {}
  exits : List (Str × Bool) := []

def launch (plan : Plan) (p : Loop) (engine : Str) (b : Behaviour ν) : Loop where
  raw := Function.update p.raw engine ((actsOf N plan engine b).foldl (Slot.apply N) (p.raw engine))
  exits := p.exits ++ [(engine, b.launches && (exitOf N plan engine b).isOk)]

/-- The parent's loop, from the fresh directory it has made. -/
def loop (plan : Plan) (children : List (Str × Behaviour ν)) : Loop :=
  children.foldl (fun p c => launch N plan p c.1 c.2) {}

/-- The two dicts of `manifest.json` that the fragments go to. -/
structure Manifest (ν : Type) where
  engineVersions : List (Points × Json ν) := []
  coldStarts : List (Points × Json ν) := []

def isNull : Json ν → Bool
  | .null => true
  | _ => false

/-- `d.update({k: v for k, v in members.items() if v is not None})`. -/
def update (d members : List (Points × Json ν)) : List (Points × Json ν) :=
  (members.filter fun m => !isNull m.2).foldl (fun d m => set d m.1 m.2) d

/-- `frag.get(name, {}).items()`; `none` when that is no dict. -/
def itemsOf (frag : List (Points × Json ν)) (name : String) : Option (List (Points × Json ν)) :=
  match field frag name with
  | none => some []
  | some (.obj members) => some members
  | some _ => none

/-- One turn of the merge; `none` when it raises. -/
def merge (number : Str → ν) (raw : Str → Slot) (m : Manifest ν) (engine : Str) :
    Option (Manifest ν) :=
  match (raw engine).fragment with
  | none => some m
  | some text =>
    match loads number text with
    | none => some m
    | some (.obj frag) => do
      let versions ← itemsOf frag "engine_versions"
      let colds ← itemsOf frag "cold_starts"
      return { engineVersions := update m.engineVersions versions, coldStarts := update m.coldStarts colds }
    | some _ => none

/-- The manifest the parent writes; `none` when it does not get there. -/
def manifest (plan : Plan) (children : List (Str × Behaviour ν)) : Option (Manifest ν) :=
  (children.map Prod.fst).foldlM (merge number (loop N plan children).raw) {}

/-! ## The files of an engine -/

variable {N}

def Act.isStarted : Act ν → Bool
  | .started => true
  | _ => false

def Act.isOpened : Act ν → Bool
  | .opened => true
  | _ => false

/-- The children of an engine in the order they came. -/
def childrenOf (children : List (Str × Behaviour ν)) (engine : Str) : List (Behaviour ν) :=
  (children.filter fun c => c.1 = engine).map Prod.snd

/-- The last child of an engine that emptied its record file. -/
def lastOpened (N : Numbers number) (plan : Plan) (children : List (Str × Behaviour ν))
    (engine : Str) : Option (Behaviour ν) :=
  ((childrenOf children engine).filter fun b => (actsOf N plan engine b).any Act.isOpened).getLast?

/-- The last fragment that a child of an engine began, with what landed of it. -/
def lastFragment (N : Numbers number) (plan : Plan) (children : List (Str × Behaviour ν))
    (engine : Str) : Option (Fragment ν × Nat) :=
  (((childrenOf children engine).flatMap (actsOf N plan engine)).filterMap Act.fragment?).getLast?

/-- That fragment, when its document landed whole. -/
def wholeFragment (N : Numbers number) (plan : Plan) (children : List (Str × Behaviour ν))
    (engine : Str) : Option (Fragment ν) :=
  (lastFragment N plan children engine).bind fun last =>
    if (last.1.dumped N).length ≤ last.2 then some last.1 else none

variable {plan : Plan} {children : List (Str × Behaviour ν)} {engine : Str} {b : Behaviour ν}

/-- How many characters of its fragment land, when the child gets to it. -/
def landedOf (N : Numbers number) (plan : Plan) (engine : Str) (b : Behaviour ν) : Nat :=
  match b.outcome (plan.writeTick engine) with
  | none => ((fragmentOf engine b).text N).length
  | some _ => b.landed

/-- The child comes up at all and gets to its fragment. -/
def Begins (N : Numbers number) (plan : Plan) (engine : Str) (b : Behaviour ν) : Prop :=
  b.launches = true ∧ Reaches N plan engine b

/-- Something stops the child before it has called `run_workload` for all its
workloads: in its catalog, or in the last of these calls. -/
def Stopped (N : Numbers number) (plan : Plan) (engine : Str) (b : Behaviour ν) (done : List Job) :
    Prop :=
  (done = [] ∧ ∃ tick, 4 ≤ tick ∧ tick < plan.upTick engine ∧ (b.outcome tick).isSome = true) ∨
    ∃ call, (callsOf N plan engine b done).getLast? = some call ∧ (call.run N).1 = .error .killed

/-- A child that opens its file calls `run_workload` for its first workloads, and
begins its fragment behind them all when it gets to that. -/
structure Filled (N : Numbers number) (plan : Plan) (engine : Str) (b : Behaviour ν)
    (done : List Job) (tail : List (Act ν)) : Prop where
  acts : actsOf N plan engine b = during N (callsOf N plan engine b done) ++ tail
  opens : b.launches = true ∧ Opens b
  first : done <+: plan.jobs engine
  all : (exitOf N plan engine b).isOk → done = plan.jobs engine
  stopped : done = plan.jobs engine ∨ Stopped N plan engine b done
  fragment : tail = [] ∧ ¬ Begins N plan engine b ∨
    tail = [.fragment (fragmentOf engine b) (landedOf N plan engine b)] ∧ Begins N plan engine b

/-- A child that has done nothing to its files. -/
structure Idle (N : Numbers number) (plan : Plan) (engine : Str) (b : Behaviour ν) : Prop where
  waiting : ∀ a ∈ actsOf N plan engine b, a = .started
  down : ¬ (b.launches = true ∧ Opens b)
  gone : ¬ Begins N plan engine b

theorem actsOf_cases (plan : Plan) (engine : Str) (b : Behaviour ν) :
    Idle N plan engine b ∨ ∃ done tail, Filled N plan engine b done tail := by
  cases hup : b.launches with
  | false =>
    have nothing : actsOf N plan engine b = [] := by simp [actsOf, hup]
    exact .inl ⟨by simp [nothing], by simp [hup],
      fun begins => Bool.noConfusion (hup.symm.trans begins.1)⟩
  | true =>
    have acts : actsOf N plan engine b = (child N plan engine b {}).2.acts := by simp [actsOf, hup]
    have course := child_course (N := N) plan engine b
    rw [← acts] at course
    generalize hexit : exitOf N plan engine b = exit at course
    generalize hacts : actsOf N plan engine b = acts at course
    have failed : ∀ h : Halt, exit = .error h → (exitOf N plan engine b).isOk = true →
        ∀ done : List Job, done = plan.jobs engine := by
      rintro h rfl hok
      simp [hexit, Except.isOk, Except.toBool] at hok
    cases course with
    | early exit acts unopened down =>
      refine .inl ⟨?_, fun opens => down opens.2, fun begins => down (opens_of_up begins.2.up)⟩
      rw [hacts]
      rcases unopened with rfl | rfl <;> simp
    | catalog h up tick behind within stopped =>
      refine .inr ⟨[], [], by simp [hacts, callsOf, callsFrom], ⟨hup, up⟩, List.nil_prefix,
        fun hok => failed h rfl hok [], .inr (.inl ⟨rfl, tick, behind, within, by simp [stopped]⟩),
        .inl ⟨rfl, fun begins => ?_⟩⟩
      cases (begins.2.up tick within).symm.trans stopped
    | killed done job first up call last stopped =>
      refine .inr ⟨_, [], by simp [hacts], ⟨hup, opens_of_up up⟩, first,
        fun hok => failed .killed rfl hok _, .inr (.inr ⟨call, last, stopped⟩),
        .inl ⟨rfl, fun begins => begins.2.called call ?_ stopped⟩⟩
      exact (callsOf_mono first).subset (List.mem_of_getLast? last)
    | stopping up stopped =>
      exact .inr ⟨_, [], by simp [hacts], ⟨hup, opens_of_up up⟩, List.prefix_rfl, fun _ => rfl,
        .inl rfl, .inl ⟨rfl, fun begins => begins.2.stopped stopped⟩⟩
    | torn h reaches stopped =>
      refine .inr ⟨_, _, hacts, ⟨hup, opens_of_up reaches.up⟩, List.prefix_rfl, fun _ => rfl, .inl rfl,
        .inr ⟨?_, hup, reaches⟩⟩
      rw [landedOf, stopped]
    | ended reaches through =>
      refine .inr ⟨_, _, hacts, ⟨hup, opens_of_up reaches.up⟩, List.prefix_rfl, fun _ => rfl, .inl rfl,
        .inr ⟨?_, hup, reaches⟩⟩
      rw [landedOf, through]

/-- Where nothing stops a child it returns zero. -/
theorem exit_of_reaches (reaches : Reaches N plan engine b)
    (through : b.outcome (plan.writeTick engine) = none) : (exitOf N plan engine b).isOk = true := by
  have course := child_course (N := N) plan engine b
  generalize exitOf N plan engine b = exit at course ⊢
  generalize (child N plan engine b {}).2.acts = acts at course
  cases course with
  | early exit acts unopened down => exact absurd (opens_of_up reaches.up) down
  | catalog h up tick behind within stopped => cases (reaches.up tick within).symm.trans stopped
  | killed done job first up call last stopped =>
    exact absurd stopped (reaches.called call ((callsOf_mono first).subset (List.mem_of_getLast? last)))
  | stopping up stopped => exact absurd stopped reaches.stopped
  | torn h _ stopped => cases through.symm.trans stopped
  | ended => rfl

theorem Idle.opened (h : Idle N plan engine b) :
    (actsOf N plan engine b).any Act.isOpened = false := by
  refine List.any_eq_false.mpr fun a ha => ?_
  rw [h.waiting a ha]
  simp [Act.isOpened]

theorem Filled.opened {done : List Job} {tail : List (Act ν)} (h : Filled N plan engine b done tail) :
    (actsOf N plan engine b).any Act.isOpened = true := by
  rw [h.acts]
  rfl

/-- A child opens its file when it is launched and gets behind `version_info`. -/
theorem opened_iff : (actsOf N plan engine b).any Act.isOpened = true ↔
    b.launches = true ∧ Opens b := by
  rcases actsOf_cases (N := N) plan engine b with idle | ⟨done, tail, filled⟩
  · exact iff_of_false (by simp [idle.opened]) idle.down
  · exact iff_of_true filled.opened filled.opens

theorem loop_raw (plan : Plan) (children : List (Str × Behaviour ν)) (engine : Str) :
    (loop N plan children).raw engine =
      (childrenOf children engine).foldl
        (fun s b => (actsOf N plan engine b).foldl (Slot.apply N) s) {} := by
  suffices H : ∀ p : Loop, (children.foldl (fun p c => launch N plan p c.1 c.2) p).raw engine =
      (childrenOf children engine).foldl
        (fun s b => (actsOf N plan engine b).foldl (Slot.apply N) s) (p.raw engine) from H {}
  induction children with
  | nil => exact fun _ => rfl
  | cons c rest ih =>
    intro p
    rw [List.foldl_cons, ih]
    by_cases hc : c.1 = engine
    · simp [childrenOf, launch, hc]
    · simp [childrenOf, launch, hc, Function.update_of_ne (Ne.symm hc)]

/-- Every engine of the list is started, whatever became of those before it. -/
theorem loop_exits (plan : Plan) (children : List (Str × Behaviour ν)) :
    (loop N plan children).exits =
      children.map fun c => (c.1, c.2.launches && (exitOf N plan c.1 c.2).isOk) := by
  suffices H : ∀ p : Loop, (children.foldl (fun p c => launch N plan p c.1 c.2) p).exits =
      p.exits ++ children.map fun c => (c.1, c.2.launches && (exitOf N plan c.1 c.2).isOk) from H {}
  induction children with
  | nil => exact fun p => (List.append_nil p.exits).symm
  | cons c rest ih =>
    intro p
    rw [List.foldl_cons, ih]
    simp [launch]

/-! ### The record file -/

theorem apply_wrote (writes : List Write) (s : Slot) (t : Str) (h : s.jsonl = some t) :
    ((writes.map (Act.wrote (ν := ν))).foldl (Slot.apply N) s).jsonl =
      some (t ++ contents N writes) := by
  induction writes generalizing s t with
  | nil => simpa [contents] using h
  | cons w rest ih =>
    rw [List.map_cons, List.foldl_cons, ih _ (t ++ w.text N) (by simp [Slot.apply, h])]
    simp [contents]

theorem apply_during (calls : List Call) (s : Slot) :
    ((during N calls : List (Act ν)).foldl (Slot.apply N) s).jsonl =
      some (contents N (calls.flatMap (Call.writes N))) := by
  rw [during, List.foldl_append]
  exact apply_wrote _ _ [] rfl

theorem Filled.tail {done : List Job} {tail : List (Act ν)} (h : Filled N plan engine b done tail) :
    tail = [] ∨ ∃ f landed, tail = [.fragment f landed] :=
  h.fragment.imp (fun h => h.1) fun h => ⟨_, _, h.1⟩

theorem Filled.writes {done : List Job} {tail : List (Act ν)} (h : Filled N plan engine b done tail) :
    writesOf (actsOf N plan engine b) = (callsOf N plan engine b done).flatMap (Call.writes N) := by
  have none_behind : writesOf tail = [] := by
    rcases h.tail with rfl | ⟨f, landed, rfl⟩ <;> rfl
  rw [h.acts, ← writesOf_during (ν := ν), writesOf, List.filterMap_append]
  show _ ++ writesOf tail = _
  rw [none_behind, List.append_nil]
  rfl

/-- A child that opens its file leaves what it writes there; any other leaves
the file alone. -/
theorem apply_jsonl (b : Behaviour ν) (s : Slot) :
    ((actsOf N plan engine b).foldl (Slot.apply N) s).jsonl =
      (if (actsOf N plan engine b).any Act.isOpened then
        some (contents N (writesOf (actsOf N plan engine b))) else none).or s.jsonl := by
  rcases actsOf_cases (N := N) plan engine b with idle | ⟨done, tail, filled⟩
  · have still : ∀ (acts : List (Act ν)), (∀ a ∈ acts, a = .started) →
        acts.foldl (Slot.apply N) s = s := by
      intro acts hacts
      induction acts with
      | nil => rfl
      | cons a rest ih =>
        obtain ⟨ha, hrest⟩ := List.forall_mem_cons.mp hacts
        rw [List.foldl_cons, ha]
        exact ih hrest
    rw [still _ idle.waiting, idle.opened]
    rfl
  · rw [filled.opened, filled.writes, if_pos rfl, Option.some_or, filled.acts,
      ← apply_during (callsOf N plan engine b done) s]
    rcases filled.tail with rfl | ⟨f, landed, rfl⟩
    · rw [List.append_nil]
    · rw [List.foldl_append]
      rfl

/-- The record file is that of the last child to open it. -/
theorem loop_jsonl (plan : Plan) (children : List (Str × Behaviour ν)) (engine : Str) :
    ((loop N plan children).raw engine).jsonl =
      (lastOpened N plan children engine).map fun b =>
        contents N (writesOf (actsOf N plan engine b)) := by
  rw [loop_raw, foldl_last_write fun s b => apply_jsonl b s, lastOpened, ← List.getLast?_map,
    Option.or_none, ← List.filterMap_eq_map, List.filterMap_filter]
  refine congrArg List.getLast? (List.filterMap_congr fun b _ => ?_)
  split <;> rfl

/-! ### The fragment -/

theorem loop_fragment (plan : Plan) (children : List (Str × Behaviour ν)) (engine : Str) :
    ((loop N plan children).raw engine).fragment =
      (lastFragment N plan children engine).map fun last => (last.1.text N).take last.2 := by
  have one : ∀ (s : Slot) (a : Act ν), (s.apply N a).fragment =
      ((a.fragment?).map fun last => (last.1.text N).take last.2).or s.fragment := by
    intro s a
    cases a <;> rfl
  rw [loop_raw, ← List.foldl_flatMap, foldl_last_write one, lastFragment, ← List.getLast?_map,
    Option.or_none, List.map_filterMap]

theorem fragments_during (calls : List Call) :
    (during N calls : List (Act ν)).filterMap Act.fragment? = [] := by
  refine List.filterMap_eq_nil_iff.mpr fun a ha => ?_
  simp only [during, List.cons_append, List.nil_append, List.mem_cons, List.mem_map] at ha
  rcases ha with rfl | rfl | ⟨w, -, rfl⟩ <;> rfl

theorem fragments_begun (h : Begins N plan engine b) :
    (actsOf N plan engine b).filterMap Act.fragment? =
      [(fragmentOf engine b, landedOf N plan engine b)] := by
  rcases actsOf_cases (N := N) plan engine b with idle | ⟨done, tail, filled⟩
  · exact absurd h idle.gone
  · rcases filled.fragment with ⟨-, gone⟩ | ⟨rfl, -⟩
    · exact absurd h gone
    · rw [filled.acts, List.filterMap_append, fragments_during]
      rfl

theorem fragments_gone (h : ¬ Begins N plan engine b) :
    (actsOf N plan engine b).filterMap Act.fragment? = [] := by
  rcases actsOf_cases (N := N) plan engine b with idle | ⟨done, tail, filled⟩
  · refine List.filterMap_eq_nil_iff.mpr fun a ha => ?_
    rw [idle.waiting a ha]
    rfl
  · rcases filled.fragment with ⟨rfl, -⟩ | ⟨-, begins⟩
    · rw [filled.acts, List.append_nil, fragments_during]
    · exact absurd begins h

/-- No later child of the engine gets to its fragment. -/
def LastToBegin (N : Numbers number) (plan : Plan) (children : List (Str × Behaviour ν))
    (engine : Str) (b : Behaviour ν) : Prop :=
  ∃ earlier later, childrenOf children engine = earlier ++ b :: later ∧ Begins N plan engine b ∧
    ∀ b' ∈ later, ¬ Begins N plan engine b'

theorem lastFragment_iff {last : Fragment ν × Nat} :
    lastFragment N plan children engine = some last ↔
      ∃ b, LastToBegin N plan children engine b ∧
        last = (fragmentOf engine b, landedOf N plan engine b) := by
  let first (b : Behaviour ν) := ((actsOf N plan engine b).filterMap Act.fragment?).head?
  have begun : ∀ b, Begins N plan engine b →
      first b = some (fragmentOf engine b, landedOf N plan engine b) := by
    intro b h
    show ((actsOf N plan engine b).filterMap Act.fragment?).head? = _
    rw [fragments_begun h, List.head?_cons]
  have gone : ∀ b, ¬ Begins N plan engine b → first b = none := by
    intro b h
    show ((actsOf N plan engine b).filterMap Act.fragment?).head? = _
    rw [fragments_gone h, List.head?_nil]
  have one : ∀ b, (actsOf N plan engine b).filterMap Act.fragment? = (first b).toList := by
    intro b
    by_cases h : Begins N plan engine b
    · rw [fragments_begun h, begun b h, Option.toList_some]
    · rw [fragments_gone h, gone b h, Option.toList_none]
  rw [lastFragment, List.filterMap_flatMap, List.flatMap_congr fun b _ => one b,
    ← List.filterMap_eq_flatMap_toList, List.getLast?_filterMap, List.findSome?_eq_some_iff]
  constructor
  · intro h
    obtain ⟨later, b, earlier, hsplit, hb, hlater⟩ := h
    have begins : Begins N plan engine b := by
      by_contra not_begun
      cases (gone b not_begun).symm.trans hb
    refine ⟨b, ⟨earlier.reverse, later.reverse, ?_, begins, fun b' hb' begins' => ?_⟩, ?_⟩
    · rw [← List.reverse_eq_iff.mpr hsplit.symm]
      simp
    · cases (begun b' begins').symm.trans (hlater b' (List.mem_reverse.mp hb'))
    · exact Option.some.inj (hb.symm.trans (begun b begins))
  · intro h
    obtain ⟨b, ⟨earlier, later, hsplit, begins, hlater⟩, rfl⟩ := h
    refine ⟨later.reverse, b, earlier.reverse, by simp [hsplit], begun b begins, fun b' hb' => ?_⟩
    exact gone b' (hlater b' (List.mem_reverse.mp hb'))

/-! ## The merge -/

theorem points_injective : Function.Injective points :=
  List.map_injective_iff.mpr fun _ _ h => Char.toNat_inj.mp h

theorem printable_fragment (f : Fragment ν) : Printable (.obj f.members) := by
  have valid : ∀ name, ∀ n ∈ key name, n.isValidChar := fun name => points_valid _
  have one : ∀ v : Json ν, Printable v → Printable (.obj [(points f.engine, v)]) := fun v hv =>
    ⟨List.nodup_singleton _, points_valid _, hv, trivial⟩
  have cold : Printable f.coldStart.json := by
    refine ⟨?_, valid _, trivial, valid _, trivial, trivial⟩
    show [key "import_to_session_ready_ms", key "session_to_first_query_ms"].Nodup
    decide
  refine ⟨?_, valid _, one _ f.version.printable, valid _, one _ cold, trivial⟩
  show [key "engine_versions", key "cold_starts"].Nodup
  decide

/-- What the parent reads of a fragment: all of it, or nothing. -/
theorem loads_fragment (f : Fragment ν) (landed : Nat) :
    loads number ((f.text N).take landed) =
      if (f.dumped N).length ≤ landed then some (.obj f.members) else none := by
  have printable := printable_fragment f
  have whole : loads number (f.dumped N) = some (.obj f.members) := loads_compact N.printer printable
  split
  · rename_i hlen
    have behind : (f.text N).take landed = f.dumped N ∨ (f.text N).take landed = f.dumped N ++ ['\n'] := by
      rw [Fragment.text, List.take_append, List.take_of_length_le hlen]
      cases landed - (f.dumped N).length with
      | zero => exact .inl (List.append_nil _)
      | succ n => exact .inr (by rw [List.take_of_length_le (by simp)])
    rcases behind with e | e
    · rw [e, whole]
    · rw [e, loads_newline whole]
  · rename_i hlen
    have beginning : (f.text N).take landed = (f.dumped N).take landed := by
      rw [Fragment.text, List.take_append_of_le_length (by omega)]
    rw [beginning]
    refine loads_cut N.printer printable (List.take_append_drop landed _) fun h => hlen ?_
    exact List.drop_eq_nil_iff.mp h

/-- An engine's entry in a dict of the manifest. -/
def enter (entry : Str → Option (Json ν)) (d : List (Points × Json ν)) (engine : Str) :
    List (Points × Json ν) :=
  match entry engine with
  | none => d
  | some v => set d (points engine) v

theorem enter_none {entry : Str → Option (Json ν)} {e : Str} (h : entry e = none)
    (d : List (Points × Json ν)) : enter entry d e = d := by
  rw [enter, h]

theorem enter_some {entry : Str → Option (Json ν)} {e : Str} {v : Json ν} (h : entry e = some v)
    (d : List (Points × Json ν)) : enter entry d e = set d (points e) v := by
  rw [enter, h]

def versionOf (N : Numbers number) (plan : Plan) (children : List (Str × Behaviour ν)) (engine : Str) :
    Option (Json ν) :=
  (wholeFragment N plan children engine).map fun f => f.version.json

def coldStartOf (N : Numbers number) (plan : Plan) (children : List (Str × Behaviour ν)) (engine : Str) :
    Option (Json ν) :=
  (wholeFragment N plan children engine).map fun f => f.coldStart.json

theorem merge_spec (plan : Plan) (children : List (Str × Behaviour ν)) (m : Manifest ν) (engine : Str) :
    merge number (loop N plan children).raw m engine =
      some ⟨enter (versionOf N plan children) m.engineVersions engine,
        enter (coldStartOf N plan children) m.coldStarts engine⟩ := by
  unfold merge enter versionOf coldStartOf wholeFragment
  rw [loop_fragment]
  cases hlast : lastFragment N plan children engine with
  | none => rfl
  | some last =>
    have named : last.1.engine = engine := by
      obtain ⟨b, -, rfl⟩ := lastFragment_iff.mp hlast
      rfl
    simp only [Option.map_some, Option.bind_some, loads_fragment]
    by_cases hlen : (last.1.dumped N).length ≤ last.2
    · have versions : itemsOf last.1.members "engine_versions" =
          some [(points last.1.engine, last.1.version.json)] := rfl
      have colds : itemsOf last.1.members "cold_starts" =
          some [(points last.1.engine, last.1.coldStart.json)] := rfl
      simp only [if_pos hlen, versions, colds, named]
      rfl
    · simp only [if_neg hlen]
      rfl

/-- The parent always gets to its manifest. -/
theorem manifest_spec (plan : Plan) (children : List (Str × Behaviour ν)) :
    manifest N plan children =
      some ⟨(children.map Prod.fst).foldl (enter (versionOf N plan children)) [],
        (children.map Prod.fst).foldl (enter (coldStartOf N plan children)) []⟩ := by
  suffices H : ∀ (engines : List Str) (m : Manifest ν),
      engines.foldlM (merge number (loop N plan children).raw) m =
        some ⟨engines.foldl (enter (versionOf N plan children)) m.engineVersions,
          engines.foldl (enter (coldStartOf N plan children)) m.coldStarts⟩ from H _ {}
  intro engines
  induction engines with
  | nil => exact fun _ => rfl
  | cons e rest ih =>
    intro m
    rw [List.foldlM_cons, merge_spec]
    exact ih _

theorem get?_entered {entry : Str → Option (Json ν)} {engines : List Str} {k : Points} {v : Json ν} :
    get? (engines.foldl (enter entry) []) k = some v ↔
      ∃ e ∈ engines, points e = k ∧ entry e = some v := by
  induction engines using List.reverseRecOn with
  | nil => simp
  | append_singleton engines e ih =>
    rw [List.foldl_append, List.foldl_cons, List.foldl_nil]
    cases hentry : entry e with
    | none =>
      rw [enter_none hentry, ih]
      simp [hentry, or_and_right, exists_or]
    | some w =>
      rw [enter_some hentry, get?_set]
      by_cases hk : points e = k
      · rw [if_pos hk]
        constructor
        · intro h
          exact ⟨e, by simp, hk, hentry.trans h⟩
        · intro h
          obtain ⟨e', -, hk', hv⟩ := h
          obtain rfl := points_injective (hk'.trans hk.symm)
          exact hentry.symm.trans hv
      · rw [if_neg hk, ih]
        simp [hk, or_and_right, exists_or]

/-- No fragment comes from an engine that is not in the list. -/
theorem mem_of_wholeFragment {f : Fragment ν} (h : wholeFragment N plan children engine = some f) :
    engine ∈ children.map Prod.fst := by
  obtain ⟨last, hlast, -⟩ := Option.bind_eq_some_iff.mp h
  obtain ⟨a, ha, -⟩ := List.mem_filterMap.mp (List.mem_of_getLast? hlast)
  obtain ⟨b, hb, -⟩ := List.mem_flatMap.mp ha
  obtain ⟨c, hc, -⟩ := List.mem_map.mp hb
  obtain ⟨hc, he⟩ := List.mem_filter.mp hc
  exact List.mem_map.mpr ⟨c, hc, of_decide_eq_true he⟩

/-! ## What a run leaves -/

section Run

variable (N : Numbers number) (plan : Plan) (children : List (Str × Behaviour ν))

/-- How a child fills its record file: one call of `run_workload` after the
other, each by its own schedule. -/
structure Orderly (engine : Str) (b : Behaviour ν) (done : List Job) : Prop where
  writes : writesOf (actsOf N plan engine b) = (callsOf N plan engine b done).flatMap (Call.writes N)
  inOrder : done <+: plan.jobs engine
  complete : (actsOf N plan engine b).any Act.isOpened → (exitOf N plan engine b).isOk →
    done = plan.jobs engine
  /-- No workload is left out unless something stops the child. -/
  stopped : (actsOf N plan engine b).any Act.isOpened → done = plan.jobs engine ∨
    Stopped N plan engine b done
  /-- Each call leaves what was written so far, and nothing else. -/
  files : ∀ earlier call, earlier ++ [call] <+: callsOf N plan engine b done →
    (call.run N).2.file = contents N ((earlier ++ [call]).flatMap (Call.writes N))
  /-- A call writes the lines of its runs, and behind them at most a torn one. -/
  conduct : ∀ call ∈ callsOf N plan engine b done, ∃ setup runs tail,
    Schedule.Conduct { call.env with dumps := recordText N } call.job call.before setup runs tail
        (call.run N).1 (call.run N).2 ∧
      Schedule.Stops { call.env with dumps := recordText N } (call.run N).1 (call.run N).2 ∧
      call.writes N = runs.map (fun r => .line (r.record call.job)) ++ tail.filterMap Write.ofEvent?

/-- What one child does shows in its own engine's files only, and the parent
goes through all engines and merges what landed. -/
structure Isolated : Prop where
  /-- Every engine is started, and its exit is taken note of. -/
  everyEngine : (loop N plan children).exits =
    children.map fun c => (c.1, c.2.launches && (exitOf N plan c.1 c.2).isOk)
  /-- A record file has what the last child that opened it wrote, and nothing else. -/
  records : ∀ engine, ((loop N plan children).raw engine).jsonl =
    (lastOpened N plan children engine).map fun b =>
      contents N (writesOf (actsOf N plan engine b))
  /-- A child opens it when it comes up and gets behind `version_info`. -/
  opens : ∀ engine b, (actsOf N plan engine b).any Act.isOpened = true ↔ b.launches = true ∧ Opens b
  orderly : ∀ engine b, ∃ done, Orderly N plan engine b done
  /-- A child that nothing stops returns zero. -/
  normal : ∀ engine b, Reaches N plan engine b → b.outcome (plan.writeTick engine) = none →
    (exitOf N plan engine b).isOk = true
  /-- The manifest has for every engine its last fragment, if that landed whole. -/
  merged : ∃ m, manifest N plan children = some m ∧
    (∀ k v, get? m.engineVersions k = some v ↔ ∃ engine f,
      wholeFragment N plan children engine = some f ∧ k = points engine ∧ v = f.version.json) ∧
    (∀ k v, get? m.coldStarts k = some v ↔ ∃ engine f,
      wholeFragment N plan children engine = some f ∧ k = points engine ∧ v = f.coldStart.json)

/-- The engine has a record in its file: a line of it is that of a record. -/
def Recorded (engine : Str) : Prop :=
  ∃ t, ((loop N plan children).raw engine).jsonl = some t ∧ ∃ r, recordText N r ∈ contentLines t

/-- The last child of an engine that came up. -/
def lastStarted (engine : Str) : Option (Behaviour ν) :=
  ((childrenOf children engine).filter fun b => (actsOf N plan engine b).any Act.isStarted).getLast?

def LastStartedLeaves : Prop := ∀ engine, ((loop N plan children).raw engine).jsonl =
  (lastStarted N plan children engine).map fun b =>
    contents N (writesOf (actsOf N plan engine b))

def slotOf (r : Record) : Str × Str × Nat := (r.workload, r.stepId, r.runIdx)

/-- The slots of all workloads of an engine, one workload behind the other. -/
def scheduleOf (engine : Str) : List (Str × Str × Nat) :=
  (plan.jobs engine).flatMap fun job =>
    (Schedule.schedule job).map fun slot => (job.workload.name, slot.1.id, slot.2)

/-- A child that opens its file gets through one schedule of all its workloads,
up to where it ends. -/
def AlongSchedule : Prop := ∀ c ∈ children, (actsOf N plan c.1 c.2).any Act.isOpened →
  (recordsOf (actsOf N plan c.1 c.2)).map slotOf <+: scheduleOf plan c.1 ∧
    ((exitOf N plan c.1 c.2).isOk →
      (recordsOf (actsOf N plan c.1 c.2)).map slotOf = scheduleOf plan c.1)

def EveryFragmentMerged : Prop := ∃ m, manifest N plan children = some m ∧
  ∀ c ∈ children, ∀ f, .fragment f (f.text N).length ∈ actsOf N plan c.1 c.2 →
    (get? m.engineVersions (points c.1)).isSome ∧ (get? m.coldStarts (points c.1)).isSome

/-- Every engine with a record has what a child of it reported in the manifest. -/
def Provenance : Prop :=
  ∃ m, manifest N plan children = some m ∧ ∀ engine, Recorded N plan children engine →
    ∃ b ∈ childrenOf children engine,
      get? m.engineVersions (points engine) = some b.version.json ∧
      get? m.coldStarts (points engine) = some b.coldStart.json

end Run

theorem exists_orderly (plan : Plan) (engine : Str) (b : Behaviour ν) :
    ∃ done, Orderly N plan engine b done := by
  have conduct : ∀ call : Call, ∃ setup runs tail,
      Schedule.Conduct { call.env with dumps := recordText N } call.job call.before setup runs tail
          (call.run N).1 (call.run N).2 ∧
        Schedule.Stops { call.env with dumps := recordText N } (call.run N).1 (call.run N).2 ∧
        call.writes N =
          runs.map (fun r => .line (r.record call.job)) ++ tail.filterMap Write.ofEvent? := by
    intro call
    obtain ⟨setup, runs, tail, conduct, stops⟩ :=
      Schedule.runWorkload_conduct { call.env with dumps := recordText N } call.job call.before
    exact ⟨setup, runs, tail, conduct, stops, writes_of_conduct conduct⟩
  rcases actsOf_cases (N := N) plan engine b with idle | ⟨done, tail, filled⟩
  · have unopened : ¬ (actsOf N plan engine b).any Act.isOpened = true := by simp [idle.opened]
    refine ⟨[], ?_, List.nil_prefix, fun opened => absurd opened unopened,
      fun opened => absurd opened unopened, fun _ _ h => by simp [callsOf, callsFrom] at h,
      fun call _ => conduct call⟩
    refine List.filterMap_eq_nil_iff.mpr fun a ha => ?_
    rw [idle.waiting a ha]
    rfl
  · exact ⟨done, filled.writes, filled.first, fun _ normal => filled.all normal,
      fun _ => filled.stopped, fun _ _ => (chained_callsOf done).file, fun call _ => conduct call⟩

theorem merged_iff {f : Fragment ν → Json ν} {k : Points} {v : Json ν} :
    get? ((children.map Prod.fst).foldl
        (enter fun e => (wholeFragment N plan children e).map f) []) k = some v ↔
      ∃ engine fragment, wholeFragment N plan children engine = some fragment ∧
        k = points engine ∧ v = f fragment := by
  rw [get?_entered]
  constructor
  · intro h
    obtain ⟨e, -, hk, hv⟩ := h
    obtain ⟨fragment, hfragment, hv⟩ := Option.map_eq_some_iff.mp hv
    exact ⟨e, fragment, hfragment, hk.symm, hv.symm⟩
  · intro h
    obtain ⟨e, fragment, hfragment, hk, hv⟩ := h
    exact ⟨e, mem_of_wholeFragment hfragment, hk.symm, by rw [hfragment, hv]; rfl⟩

/-- **Whatever becomes of the children, each engine's files are its own
children's doing, and the parent gets to its manifest.** -/
theorem isolated (N : Numbers number) (plan : Plan) (children : List (Str × Behaviour ν)) :
    Isolated N plan children where
  everyEngine := loop_exits plan children
  records := loop_jsonl plan children
  opens := fun _ _ => opened_iff
  orderly := exists_orderly plan
  normal := fun _ _ => exit_of_reaches
  merged := ⟨_, manifest_spec plan children, fun _ _ => merged_iff, fun _ _ => merged_iff⟩

/-- The document of the child's fragment lands whole. -/
def Lands (N : Numbers number) (plan : Plan) (engine : Str) (b : Behaviour ν) : Prop :=
  b.outcome (plan.writeTick engine) = none ∨ ((fragmentOf engine b).dumped N).length ≤ b.landed

theorem lands_iff : Lands N plan engine b ↔
    ((fragmentOf engine b).dumped N).length ≤ landedOf N plan engine b := by
  unfold Lands landedOf
  cases b.outcome (plan.writeTick engine) with
  | none => simp [Fragment.text]
  | some h => simp

theorem wholeFragment_iff {f : Fragment ν} :
    wholeFragment N plan children engine = some f ↔
      ∃ b, LastToBegin N plan children engine b ∧ Lands N plan engine b ∧ f = fragmentOf engine b := by
  rw [wholeFragment, Option.bind_eq_some_iff]
  constructor
  · intro h
    obtain ⟨last, hlast, hf⟩ := h
    obtain ⟨b, hb, rfl⟩ := lastFragment_iff.mp hlast
    obtain ⟨hlen, hf⟩ := Option.ite_none_right_eq_some.mp hf
    exact ⟨b, hb, lands_iff.mpr hlen, (Option.some.inj hf).symm⟩
  · intro h
    obtain ⟨b, hb, hlands, rfl⟩ := h
    exact ⟨_, lastFragment_iff.mpr ⟨b, hb, rfl⟩, if_pos (lands_iff.mp hlands)⟩

/-- A version in the manifest is what a last child reported. -/
theorem landed_of_version {m : Manifest ν} (hm : manifest N plan children = some m)
    (h : (get? m.engineVersions (points engine)).isSome) :
    ∃ b, LastToBegin N plan children engine b ∧ Lands N plan engine b := by
  obtain ⟨v, hv⟩ := Option.isSome_iff_exists.mp h
  obtain rfl := Option.some.inj ((manifest_spec plan children).symm.trans hm)
  obtain ⟨e, f, hwhole, he, -⟩ := merged_iff.mp hv
  obtain rfl := points_injective he
  obtain ⟨b, hb, hlands, -⟩ := wholeFragment_iff.mp hwhole
  exact ⟨b, hb, hlands⟩

theorem Provenance.landed (h : Provenance N plan children)
    (recorded : Recorded N plan children engine) :
    ∃ b, LastToBegin N plan children engine b ∧ Lands N plan engine b := by
  obtain ⟨m, hm, found⟩ := h
  obtain ⟨b, -, version, -⟩ := found engine recorded
  exact landed_of_version hm (by rw [version]; rfl)

/-- **An engine with records has its version and cold start in the manifest when
a child of it got to its fragment and the last one to get there got it out, and
only then.** -/
theorem provenance_iff (N : Numbers number) (plan : Plan) (children : List (Str × Behaviour ν)) :
    Provenance N plan children ↔ ∀ engine, Recorded N plan children engine →
      ∃ b, LastToBegin N plan children engine b ∧ Lands N plan engine b := by
  refine ⟨fun h _ => h.landed, fun h => ?_⟩
  refine ⟨_, manifest_spec plan children, fun engine recorded => ?_⟩
  obtain ⟨b, last, lands⟩ := h engine recorded
  have whole := wholeFragment_iff.mpr ⟨b, last, lands, rfl⟩
  obtain ⟨earlier, later, hsplit, -⟩ := last
  exact ⟨b, hsplit ▸ List.mem_append_right _ List.mem_cons_self,
    merged_iff.mpr ⟨engine, _, whole, rfl, rfl⟩, merged_iff.mpr ⟨engine, _, whole, rfl, rfl⟩⟩

/-! ## Runs that end early -/

/-- A workload of one step, measured once. -/
def oneWorkload (name : String) : Workload where
  name := name.toList
  description := []
  measuredSteps := [{ id := "q01".toList, kind := .sqlQuery }]
  coldRuns := 0
  warmRuns := 1

def planOf (names : List String) : Plan where
  workloads := names.map oneWorkload
  dataDir := fun _ => []
  scale := 1

def oneResult : StepResult where
  stepId := "q01".toList
  wallMs := 1500
  engineReportedMs := none
  rssPeakMb := none
  cpuPctAvg := none
  rowsReturned := some 4
  resultSha256 := none
  exitCode := 0
  error := none

/-- A child whose engine answers every step of a workload alike. -/
def answering (answer : Nat → Option StepResult) (outcome : Nat → Option Halt) :
    Behaviour (ℤ ⊕ ℚ) where
  launches := true
  outcome := outcome
  coldStart := ⟨.inr 1200, .inr 40⟩
  version := ⟨[], List.nodup_nil, trivial⟩
  env := fun n =>
    { runStep := fun _ _ => answer n
      purge := none
      now := fun _ => "2026-05-28T01:02:03+00:00".toList
      stops := fun _ => false
      tears := fun _ => none
      dumps := recordText tallies }
  landed := 1

/-- Killed at one tick of its clock. -/
def killedAt (tick : Nat) : Behaviour (ℤ ⊕ ℚ) :=
  answering (fun _ => some oneResult) fun n => if n = tick then some .killed else none

def unharmed : Behaviour (ℤ ⊕ ℚ) := answering (fun _ => some oneResult) fun _ => none

/-- Its engine raises in the first workload and answers in the second. -/
def raisingFirst : Behaviour (ℤ ⊕ ℚ) :=
  answering (fun n => if n = 4 then none else some oneResult) fun _ => none

def df : Str := "df".toList

def readDelta : Plan := planOf ["tpch_read_delta"]

/-- A second child that is killed before it opens the file leaves the records of
the first. -/
theorem unopened_leaves_earlier :
    ¬ LastStartedLeaves tallies readDelta [(df, unharmed), (df, killedAt 3)] := by
  intro h
  have left := h df
  rw [loop_jsonl] at left
  have opened : lastOpened tallies readDelta [(df, unharmed), (df, killedAt 3)] df =
      some unharmed := rfl
  have started : lastStarted tallies readDelta [(df, unharmed), (df, killedAt 3)] df =
      some (killedAt 3) := rfl
  have none_written : writesOf (actsOf tallies readDelta df (killedAt 3)) = [] := rfl
  obtain ⟨r, one_written⟩ : ∃ r, writesOf (actsOf tallies readDelta df unharmed) = [.line r] :=
    ⟨_, rfl⟩
  rw [opened, started, Option.map_some, Option.map_some, none_written, one_written] at left
  have empty := Option.some.inj left
  simp [contents, Write.text] at empty

/-- A child whose engine raises goes on with the next workload. -/
theorem raising_goes_on :
    ¬ AlongSchedule tallies (planOf ["tpch_read_delta", "tpcds_read_delta"]) [(df, raisingFirst)] := by
  intro h
  obtain ⟨prefixed, -⟩ := h (df, raisingFirst) List.mem_cons_self rfl
  have slots : (recordsOf (actsOf tallies (planOf ["tpch_read_delta", "tpcds_read_delta"]) df
      raisingFirst)).map slotOf = [("tpcds_read_delta".toList, "q01".toList, 0)] := rfl
  have scheduled : scheduleOf (planOf ["tpch_read_delta", "tpcds_read_delta"]) df =
      [("tpch_read_delta".toList, "q01".toList, 0),
        ("tpcds_read_delta".toList, "q01".toList, 0)] := rfl
  have prefixed : [("tpcds_read_delta".toList, "q01".toList, 0)] <+: _ := slots ▸ prefixed
  rw [scheduled, List.cons_prefix_cons] at prefixed
  exact absurd (congrArg Prod.fst prefixed.1) (by decide)

/-- A second child that is killed in its fragment takes the first one's away. -/
theorem torn_fragment_replaces :
    ¬ EveryFragmentMerged tallies readDelta [(df, unharmed), (df, killedAt 6)] := by
  intro h
  obtain ⟨m, hm, merged⟩ := h
  let f : Fragment (ℤ ⊕ ℚ) := ⟨df, unharmed.version, unharmed.coldStart⟩
  have last_act : (actsOf tallies readDelta df unharmed).getLast? =
      some (.fragment f (f.text tallies).length) := rfl
  obtain ⟨version, -⟩ := merged (df, unharmed) List.mem_cons_self f (List.mem_of_getLast? last_act)
  obtain ⟨b, last, lands⟩ := landed_of_version hm version
  have torn : lastFragment tallies readDelta [(df, unharmed), (df, killedAt 6)] df =
      some (f, 1) := rfl
  obtain ⟨hf, hlanded⟩ := Prod.mk.inj
    (Option.some.inj (torn.symm.trans (lastFragment_iff.mpr ⟨b, last, rfl⟩)))
  have hlen := lands_iff.mp lands
  rw [← hf, ← hlanded] at hlen
  obtain ⟨inner, htext⟩ := compact_object tallies.printer f.members
  have htext : f.dumped tallies = '{' :: inner ++ ['}'] := htext
  simp [htext] at hlen

/-- A record file need not be that of the last child that came up, its records
need not follow one schedule, and a fragment that was written can be gone. -/
theorem shared_files_lost :
    ¬ LastStartedLeaves tallies readDelta [(df, unharmed), (df, killedAt 3)] ∧
    ¬ AlongSchedule tallies (planOf ["tpch_read_delta", "tpcds_read_delta"]) [(df, raisingFirst)] ∧
    ¬ EveryFragmentMerged tallies readDelta [(df, unharmed), (df, killedAt 6)] :=
  ⟨unopened_leaves_earlier, raising_goes_on, torn_fragment_replaces⟩

/-- A child that is killed behind its last record leaves it without a version. -/
theorem records_without_version :
    ¬ Provenance tallies readDelta [(df, killedAt 5)] := by
  intro h
  obtain ⟨r, one_written⟩ : ∃ r, writesOf (actsOf tallies readDelta df (killedAt 5)) = [.line r] :=
    ⟨_, rfl⟩
  have recorded : Recorded tallies readDelta [(df, killedAt 5)] df := by
    refine ⟨contents tallies [.line r], ?_, r, first_line r []⟩
    rw [loop_jsonl, ← one_written]
    rfl
  obtain ⟨b, last, -⟩ := h.landed recorded
  have never : lastFragment tallies readDelta [(df, killedAt 5)] df = none := rfl
  cases never.symm.trans (lastFragment_iff.mpr ⟨b, last, rfl⟩)

end DeltaForgeBench.Runner.Parent
