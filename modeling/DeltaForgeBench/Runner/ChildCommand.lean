import DeltaForgeBench.Runner.Selection

/-! # The command line of a child

The parent starts one child for each engine and hands it the selection as a
command line, which the child parses and checks like any other. -/
namespace DeltaForgeBench.Runner.ChildCommand
open DeltaForgeBench.Base.Text DeltaForgeBench.Base.Numeral DeltaForgeBench.Base.CommandLine
open DeltaForgeBench.Workloads.Spec DeltaForgeBench.Workloads.DfCatalog
open DeltaForgeBench.Runner.Selection

/-! ## The parser -/

inductive Dest
  | help | scale | engines | workloads | nonInteractive | resultsDir | tag | outDir | noPurge
  | dryRun | force | coldRuns | warmRuns

def buildParser : Options Dest where
  strings :=
    [("-h".toList, .help), ("--help".toList, .help), ("--scale".toList, .scale),
     ("--engines".toList, .engines), ("--workloads".toList, .workloads),
     ("--non-interactive".toList, .nonInteractive), ("--results-dir".toList, .resultsDir),
     ("--tag".toList, .tag), ("--out-dir".toList, .outDir), ("--no-purge".toList, .noPurge),
     ("--dry-run".toList, .dryRun), ("--force".toList, .force), ("--cold-runs".toList, .coldRuns),
     ("--warm-runs".toList, .warmRuns)]
  takesValue
    | .help | .nonInteractive | .noPurge | .dryRun | .force => false
    | _ => true

/-- What the parser stores for an option. Help exits. -/
def store (args : Args) : Dest × Option Str → Option Args
  | (.scale, some v) => (int? v).map fun n => { args with scale := n }
  | (.engines, some v) => some { args with engines := some v }
  | (.workloads, some v) => some { args with workloads := some v }
  | (.nonInteractive, none) => some { args with nonInteractive := true }
  | (.resultsDir, some v) => some { args with resultsDir := v }
  | (.tag, some v) => some { args with tag := some v }
  | (.outDir, some v) => some { args with outDir := some v }
  | (.noPurge, none) => some { args with noPurge := true }
  | (.dryRun, none) => some { args with dryRun := true }
  | (.force, none) => some { args with force := true }
  | (.coldRuns, some v) => (int? v).map fun n => { args with coldRuns := some n }
  | (.warmRuns, some v) => (int? v).map fun n => { args with warmRuns := some n }
  | _ => none

/-- What stands in the environment of a runner: `BENCH_SCALE_FACTOR`, and where
results go by default. -/
structure Defaults where
  scale : Int
  resultsDir : Str

/-- `build_parser().parse_args()`, none where it exits. -/
def parseArgs (d : Defaults) (argv : List Str) : Option Args :=
  (buildParser.parse argv).bind
    (·.foldlM store { scale := d.scale, resultsDir := d.resultsDir })

/-! ## The child -/

def flag (option : String) (given : Bool) : List Str := if given then [option.toList] else []

def runsFlag (option : String) : Option Int → List Str
  | some n => [option.toList, strInt n]
  | none => []

/-- `child_cmd`, without the interpreter and the script. -/
def childCmd (args : Args) (sel : Selected) (outDir engine : Str) : List Str :=
  ["--scale".toList, strInt args.scale] ++ ["--engines".toList, engine] ++
    ["--workloads".toList, join [','] (sel.workloads.map (·.name))] ++
    ["--results-dir".toList, args.resultsDir] ++ ["--out-dir".toList, outDir] ++
    ["--non-interactive".toList] ++ flag "--no-purge" args.noPurge ++ flag "--force" args.force ++
    runsFlag "--cold-runs" args.coldRuns ++ runsFlag "--warm-runs" args.warmRuns

/-- `main` up to the accepted selection, with whatever terminal there is. -/
def started (c : Catalog) (d : Defaults) (isatty : Bool) (answers : List Answer) (argv : List Str) :
    Option (Args × Selected) := do
  let args ← parseArgs d argv
  let (filled, _) ← fillIn c.names isatty answers args
  let sel ← (select c filled).toOption
  return (filled, sel)

/-- The child has the part of the parent's run that is its own. -/
structure Part (args : Args) (sel : Selected) (outDir engine : Str) (child : Args × Selected) : Prop where
  selected : child.2 = { sel with engines := [engine] }
  resultsDir : child.1.resultsDir = args.resultsDir
  outDir : child.1.outDir = some outDir
  noPurge : child.1.noPurge = args.noPurge
  force : child.1.force = args.force
  started : child.1.dryRun = false

/-! ## Reading the command line back -/

theorem wordy_buildParser : buildParser.Wordy := by
  refine ⟨?_, rfl⟩
  intro p hp d hd
  simp only [buildParser, List.mem_cons, List.not_mem_nil, or_false] at hp
  rcases hp with rfl | rfl | rfl | rfl | rfl | rfl | rfl | rfl | rfl | rfl | rfl | rfl | rfl | rfl <;>
    (obtain rfl := Option.some.inj hd; rfl)

theorem spelled {option : String} {action : Dest}
    (h : (option.toList, action) ∈ buildParser.strings) : buildParser.Spelled option.toList action := by
  have every : ∀ p ∈ buildParser.strings, buildParser.Spelled p.1 p.2 := by
    intro p hp
    simp only [buildParser, List.mem_cons, List.not_mem_nil, or_false] at hp
    rcases hp with rfl | rfl | rfl | rfl | rfl | rfl | rfl | rfl | rfl | rfl | rfl | rfl | rfl | rfl <;>
      exact ⟨rfl, rfl, by decide⟩
  exact every _ h

theorem reads_option {option : String} {action : Dest} {value : Str}
    (h : (option.toList, action) ∈ buildParser.strings) (htakes : buildParser.takesValue action = true)
    (hvalue : buildParser.isArgument value = true) :
    buildParser.Reads [option.toList, value] [(action, some value)] :=
  (spelled h).reads_value htakes hvalue

def flagRead (action : Dest) (given : Bool) : List (Dest × Option Str) :=
  if given then [(action, none)] else []

def runsRead (action : Dest) (runs : Option Int) : List (Dest × Option Str) :=
  (runs.map fun n => (action, some (strInt n))).toList

theorem reads_flag {option : String} {action : Dest} (h : (option.toList, action) ∈ buildParser.strings)
    (htakes : buildParser.takesValue action = false) (given : Bool) :
    buildParser.Reads (flag option given) (flagRead action given) := by
  cases given with
  | false => exact Options.reads_nil
  | true => exact (spelled h).reads_flag htakes

theorem reads_runsFlag {option : String} {action : Dest}
    (h : (option.toList, action) ∈ buildParser.strings) (htakes : buildParser.takesValue action = true)
    (runs : Option Int) : buildParser.Reads (runsFlag option runs) (runsRead action runs) := by
  cases runs with
  | none => exact Options.reads_nil
  | some n => exact reads_option h htakes (isArgument_strInt wordy_buildParser n)

variable {c : Catalog} {args : Args} {sel : Selected} {outDir engine : Str}

theorem head?_join {sep n : Str} (h : n ≠ []) (rest : List Str) :
    (join sep (n :: rest)).head? = n.head? := by
  cases rest with
  | nil => rw [join_singleton]
  | cons m rest => rw [join_cons_cons, List.append_assoc, List.head?_append_of_ne_nil _ h]

theorem isArgument_workloads {ws : List Workload} (h : ∀ w ∈ ws, IsIdentifier w.name) :
    buildParser.isArgument (join [','] (ws.map (·.name))) = true := by
  refine Options.isArgument_plain fun hhead => ?_
  cases ws with
  | nil => cases hhead
  | cons w rest =>
    have hw := h w (by simp)
    rw [List.map_cons, head?_join hw.filled] at hhead
    exact hw.free rfl (List.mem_of_mem_head? hhead)

theorem engine_known {e : Str} (h : e ∈ engineRegistry) :
    commaList e = [e] ∧ buildParser.isArgument e = true := by
  simp only [engineRegistry, List.mem_cons, List.not_mem_nil, or_false] at h
  rcases h with rfl | rfl | rfl | rfl <;> exact ⟨rfl, rfl⟩

/-- What the parser stores for a child. -/
def childArgs (args : Args) (sel : Selected) (outDir engine : Str) : Args where
  scale := args.scale
  engines := some engine
  workloads := some (join [','] (sel.workloads.map (·.name)))
  nonInteractive := true
  resultsDir := args.resultsDir
  outDir := some outDir
  noPurge := args.noPurge
  force := args.force
  coldRuns := args.coldRuns
  warmRuns := args.warmRuns

def selectionRead (args : Args) (sel : Selected) (engine : Str) : List (Dest × Option Str) :=
  [(.scale, some (strInt args.scale)), (.engines, some engine),
    (.workloads, some (join [','] (sel.workloads.map (·.name))))]

def switchesRead (args : Args) : List (Dest × Option Str) :=
  [(.nonInteractive, none)] ++ flagRead .noPurge args.noPurge ++ flagRead .force args.force ++
    runsRead .coldRuns args.coldRuns ++ runsRead .warmRuns args.warmRuns

/-- The options of a child's command line in front of its directories. -/
theorem reads_selection (args : Args) (hws : ∀ w ∈ sel.workloads, IsIdentifier w.name)
    (hengine : buildParser.isArgument engine = true) :
    buildParser.Reads
      (["--scale".toList, strInt args.scale] ++ ["--engines".toList, engine] ++
        ["--workloads".toList, join [','] (sel.workloads.map (·.name))])
      (selectionRead args sel engine) := by
  have hscale : buildParser.Reads ["--scale".toList, strInt args.scale]
      [(.scale, some (strInt args.scale))] :=
    reads_option (by simp [buildParser]) rfl (isArgument_strInt wordy_buildParser args.scale)
  have hengines : buildParser.Reads ["--engines".toList, engine] [(.engines, some engine)] :=
    reads_option (by simp [buildParser]) rfl hengine
  have hworkloads : buildParser.Reads
      ["--workloads".toList, join [','] (sel.workloads.map (·.name))]
      [(.workloads, some (join [','] (sel.workloads.map (·.name))))] :=
    reads_option (by simp [buildParser]) rfl (isArgument_workloads hws)
  exact (hscale.append hengines).append hworkloads

/-- The options behind the directories. -/
theorem reads_switches (args : Args) :
    buildParser.Reads
      (["--non-interactive".toList] ++ flag "--no-purge" args.noPurge ++ flag "--force" args.force ++
        runsFlag "--cold-runs" args.coldRuns ++ runsFlag "--warm-runs" args.warmRuns)
      (switchesRead args) := by
  have hinteractive : buildParser.Reads ["--non-interactive".toList] [(.nonInteractive, none)] :=
    (spelled (by simp [buildParser])).reads_flag rfl
  exact (((hinteractive.append (reads_flag (by simp [buildParser]) rfl _)).append
    (reads_flag (by simp [buildParser]) rfl _)).append
    (reads_runsFlag (by simp [buildParser]) rfl _)).append
    (reads_runsFlag (by simp [buildParser]) rfl _)

/-- What is stored for the options of a child, one after the other. -/
theorem store_options (d : Defaults) (args : Args) (sel : Selected) (outDir engine : Str) :
    (selectionRead args sel engine ++ [(Dest.resultsDir, some args.resultsDir)] ++
        [(Dest.outDir, some outDir)] ++ switchesRead args).foldlM store
      { scale := d.scale, resultsDir := d.resultsDir } = some (childArgs args sel outDir engine) := by
  obtain ⟨scale, engines, workloads, nonInteractive, resultsDir, tag, out, noPurge, dryRun, force,
    coldRuns, warmRuns⟩ := args
  cases noPurge <;> cases force <;> cases coldRuns <;> cases warmRuns <;>
    simp [selectionRead, switchesRead, flagRead, runsRead, store, int?_strInt, childArgs]

theorem parseArgs_childCmd (d : Defaults) (hws : ∀ w ∈ sel.workloads, IsIdentifier w.name)
    (hengine : buildParser.isArgument engine = true) :
    parseArgs d (childCmd args sel outDir engine) =
      if buildParser.isArgument args.resultsDir && buildParser.isArgument outDir
      then some (childArgs args sel outDir engine) else none := by
  have hshape : childCmd args sel outDir engine =
      ((["--scale".toList, strInt args.scale] ++ ["--engines".toList, engine] ++
        ["--workloads".toList, join [','] (sel.workloads.map (·.name))] ++
        ["--results-dir".toList, args.resultsDir]) ++ ["--out-dir".toList, outDir]) ++
      (["--non-interactive".toList] ++ flag "--no-purge" args.noPurge ++ flag "--force" args.force ++
        runsFlag "--cold-runs" args.coldRuns ++ runsFlag "--warm-runs" args.warmRuns) := by
    simp only [childCmd, List.append_assoc]
  have front := reads_selection args hws hengine
  have back := reads_switches args
  rw [parseArgs, hshape]
  by_cases hresults : buildParser.isArgument args.resultsDir = true
  · have hdir : buildParser.Reads ["--results-dir".toList, args.resultsDir]
        [(.resultsDir, some args.resultsDir)] := reads_option (by simp [buildParser]) rfl hresults
    by_cases hout : buildParser.isArgument outDir = true
    · have hoption : buildParser.Reads ["--out-dir".toList, outDir] [(.outDir, some outDir)] :=
        reads_option (by simp [buildParser]) rfl hout
      rw [(((front.append hdir).append hoption).append back).parse, hresults, hout]
      exact store_options d args sel outDir engine
    · have hspelled : buildParser.Spelled "--out-dir".toList .outDir :=
        spelled (by simp [buildParser])
      have hrefused := (front.append hdir).append_refuses (hspelled.refuses_value rfl hout)
      rw [(hrefused.append _).parse, if_neg (by simp [hout])]
      rfl
  · have hspelled : buildParser.Spelled "--results-dir".toList .resultsDir :=
      spelled (by simp [buildParser])
    have hrefused := front.append_refuses (hspelled.refuses_value rfl hresults)
    rw [((hrefused.append _).append _).parse, if_neg (by simp [hresults])]
    rfl

/-! ## What a child selects -/

theorem fillIn_childArgs (names : List Str) (isatty : Bool) (answers : List Answer) :
    fillIn names isatty answers (childArgs args sel outDir engine) =
      some (childArgs args sel outDir engine, answers) := by
  simp [fillIn, interactive, childArgs]

/-- A child parses its command line, unless one of the two directories reads as
an option, and then checks what it has parsed. -/
theorem started_childCmd (c : Catalog) (d : Defaults) (isatty : Bool) (answers : List Answer)
    (hws : ∀ w ∈ sel.workloads, IsIdentifier w.name)
    (hengine : buildParser.isArgument engine = true) :
    started c d isatty answers (childCmd args sel outDir engine) =
      if buildParser.isArgument args.resultsDir && buildParser.isArgument outDir
      then (select c (childArgs args sel outDir engine)).toOption.map
        fun sel' => (childArgs args sel outDir engine, sel')
      else none := by
  rw [started, parseArgs_childCmd d hws hengine]
  split_ifs
  · simp only [Option.bind_eq_bind, Option.bind_some, fillIn_childArgs]
    cases select c (childArgs args sel outDir engine) <;> rfl
  · rfl

/-- With a workload to run, or none to choose from, the child accepts exactly
the parent's selection for its engine. -/
theorem select_childArgs (hsel : select c args = .ok sel) (hengine : engine ∈ engineRegistry)
    (hworkloads : sel.workloads = [] → c.workloads = []) :
    select c (childArgs args sel outDir engine) = .ok { sel with engines := [engine] } := by
  obtain ⟨wanted, -, hrun, -, rfl⟩ := select_ok_iff.mp hsel
  have hnames : (wanted.map args.override).map (·.name) = wanted.map (·.name) := by
    rw [List.map_map]
    rfl
  refine select_ok_iff.mpr ⟨wanted, ?_, ⟨hrun.known, hrun.cold, hrun.warm, hrun.runs⟩, ?_, ?_⟩
  · show wantedWorkloads c (join [','] ((wanted.map args.override).map (·.name))) = .ok wanted
    rw [hnames]
    by_cases hne : wanted = []
    · rw [hne]
      exact congrArg Except.ok (hworkloads (by rw [hne]; rfl))
    · exact wantedWorkloads_names hrun.known hne
  · show ∀ e ∈ commaList engine, e ∈ engineRegistry
    rw [(engine_known hengine).1]
    simpa using hengine
  · show _ = (⟨wanted.map args.override, commaList engine, args.scale⟩ : Selected)
    rw [(engine_known hengine).1]

theorem all_of_empty {sel' : Selected} (hnone : sel.workloads = [])
    (h : select c (childArgs args sel outDir engine) = .ok sel') (hnone' : sel'.workloads = []) :
    c.workloads = [] := by
  obtain ⟨wanted, hwanted, -, -, rfl⟩ := select_ok_iff.mp h
  have hall : wantedWorkloads c (join [','] (sel.workloads.map (·.name))) = .ok c.workloads := by
    rw [hnone]
    rfl
  obtain rfl : c.workloads = wanted := Except.ok.inj (hall.symm.trans hwanted)
  exact List.map_eq_nil_iff.mp hnone'

/-- Of every run the parent accepts, each child takes on exactly its own part,
unless a directory of the run reads as an option, or an empty selection reads as
all workloads. -/
theorem child_part_iff (c : Catalog) (d : Defaults) (isatty : Bool) (answers : List Answer)
    (args : Args) (sel : Selected) (hsel : select c args = .ok sel) (engine : Str)
    (hengine : engine ∈ sel.engines) (outDir : Str) :
    (∃ child, started c d isatty answers (childCmd args sel outDir engine) = some child ∧
        Part args sel outDir engine child) ↔
      buildParser.isArgument args.resultsDir = true ∧ buildParser.isArgument outDir = true ∧
        (sel.workloads = [] → c.workloads = []) := by
  obtain ⟨wanted, -, hrun, hregistry, hshape⟩ := select_ok_iff.mp hsel
  have hws : ∀ w ∈ sel.workloads, IsIdentifier w.name := by
    rw [hshape]
    intro w hw
    obtain ⟨w₀, hw₀, rfl⟩ := List.mem_map.mp hw
    exact c.identifiers w₀ (hrun.known w₀ hw₀)
  have hknown : engine ∈ engineRegistry := hregistry engine (by simpa [hshape] using hengine)
  rw [started_childCmd c d isatty answers hws (engine_known hknown).2]
  constructor
  · rintro ⟨child, hchild, hpart⟩
    by_cases hdirs : (buildParser.isArgument args.resultsDir && buildParser.isArgument outDir) = true
    · rw [if_pos hdirs] at hchild
      obtain ⟨hresults, hout⟩ := Bool.and_eq_true_iff.mp hdirs
      refine ⟨hresults, hout, fun hnone => ?_⟩
      cases hchecked : select c (childArgs args sel outDir engine) with
      | error refusal =>
        rw [hchecked] at hchild
        cases hchild
      | ok sel' =>
        rw [hchecked] at hchild
        obtain rfl := Option.some.inj hchild
        obtain rfl : sel' = _ := hpart.selected
        exact all_of_empty hnone hchecked hnone
    · rw [if_neg hdirs] at hchild
      cases hchild
  · rintro ⟨hresults, hout, hworkloads⟩
    rw [hresults, hout, select_childArgs hsel hknown hworkloads]
    exact ⟨_, rfl, rfl, rfl, rfl, rfl, rfl, rfl⟩

def crudOnce : Args where
  scale := 10
  engines := some "df, duckdb".toList
  workloads := some "crud".toList
  resultsDir := "/results".toList
  force := true
  coldRuns := some 0
  warmRuns := some 1

def crudSelected : Selected :=
  ⟨(twoWorkloads.take 1).map crudOnce.override, ["df".toList, "duckdb".toList], 10⟩

theorem select_crudOnce : select twoCatalog crudOnce = .ok crudSelected := rfl

theorem child_part_crudOnce :
    ∃ child, started twoCatalog ⟨1, "/results".toList⟩ true []
        (childCmd crudOnce crudSelected "/results/20260101T000000Z-host".toList "duckdb".toList) =
          some child ∧
      Part crudOnce crudSelected "/results/20260101T000000Z-host".toList "duckdb".toList child :=
  (child_part_iff twoCatalog ⟨1, "/results".toList⟩ true [] crudOnce crudSelected select_crudOnce
    "duckdb".toList (List.mem_cons_of_mem _ (List.mem_singleton_self _))
    "/results/20260101T000000Z-host".toList).mpr
    ⟨rfl, rfl, fun h => absurd h (List.cons_ne_nil _ _)⟩

end DeltaForgeBench.Runner.ChildCommand
