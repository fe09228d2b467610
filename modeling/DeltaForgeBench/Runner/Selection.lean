import DeltaForgeBench.Base.CommandLine
import DeltaForgeBench.Workloads.Layouts
import DeltaForgeBench.Workloads.Spec

/-! # Which workloads run on which engines

`cmd_run` takes the selection from the flags, from its defaults, or from the
menu it shows on a terminal, and checks it before anything is started. -/
namespace DeltaForgeBench.Runner.Selection
open DeltaForgeBench.Base.Text DeltaForgeBench.Base.Numeral DeltaForgeBench.Base.CommandLine
open DeltaForgeBench.Workloads.Spec DeltaForgeBench.Workloads.DfCatalog
open DeltaForgeBench.Workloads.Layouts

/-! ## The workloads there are -/

/-- One file of the workloads directory: its stem, and its `WORKLOAD` where
there is one. -/
structure Source where
  stem : Str
  workload : Option Workload

def discoverStep (found : List Workload) (s : Source) : Option (List Workload) :=
  if ["__init__".toList, "spec".toList].contains s.stem then some found
  else match s.workload with
    | none => some found
    | some w => if found.any (·.name = w.name) then none else some (found ++ [w])

/-- `discover`, none where a name is met twice. -/
def discover (sources : List Source) : Option (List Workload) :=
  (sources.insertionSort fun a b => a.stem ++ ".py".toList ≤ b.stem ++ ".py".toList).foldlM
    discoverStep []

/-- A name that is not empty and has letters, digits and underscores only. -/
structure IsIdentifier (s : Str) : Prop where
  filled : s ≠ []
  word : ∀ c ∈ s, isWordChar c = true

/-- What `discover` returns, with the names workloads have. -/
structure Catalog where
  workloads : List Workload
  discovered : ∃ sources, discover sources = some workloads
  identifiers : ∀ w ∈ workloads, IsIdentifier w.name

def Catalog.names (c : Catalog) : List Str := c.workloads.map (·.name)

/-- `available_workloads[name]`. -/
def Catalog.get? (c : Catalog) (name : Str) : Option Workload :=
  c.workloads.find? (·.name = name)

/-! ## The arguments -/

/-- The parsed arguments of the runner. -/
structure Args where
  scale : Int
  engines : Option Str := none
  workloads : Option Str := none
  nonInteractive : Bool := false
  resultsDir : Str
  tag : Option Str := none
  outDir : Option Str := none
  noPurge : Bool := false
  dryRun : Bool := false
  force : Bool := false
  coldRuns : Option Int := none
  warmRuns : Option Int := none

def engineRegistry : List Str :=
  ["spark-default".toList, "spark-tuned".toList, "df".toList, "duckdb".toList]

def defaultEngines : Str := "df,duckdb,spark-default,spark-tuned".toList

def defaultWorkloads : Str :=
  "tpch_read_delta,tpcds_read_delta,ssb_read_delta,job_read_delta,synthetic_write_delta".toList

/-! ## The menu -/

/-- What one read from the terminal brings. -/
inductive Answer
  | line (text : Str)
  | interrupted

/-- `_ask`. Where no line is left, the read finds the end of the input. -/
def ask (default : Str) : List Answer → Str × List Answer
  | [] => (default, [])
  | .interrupted :: rest => (default, rest)
  | .line text :: rest => (if strip text = [] then default else strip text, rest)

/-- A question that is put again after an answer nobody can use, `tries` times
at most. -/
def choose {α : Type} (default : Str) (read : Str → Option α) (fallback : α) :
    Nat → List Answer → α × List Answer
  | 0, answers => (fallback, answers)
  | tries + 1, answers =>
    let (raw, rest) := ask default answers
    match read raw with
    | some x => (x, rest)
    | none => choose default read fallback tries rest

/-- The entry behind a number from 1 on. -/
def pick {α : Type} (l : List α) (p : Int) : Option α :=
  if 1 ≤ p then l[(p - 1).toNat]? else none

def readWorkloads (names : List Str) (raw : Str) : Option Str :=
  if lower raw = "a".toList || lower raw = "all".toList then some (join [','] names)
  else do
    let picks ← ((splitOnChar ',' (raw.filter (· ≠ ' '))).filter (· ≠ [])).mapM int?
    if picks = [] then none
    else (picks.mapM (pick names)).map (join [','])

def enginePresets : List (Str × Str) :=
  [("df".toList, "DeltaForge only (fastest setup, no Spark JVM)".toList),
   ("df,duckdb".toList, "DeltaForge + DuckDB".toList),
   ("df,duckdb,spark-default,spark-tuned".toList,
     "DeltaForge + DuckDB + Spark (full comparison)".toList)]

def readEngines (raw : Str) : Option Str :=
  (int? raw).bind fun idx => pick (enginePresets.map (·.1)) idx

def readScale (raw : Str) : Option Int := (int? raw).filter fun v => 1 ≤ v

structure Menu where
  workloads : Str
  engines : Str
  scale : Int
  coldRuns : Option Int
  warmRuns : Option Int

/-- The benchmarks, the first one where no answer is of use. -/
def askWorkloads (names : List Str) (first : Str) : List Answer → Str × List Answer :=
  choose "1".toList (readWorkloads names) first 3

def askEngines : List Answer → Str × List Answer :=
  choose (strInt enginePresets.length) readEngines ((enginePresets.map (·.1)).getLastD []) 3

def askScale : List Answer → Int × List Answer := choose "1".toList readScale 1 3

/-- `run_menu`. Without any workload, `names[0]` raises. -/
def runMenu (names : List Str) (answers : List Answer) : Option (Menu × List Answer) :=
  match names with
  | [] => none
  | first :: _ =>
    let (workloads, rest) := askWorkloads names first answers
    let (engines, rest) := askEngines rest
    let (scale, rest) := askScale rest
    let (depth, rest) := ask "1".toList rest
    let runs := if strip depth = "2".toList then none else some 1
    some (⟨workloads, engines, scale, runs, runs⟩, rest)

/-! ## The selection -/

def interactive (isatty : Bool) (args : Args) : Bool :=
  isatty && !args.nonInteractive && args.workloads.isNone && args.engines.isNone && !args.dryRun

/-- The arguments with the menu's answers or the defaults filled in. -/
def fillIn (names : List Str) (isatty : Bool) (answers : List Answer) (args : Args) :
    Option (Args × List Answer) :=
  if interactive isatty args then do
    let (sel, rest) ← runMenu names answers
    return ({ args with
      workloads := some sel.workloads
      engines := some sel.engines
      scale := sel.scale
      coldRuns := sel.coldRuns
      warmRuns := sel.warmRuns }, rest)
  else some ({ args with
    workloads := some (args.workloads.getD defaultWorkloads)
    engines := some (args.engines.getD defaultEngines) }, answers)

/-- `[x.strip() for x in text.split(",") if x.strip()]`. -/
def commaList (text : Str) : List Str := ((splitOnChar ',' text).map strip).filter (· ≠ [])

/-- Why `cmd_run` exits before it plans anything. -/
inductive Refusal
  | unknownWorkloads (missing : List Str)
  | negativeColdRuns (n : Int)
  | negativeWarmRuns (n : Int)
  | zeroRuns (workloads : List Str)
  | unknownEngines (unknown : List Str)

structure Selected where
  workloads : List Workload
  engines : List Str
  scale : Int

/-- The runs of a workload, overridden where the arguments say so. -/
def Args.override (args : Args) (w : Workload) : Workload :=
  { w with
    coldRuns := (args.coldRuns.map Int.toNat).getD w.coldRuns
    warmRuns := (args.warmRuns.map Int.toNat).getD w.warmRuns }

def Args.overrides (args : Args) : Bool := args.coldRuns.isSome || args.warmRuns.isSome

/-- The workloads that are asked for, or the names nobody knows. -/
def wantedWorkloads (c : Catalog) (text : Str) : Except Refusal (List Workload) :=
  if text = [] then .ok c.workloads
  else
    let missing := (commaList text).filter fun w => (c.get? w).isNone
    if missing = [] then .ok ((commaList text).filterMap c.get?) else .error (.unknownWorkloads missing)

/-- `sys.exit` on a condition. -/
def exitIf (bad : Bool) (refusal : Refusal) : Except Refusal Unit :=
  if bad then .error refusal else .ok ()

def checkRuns (refusal : Int → Refusal) : Option Int → Except Refusal Unit
  | some n => exitIf (n < 0) (refusal n)
  | none => .ok ()

def Args.zeroRuns (args : Args) (wanted : List Workload) : List Workload :=
  (wanted.map args.override).filter fun w => w.coldRuns + w.warmRuns = 0

def Args.engineList (args : Args) : List Str := commaList (args.engines.getD [])

def unknownEngines (engines : List Str) : List Str :=
  engines.filter fun e => !engineRegistry.contains e

/-- The checks of `cmd_run` on filled-in arguments. -/
def select (c : Catalog) (args : Args) : Except Refusal Selected := do
  let wanted ← wantedWorkloads c (args.workloads.getD [])
  checkRuns .negativeColdRuns args.coldRuns
  checkRuns .negativeWarmRuns args.warmRuns
  exitIf (args.overrides && args.zeroRuns wanted ≠ []) (.zeroRuns ((args.zeroRuns wanted).map (·.name)))
  exitIf (unknownEngines args.engineList ≠ []) (.unknownEngines (unknownEngines args.engineList))
  return { workloads := wanted.map args.override, engines := args.engineList, scale := args.scale }

/-! ## Names in a list -/

theorem IsIdentifier.free {s : Str} (h : IsIdentifier s) {c : Char} (hc : isWordChar c = false) :
    c ∉ s := by
  intro hmem
  rw [h.word c hmem] at hc
  cases hc

theorem IsIdentifier.stripped {s : Str} (h : IsIdentifier s) : strip s = s := by
  refine strip_eq_self fun c hc => ?_
  cases hspace : isSpace c with
  | false => rfl
  | true => exact absurd hc (h.free (isSpace_not_word hspace))

/-- Identifiers joined with commas are read back. -/
theorem commaList_join {names : List Str} (h : ∀ n ∈ names, IsIdentifier n) :
    commaList (join [','] names) = names := by
  by_cases hne : names = []
  · rw [hne]
    rfl
  · have hsplit : splitOnChar ',' (join [','] names) = names :=
      splitOnChar_join hne fun n hn => (h n hn).free rfl
    have hstrip : names.map strip = names :=
      (List.map_congr_left fun n hn => (h n hn).stripped).trans (List.map_id' names)
    rw [commaList, hsplit, hstrip, List.filter_eq_self]
    exact fun n hn => decide_eq_true (h n hn).filled

variable {c : Catalog} {args : Args} {sel : Selected}

theorem Catalog.get?_some {name : Str} {w : Workload} (h : c.get? name = some w) :
    w ∈ c.workloads ∧ w.name = name :=
  ⟨List.mem_of_find?_eq_some h, by simpa using List.find?_some h⟩

theorem discoverStep_nodup {found found' : List Workload} {s : Source}
    (h : (found.map (·.name)).Nodup) (hs : discoverStep found s = some found') :
    (found'.map (·.name)).Nodup := by
  unfold discoverStep at hs
  split_ifs at hs with hskip
  · exact Option.some.inj hs ▸ h
  · cases hw : s.workload with
    | none =>
      rw [hw] at hs
      exact Option.some.inj hs ▸ h
    | some w =>
      rw [hw] at hs
      simp only at hs
      split_ifs at hs with htwice
      obtain rfl := Option.some.inj hs
      rw [List.map_append, List.nodup_append]
      refine ⟨h, List.nodup_singleton _, ?_⟩
      rintro name hname _ hlast rfl
      obtain ⟨w', hw', hname⟩ := List.mem_map.mp hname
      rw [List.map_singleton, List.mem_singleton] at hlast
      exact htwice (List.any_eq_true.mpr ⟨w', hw', decide_eq_true (hname.trans hlast)⟩)

theorem Catalog.distinct (c : Catalog) : (c.workloads.map (·.name)).Nodup := by
  obtain ⟨sources, h⟩ := c.discovered
  have kept : ∀ {sources : List Source} {found found' : List Workload},
      (found.map (·.name)).Nodup → sources.foldlM discoverStep found = some found' →
      (found'.map (·.name)).Nodup := by
    intro sources
    induction sources with
    | nil => exact fun hfound h => Option.some.inj h ▸ hfound
    | cons s rest ih =>
      intro found found' hfound h
      obtain ⟨next, hnext, hrest⟩ := Option.bind_eq_some_iff.mp h
      exact ih (discoverStep_nodup hfound hnext) hrest
  have hnil : (([] : List Workload).map (·.name)).Nodup := List.nodup_nil
  exact kept hnil h

theorem Catalog.get?_name {w : Workload} (h : w ∈ c.workloads) : c.get? w.name = some w := by
  obtain ⟨w', hw'⟩ : ∃ w', c.get? w.name = some w' :=
    Option.isSome_iff_exists.mp (List.find?_isSome.mpr ⟨w, h, by simp⟩)
  obtain ⟨hmem, hname⟩ := Catalog.get?_some hw'
  rw [hw', List.inj_on_of_nodup_map c.distinct hmem h hname]

/-! ## What is accepted -/

/-- What `cmd_run` makes sure of in the workloads asked for. -/
structure Runnable (c : Catalog) (args : Args) (wanted : List Workload) : Prop where
  known : ∀ w ∈ wanted, w ∈ c.workloads
  cold : ∀ n ∈ args.coldRuns, 0 ≤ n
  warm : ∀ n ∈ args.warmRuns, 0 ≤ n
  runs : args.overrides = true → ∀ w ∈ wanted, (args.override w).coldRuns + (args.override w).warmRuns ≠ 0

theorem bind_ok_iff {ε α β : Type} {x : Except ε α} {f : α → Except ε β} {b : β} :
    (x >>= f) = .ok b ↔ ∃ a, x = .ok a ∧ f a = .ok b := by
  cases x with
  | error e => simp [bind, Except.bind]
  | ok a => simp [bind, Except.bind]

theorem check_ok_iff {ε β : Type} {x : Except ε Unit} {f : Unit → Except ε β} {b : β} :
    (x >>= f) = .ok b ↔ x = .ok () ∧ f () = .ok b :=
  bind_ok_iff.trans ⟨fun ⟨_, hx, hf⟩ => ⟨hx, hf⟩, fun ⟨hx, hf⟩ => ⟨(), hx, hf⟩⟩

theorem exitIf_ok {bad : Bool} {refusal : Refusal} : exitIf bad refusal = .ok () ↔ bad = false := by
  cases bad <;> simp [exitIf]

theorem checkRuns_ok {refusal : Int → Refusal} {runs : Option Int} :
    checkRuns refusal runs = .ok () ↔ ∀ n ∈ runs, 0 ≤ n := by
  cases runs with
  | none => simp [checkRuns]
  | some n => simp [checkRuns, exitIf_ok]

/-- Names that are all in the catalog stand for its workloads, in their order. -/
theorem wantedWorkloads_names {wanted : List Workload} (h : ∀ w ∈ wanted, w ∈ c.workloads)
    (hne : wanted ≠ []) :
    wantedWorkloads c (join [','] (wanted.map (·.name))) = .ok wanted := by
  have hlist : commaList (join [','] (wanted.map (·.name))) = wanted.map (·.name) := by
    refine commaList_join fun n hn => ?_
    obtain ⟨w, hw, rfl⟩ := List.mem_map.mp hn
    exact c.identifiers w (h w hw)
  have hfilled : join [','] (wanted.map (·.name)) ≠ [] := by
    intro hnil
    rw [hnil] at hlist
    exact hne (List.map_eq_nil_iff.mp hlist.symm)
  have hknown : ∀ n ∈ wanted.map (·.name), (c.get? n).isNone = false := by
    intro n hn
    obtain ⟨w, hw, rfl⟩ := List.mem_map.mp hn
    rw [Catalog.get?_name (h w hw)]
    rfl
  have hmissing : (wanted.map (·.name)).filter (fun n => (c.get? n).isNone) = [] := by
    rw [List.filter_eq_nil_iff]
    exact fun n hn => by simp [hknown n hn]
  have hfound : (wanted.map (·.name)).filterMap c.get? = wanted := by
    rw [List.filterMap_map]
    refine (List.filterMap_congr (g := some) fun w hw => ?_).trans (List.filterMap_some)
    exact Catalog.get?_name (h w hw)
  simp only [wantedWorkloads, if_neg hfilled, hlist, hmissing, if_true, hfound]

theorem wantedWorkloads_known {text : Str} {wanted : List Workload}
    (h : wantedWorkloads c text = .ok wanted) : ∀ w ∈ wanted, w ∈ c.workloads := by
  unfold wantedWorkloads at h
  by_cases hempty : text = []
  · rw [if_pos hempty] at h
    exact Except.ok.inj h ▸ fun w hw => hw
  · rw [if_neg hempty] at h
    by_cases hmissing : (commaList text).filter (fun w => (c.get? w).isNone) = []
    · simp only [hmissing, if_true, Except.ok.injEq] at h
      intro w hw
      rw [← h] at hw
      obtain ⟨name, -, hname⟩ := List.mem_filterMap.mp hw
      exact (Catalog.get?_some hname).1
    · simp only [hmissing, if_false] at h
      cases h

theorem zeroRuns_eq_nil {wanted : List Workload} : args.zeroRuns wanted = [] ↔
    ∀ w ∈ wanted, (args.override w).coldRuns + (args.override w).warmRuns ≠ 0 := by
  simp [Args.zeroRuns, List.filter_eq_nil_iff]

theorem unknownEngines_eq_nil {engines : List Str} :
    unknownEngines engines = [] ↔ ∀ e ∈ engines, e ∈ engineRegistry := by
  simp [unknownEngines, List.filter_eq_nil_iff]

theorem select_ok_iff : select c args = .ok sel ↔ ∃ wanted,
    wantedWorkloads c (args.workloads.getD []) = .ok wanted ∧ Runnable c args wanted ∧
    (∀ e ∈ args.engineList, e ∈ engineRegistry) ∧
    sel = ⟨wanted.map args.override, args.engineList, args.scale⟩ := by
  unfold select
  rw [bind_ok_iff]
  simp only [check_ok_iff, checkRuns_ok, exitIf_ok, Bool.and_eq_false_iff, decide_eq_false_iff_not,
    not_not, zeroRuns_eq_nil, unknownEngines_eq_nil, ne_eq]
  constructor
  · rintro ⟨wanted, hwanted, hcold, hwarm, hruns, hengines, hsel⟩
    refine ⟨wanted, hwanted, ⟨wantedWorkloads_known hwanted, hcold, hwarm, fun hover => ?_⟩,
      hengines, (Except.ok.inj hsel).symm⟩
    exact hruns.resolve_left (by simp [hover])
  · rintro ⟨wanted, hwanted, hrun, hengines, rfl⟩
    refine ⟨wanted, hwanted, hrun.cold, hrun.warm, ?_, hengines, rfl⟩
    cases hover : args.overrides with
    | false => exact .inl rfl
    | true => exact .inr (hrun.runs hover)

/-! ## The menu's answers -/

theorem ask_rest (default : Str) (answers : List Answer) :
    (ask default answers).2 = answers.drop 1 := by
  cases answers with
  | nil => rfl
  | cons a rest => cases a <;> rfl

/-- A wrong answer is asked for again, `tries` times at most; whatever comes out
is the fallback or was read from an answer. -/
theorem choose_spec {α : Type} {P : α → Prop} {default : Str} {read : Str → Option α} {fallback : α}
    (hfallback : P fallback) (hread : ∀ raw x, read raw = some x → P x) (tries : Nat)
    (answers : List Answer) :
    P (choose default read fallback tries answers).1 ∧
      ∃ k ≤ tries, (choose default read fallback tries answers).2 = answers.drop k := by
  induction tries generalizing answers with
  | zero => exact ⟨hfallback, 0, le_rfl, rfl⟩
  | succ tries ih =>
    simp only [choose]
    cases hx : read (ask default answers).1 with
    | some x => exact ⟨hread _ x hx, 1, by omega, ask_rest default answers⟩
    | none =>
      obtain ⟨hP, k, hk, hdrop⟩ := ih (ask default answers).2
      refine ⟨hP, 1 + k, by omega, ?_⟩
      rw [hdrop, ask_rest, List.drop_drop]

/-- A text that names some of `names`, none of them not in the list. -/
def Names (names : List Str) (text : Str) : Prop :=
  ∃ picked, picked ≠ [] ∧ (∀ n ∈ picked, n ∈ names) ∧ text = join [','] picked

/-- What the menu comes back with, whatever is answered. -/
structure Menu.Sound (names : List Str) (m : Menu) : Prop where
  workloads : Names names m.workloads
  engines : m.engines ∈ enginePresets.map (·.1)
  scale : 1 ≤ m.scale
  depth : (m.coldRuns = some 1 ∧ m.warmRuns = some 1) ∨ (m.coldRuns = none ∧ m.warmRuns = none)

def twoWorkloads : List Workload :=
  [{ name := "crud".toList, description := [] }, { name := "optimize".toList, description := [] }]

theorem twoWorkloads_discovered : ∃ sources, discover sources = some twoWorkloads :=
  ⟨[⟨"spec".toList, none⟩, ⟨"optimize".toList, twoWorkloads[1]?⟩, ⟨"crud".toList, twoWorkloads[0]?⟩], rfl⟩

theorem twoWorkloads_identifiers : ∀ w ∈ twoWorkloads, IsIdentifier w.name := by
  intro w hw
  rcases List.mem_pair.mp hw with rfl | rfl
  · exact ⟨List.cons_ne_nil _ _, List.all_eq_true.mp rfl⟩
  · exact ⟨List.cons_ne_nil _ _, List.all_eq_true.mp rfl⟩

def twoCatalog : Catalog := ⟨twoWorkloads, twoWorkloads_discovered, twoWorkloads_identifiers⟩

end DeltaForgeBench.Runner.Selection
