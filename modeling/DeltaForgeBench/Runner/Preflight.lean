import DeltaForgeBench.Base.Numeral
import DeltaForgeBench.Base.Thresholds
import DeltaForgeBench.Runner.Resolve

/-! # Pre-flight

`preflight` compares the host with what a scale factor needs. Both needs come
from a table of a few scales; between them the disk has a formula and the
memory has nothing. -/
namespace DeltaForgeBench.Runner.Preflight
open DeltaForgeBench.Base.Text DeltaForgeBench.Base.Dict DeltaForgeBench.Base.Numeral
open DeltaForgeBench.Base.Thresholds DeltaForgeBench.Runner.Resolve

/-- `SCALE_DISK_GB_BUDGET`. -/
def scaleDiskGbBudget : List (Int × Int) :=
  [(1, 4), (10, 40), (30, 120), (100, 400), (300, 1200), (1000, 4000)]

/-- `SCALE_RAM_GB_RECOMMENDED`. -/
def scaleRamGbRecommended : List (Int × Int) :=
  [(1, 8), (10, 16), (30, 32), (100, 96), (300, 256), (1000, 512)]

/-! ## What is known of the host -/

/-- The disks: which paths exist, and `f_bavail` and `f_frsize` of the file
system below a path, where the call does not fail. -/
structure Disks where
  repoRoot : Path
  found : Path → Bool
  statvfs : Path → Option (Nat × Nat)

/-- A fact is a number or a text. -/
inductive Fact
  | number (x : ℚ)
  | text (t : Str)

structure Cgroup where
  memoryMaxMb : Option Fact := none

structure Memory where
  memTotal : Option Nat := none

structure Virtualization where
  wsl2 : Bool := false

/-- The sections of the host facts that the checks read. -/
structure HostFacts where
  cgroup : Option Cgroup := none
  memory : Option Memory := none
  virtualization : Option Virtualization := none

variable (binary64 : ℚ → ℚ)

/-- `disk_free_gb`; `none` is its NaN, which no number is above. -/
def Disks.freeGb (d : Disks) (path : Path) : Option ℚ :=
  (d.statvfs path).map fun s => binary64 (s.1 * s.2 / 1024 ^ 3)

/-- The free disk that `preflight` looks at. -/
def Disks.freeFor (d : Disks) (dataDir : Path) : Option ℚ :=
  d.freeGb binary64 (if d.found dataDir then dataDir.dropLast else d.repoRoot)

def Memory.availGb (m : Memory) : Option ℚ :=
  match m.memTotal with
  | some (kb + 1) => some (binary64 (binary64 (kb + 1 : Nat) / (1024 * 1024)))
  | _ => none

/-- `avail_gb`: the limit of the cgroup, else the memory of the host. -/
def HostFacts.availGb (facts : HostFacts) : Option ℚ :=
  let hostGb := facts.memory.bind (Memory.availGb binary64)
  match facts.cgroup.bind (·.memoryMaxMb) with
  | some (.number mb) => if mb = 0 then hostGb else some (binary64 (binary64 mb / 1024))
  | _ => hostGb

/-! ## The checks -/

/-- `max(2 * scale, 4)`. -/
def untabledGb (scale : Int) : Int := max (2 * scale) 4

/-- `needed_gb`. -/
def neededGb (scale : Int) : Int := demand scaleDiskGbBudget untabledGb scale

def diskError (dataDir : Path) (scale : Int) (free : ℚ) : Str :=
  "ERROR: only ".toList ++ fixed false 1 free ++ " GB free on ".toList ++
    Path.text dataDir.dropLast ++ "; SF=".toList ++ scale.repr.toList ++ " needs ~".toList ++
    (neededGb scale).repr.toList ++ " GB. Free space or pass --force to proceed.".toList

/-- Half as much again as is needed. -/
def roomyGb (scale : Int) : ℚ := binary64 (binary64 (neededGb scale) * (3 / 2))

def diskTight (scale : Int) (free : ℚ) : Str :=
  "warn: free disk ".toList ++ fixed false 1 free ++ " GB is tight for SF=".toList ++
    scale.repr.toList ++ " (recommended ~".toList ++ fixedWhole false (roomyGb binary64 scale) ++
    " GB).".toList

def diskIssues (dataDir : Path) (scale : Int) (free : Option ℚ) (force : Bool) : List Str :=
  match free with
  | none => []
  | some x =>
    if x < neededGb scale ∧ force = false then [diskError dataDir scale x]
    else if x < roomyGb binary64 scale then [diskTight binary64 scale x]
    else []

def lowMemory (scale recommended : Int) (avail : ℚ) : Str :=
  "warn: available memory ".toList ++ fixed false 1 avail ++
    " GB is below the recommended ".toList ++ recommended.repr.toList ++ " GB for SF=".toList ++
    scale.repr.toList ++ ". spark-default (4 GB driver) is likely ".toList ++
    "to OOM on lineitem. spark-tuned and df may still complete.".toList

def memoryIssues (scale : Int) (avail : Option ℚ) : List Str :=
  match get? scaleRamGbRecommended scale, avail with
  | some recommended, some gb =>
    if recommended ≠ 0 ∧ gb ≠ 0 ∧ gb < recommended then [lowMemory scale recommended gb] else []
  | _, _ => []

def sparkCaveat (scale : Int) : Str :=
  "note: spark-default at SF=".toList ++ scale.repr.toList ++
    " uses the stock 4 GB driver heap. ".toList ++
    "Expect warnings or OOM on lineitem. This is the documented baseline; ".toList ++
    "compare against spark-tuned for the realistic Spark number.".toList

def wslCaveat : Str :=
  "note: running under WSL2. Disk throughput is bottlenecked by ".toList ++
    "the 9P host filesystem; published numbers should be from a ".toList ++
    "native Linux host or a Linux VM with a passthrough disk.".toList

/-- What is said whatever was measured. -/
def caveats (scale : Int) (engines : List Str) (facts : HostFacts) : List Str :=
  (if "spark-default".toList ∈ engines ∧ 10 ≤ scale then [sparkCaveat scale] else []) ++
    (if facts.virtualization.any (·.wsl2) then [wslCaveat] else [])

/-- `preflight`. -/
def preflight (disks : Disks) (scale : Int) (dataDir : Path) (engines : List Str)
    (facts : HostFacts) (force : Bool) : List Str :=
  diskIssues binary64 dataDir scale (disks.freeFor binary64 dataDir) force ++
    memoryIssues scale (facts.availGb binary64) ++ caveats scale engines facts

/-- `any(line.startswith(start) for line in issues)`. -/
def reports (start : Str) (issues : List Str) : Bool :=
  issues.any fun line => start.isPrefixOf line

/-- How `main` finds an error among the issues. -/
def reportsError (issues : List Str) : Bool := reports "ERROR:".toList issues

/-- The warning about the memory is among the issues. -/
def warnsLowMemory (issues : List Str) : Bool := reports "warn: available memory ".toList issues

/-- `main` stops here. -/
def aborts (issues : List Str) (force : Bool) : Bool := reportsError issues && !force

/-! ## When an issue is reported -/

@[simp] theorem reports_nil (start : Str) : reports start [] = false := rfl

theorem reports_append (start : Str) (a b : List Str) :
    reports start (a ++ b) = (reports start a || reports start b) :=
  List.any_append

/-- A caveat is neither an error nor a warning. -/
theorem reports_caveats {c : Char} (start : Str) (hc : c ≠ 'n') (scale : Int) (engines : List Str)
    (facts : HostFacts) : reports (c :: start) (caveats scale engines facts) = false := by
  have spark : (c :: start).isPrefixOf (sparkCaveat scale) = false := by
    have first : sparkCaveat scale = 'n' :: (sparkCaveat scale).tail := rfl
    rw [first, List.isPrefixOf_cons_cons, beq_false_of_ne hc, Bool.false_and]
  have wsl : (c :: start).isPrefixOf wslCaveat = false := by
    have first : wslCaveat = 'n' :: wslCaveat.tail := rfl
    rw [first, List.isPrefixOf_cons_cons, beq_false_of_ne hc, Bool.false_and]
  rw [caveats, reports_append, Bool.or_eq_false_iff]
  constructor
  · split
    · simp [reports, spark]
    · rfl
  · split
    · simp [reports, wsl]
    · rfl

theorem reportsError_disk (dataDir : Path) (scale : Int) (free : Option ℚ) (force : Bool) :
    reportsError (diskIssues binary64 dataDir scale free force) = true ↔
      force = false ∧ ∃ x ∈ free, x < neededGb scale := by
  cases free with
  | none => simp [diskIssues, reportsError]
  | some x =>
    have error : reportsError [diskError dataDir scale x] = true := rfl
    have tight : reportsError [diskTight binary64 scale x] = false := rfl
    by_cases h : x < neededGb scale ∧ force = false
    · rw [diskIssues, if_pos h, error]
      simpa using h.symm
    · have quiet : ¬ (force = false ∧ ∃ y ∈ some x, y < neededGb scale) := by
        simpa [and_comm] using h
      rw [diskIssues, if_neg h, iff_false_right quiet]
      split
      · rw [tight]
        nofun
      · nofun

theorem reportsError_memory (scale : Int) (avail : Option ℚ) :
    reportsError (memoryIssues scale avail) = false := by
  unfold memoryIssues
  split
  · split <;> rfl
  · rfl

/-- The error is reported where the free disk is below the need. -/
theorem reportsError_preflight (disks : Disks) (scale : Int) (dataDir : Path) (engines : List Str)
    (facts : HostFacts) (force : Bool) :
    reportsError (preflight binary64 disks scale dataDir engines facts force) = true ↔
      force = false ∧ ∃ x ∈ disks.freeFor binary64 dataDir, x < neededGb scale := by
  have caveat : reportsError (caveats scale engines facts) = false :=
    @reports_caveats 'E' "RROR:".toList (by simp) scale engines facts
  have parts : reportsError (preflight binary64 disks scale dataDir engines facts force) =
      (reportsError (diskIssues binary64 dataDir scale (disks.freeFor binary64 dataDir) force) ||
        reportsError (memoryIssues scale (facts.availGb binary64)) ||
        reportsError (caveats scale engines facts)) := by
    simp only [reportsError, preflight, reports_append]
  rw [parts, caveat, reportsError_memory, Bool.or_false, Bool.or_false, reportsError_disk]

theorem warnsLowMemory_disk (dataDir : Path) (scale : Int) (free : Option ℚ) (force : Bool) :
    warnsLowMemory (diskIssues binary64 dataDir scale free force) = false := by
  unfold diskIssues
  split
  · rfl
  · split
    · rfl
    · split <;> rfl

theorem recommended_pos {scale recommended : Int}
    (h : get? scaleRamGbRecommended scale = some recommended) : 0 < recommended := by
  have all : ∀ p ∈ scaleRamGbRecommended, 0 < p.2 := by decide
  exact all _ (mem_of_get? h)

theorem warnsLowMemory_memory (scale : Int) (avail : Option ℚ) :
    warnsLowMemory (memoryIssues scale avail) = true ↔
      ∃ recommended ∈ get? scaleRamGbRecommended scale, ∃ gb ∈ avail, gb ≠ 0 ∧ gb < recommended := by
  unfold memoryIssues
  cases hr : get? scaleRamGbRecommended scale with
  | none => simp [warnsLowMemory]
  | some recommended =>
    have pos := (recommended_pos hr).ne'
    cases avail with
    | none => simp [warnsLowMemory]
    | some gb =>
      have warned : warnsLowMemory [lowMemory scale recommended gb] = true := rfl
      by_cases h : gb ≠ 0 ∧ gb < recommended
      · simpa [pos, h] using warned
      · simp [pos, h, warnsLowMemory]

/-- The warning is reported where the memory is known and below the recommendation. -/
theorem warnsLowMemory_preflight (disks : Disks) (scale : Int) (dataDir : Path) (engines : List Str)
    (facts : HostFacts) (force : Bool) :
    warnsLowMemory (preflight binary64 disks scale dataDir engines facts force) = true ↔
      ∃ recommended ∈ get? scaleRamGbRecommended scale,
        ∃ gb ∈ facts.availGb binary64, gb ≠ 0 ∧ gb < recommended := by
  have caveat : warnsLowMemory (caveats scale engines facts) = false :=
    @reports_caveats 'w' "arn: available memory ".toList (by simp) scale engines facts
  have parts : warnsLowMemory (preflight binary64 disks scale dataDir engines facts force) =
      (warnsLowMemory (diskIssues binary64 dataDir scale (disks.freeFor binary64 dataDir) force) ||
        warnsLowMemory (memoryIssues scale (facts.availGb binary64)) ||
        warnsLowMemory (caveats scale engines facts)) := by
    simp only [warnsLowMemory, preflight, reports_append]
  rw [parts, caveat, warnsLowMemory_disk, Bool.or_false, Bool.false_or, warnsLowMemory_memory]

/-- Only without `--force` the run is stopped, and then for want of disk. -/
theorem aborts_iff (disks : Disks) (scale : Int) (dataDir : Path) (engines : List Str)
    (facts : HostFacts) (force : Bool) :
    aborts (preflight binary64 disks scale dataDir engines facts force) force = true ↔
      force = false ∧ ∃ x ∈ disks.freeFor binary64 dataDir, x < neededGb scale := by
  rw [aborts, Bool.and_eq_true, reportsError_preflight]
  cases force <;> simp

/-! ## From one scale to a higher one -/

/-- The table asks for more disk at the lower scale than the formula does at the
higher one, and the free disk is in between. -/
def DiskGap (free : Option ℚ) (force : Bool) (s s' : Int) : Prop :=
  force = false ∧ get? scaleDiskGbBudget s' = none ∧
    ∃ budget ∈ get? scaleDiskGbBudget s, ∃ x ∈ free, (untabledGb s' : ℚ) ≤ x ∧ x < budget

/-- Too little memory is known of, for the lower scale only. -/
def MemoryGap (avail : Option ℚ) (s s' : Int) : Prop :=
  get? scaleRamGbRecommended s' = none ∧
    ∃ recommended ∈ get? scaleRamGbRecommended s, ∃ gb ∈ avail, gb ≠ 0 ∧ gb < recommended

theorem ascending_disk : Ascending scaleDiskGbBudget := by decide

theorem ascending_ram : Ascending scaleRamGbRecommended := by decide

theorem monotone_untabledGb : Monotone untabledGb := fun s s' hs => by
  simp only [untabledGb]
  omega

/-- The table has four times the scale, and the formula twice. -/
theorem budget_eq {scale budget : Int} (h : get? scaleDiskGbBudget scale = some budget) :
    budget = 4 * scale ∧ (scale = 1 ∨ 10 ≤ scale) := by
  have all : ∀ p ∈ scaleDiskGbBudget, p.2 = 4 * p.1 ∧ (p.1 = 1 ∨ 10 ≤ p.1) := by decide
  exact all _ (mem_of_get? h)

theorem untabledGb_le {scale budget : Int} (h : get? scaleDiskGbBudget scale = some budget) :
    untabledGb scale ≤ budget := by
  obtain ⟨rfl, hscale⟩ := budget_eq h
  simp only [untabledGb]
  omega

/-- The gap is less than a factor of two wide, and the smallest scale has none. -/
theorem DiskGap.scales {free : Option ℚ} {force : Bool} {s s' : Int} (h : DiskGap free force s s') :
    10 ≤ s ∧ s' < 2 * s := by
  obtain ⟨-, -, budget, hbudget, x, -, hle, hlt⟩ := h
  obtain ⟨rfl, hscale⟩ := budget_eq hbudget
  have between : untabledGb s' < 4 * s := by exact_mod_cast hle.trans_lt hlt
  simp only [untabledGb] at between
  omega

theorem disk_imp_iff (free : Option ℚ) (force : Bool) {s s' : Int} (hs : s ≤ s') :
    ((force = false ∧ ∃ x ∈ free, x < neededGb s) → force = false ∧ ∃ x ∈ free, x < neededGb s') ↔
      ¬ DiskGap free force s s' := by
  have unmet : Monotone fun n : Int => force = false ∧ ∃ x ∈ free, x < n := by
    rintro n n' hn ⟨hforce, x, hx, hlt⟩
    exact ⟨hforce, x, hx, hlt.trans_le (by exact_mod_cast hn)⟩
  have gap := unmet_demand_imp_iff unmet ascending_disk monotone_untabledGb
    (fun n' h => untabledGb_le h) hs
  rw [neededGb, neededGb, gap, not_iff_not, DiskGap]
  cases free with
  | none => simp
  | some x =>
    cases force with
    | true => simp
    | false => simp [and_comm]

theorem memory_imp_iff (avail : Option ℚ) {s s' : Int} (hs : s ≤ s') :
    ((∃ recommended ∈ get? scaleRamGbRecommended s,
        ∃ gb ∈ avail, gb ≠ 0 ∧ gb < (recommended : ℚ)) →
      ∃ recommended ∈ get? scaleRamGbRecommended s',
        ∃ gb ∈ avail, gb ≠ 0 ∧ gb < (recommended : ℚ)) ↔ ¬ MemoryGap avail s s' := by
  have unmet : Monotone fun n : Int => ∃ gb ∈ avail, gb ≠ 0 ∧ gb < (n : ℚ) := by
    rintro n n' hn ⟨gb, hgb, hne, hlt⟩
    exact ⟨gb, hgb, hne, hlt.trans_le (by exact_mod_cast hn)⟩
  exact unmet_imp_iff unmet ascending_ram hs

/-- **A higher scale keeps the error and the warning of a lower one exactly when
the two do not fall into a gap of the tables**: a scale of the table and a higher
one that is not in it. -/
theorem preflight_monotone_iff (disks : Disks) (dataDir dataDir' : Path) (engines engines' : List Str)
    (facts : HostFacts) (force : Bool) {s s' : Int} (hs : s ≤ s')
    (hfree : disks.freeFor binary64 dataDir' = disks.freeFor binary64 dataDir) :
    ((reportsError (preflight binary64 disks s dataDir engines facts force) = true →
        reportsError (preflight binary64 disks s' dataDir' engines' facts force) = true) ∧
      (warnsLowMemory (preflight binary64 disks s dataDir engines facts force) = true →
        warnsLowMemory (preflight binary64 disks s' dataDir' engines' facts force) = true)) ↔
      ¬ DiskGap (disks.freeFor binary64 dataDir) force s s' ∧
        ¬ MemoryGap (facts.availGb binary64) s s' := by
  rw [reportsError_preflight, reportsError_preflight, warnsLowMemory_preflight,
    warnsLowMemory_preflight, hfree, disk_imp_iff _ _ hs, memory_imp_iff _ hs]

/-- 30 GB free, on every path. -/
def thirtyGb : Disks := ⟨[], fun _ => true, fun _ => some (30 * 2 ^ 18, 4096)⟩

/-- 8 GB of memory, and no limit for the cgroup. -/
def eightGb : HostFacts := { cgroup := some {}, memory := some { memTotal := some (8 * 2 ^ 20) } }

def tpchDir (scale : Int) : Path := ["data".toList, "tpch_sf".toList ++ scale.repr.toList]

/-- From one entry of the tables to another, nothing is lost. -/
theorem preflight_monotone_thirty :
    (reportsError (preflight id thirtyGb 10 (tpchDir 10) [] eightGb false) = true →
        reportsError (preflight id thirtyGb 30 (tpchDir 30) [] eightGb false) = true) ∧
      (warnsLowMemory (preflight id thirtyGb 10 (tpchDir 10) [] eightGb false) = true →
        warnsLowMemory (preflight id thirtyGb 30 (tpchDir 30) [] eightGb false) = true) := by
  refine (preflight_monotone_iff id thirtyGb (tpchDir 10) (tpchDir 30) [] [] eightGb false
    (by decide) rfl).mpr ⟨fun h => ?_, fun h => ?_⟩
  · cases h.2.1
  · cases h.1

/-- One step above an entry both are lost: 11 asks for 22 GB of disk where 10 asks
for 40, and for no memory. -/
theorem preflight_not_monotone :
    (reportsError (preflight id thirtyGb 10 (tpchDir 10) [] eightGb false) = true ∧
        reportsError (preflight id thirtyGb 11 (tpchDir 11) [] eightGb false) = false) ∧
      (warnsLowMemory (preflight id thirtyGb 10 (tpchDir 10) [] eightGb false) = true ∧
        warnsLowMemory (preflight id thirtyGb 11 (tpchDir 11) [] eightGb false) = false) := by
  have free : ∀ scale, thirtyGb.freeFor id (tpchDir scale) = some 30 := by
    intro scale
    norm_num [Disks.freeFor, Disks.freeGb, thirtyGb]
  have avail : eightGb.availGb id = some 8 := by
    norm_num [HostFacts.availGb, Memory.availGb, eightGb]
  have ten : neededGb 10 = 40 := rfl
  have eleven : neededGb 11 = 22 := rfl
  have sixteen : get? scaleRamGbRecommended 10 = some 16 := rfl
  have nothing : get? scaleRamGbRecommended 11 = none := rfl
  refine ⟨⟨?_, ?_⟩, ?_, ?_⟩
  · rw [reportsError_preflight, free, ten]
    exact ⟨rfl, 30, rfl, by norm_num⟩
  · rw [← Bool.not_eq_true, reportsError_preflight, free, eleven]
    norm_num
  · rw [warnsLowMemory_preflight, avail, sixteen]
    exact ⟨16, rfl, 8, rfl, by norm_num, by norm_num⟩
  · rw [← Bool.not_eq_true, warnsLowMemory_preflight, nothing]
    nofun

end DeltaForgeBench.Runner.Preflight
