import DeltaForgeBench.Reports.Cells
import DeltaForgeBench.Runner.Parent

/-! # From a run to its table

The parent's children leave their record files, the report reads them back and
puts every record into a cell. Whatever became of the children and of their
workloads, a row of the table never counts more runs than were scheduled, and it
counts all of them where the workload came to its end. -/
namespace DeltaForgeBench.Reports.RunTable
open DeltaForgeBench.Base.Text DeltaForgeBench.Base.Dict DeltaForgeBench.Base.TextFiles
open DeltaForgeBench.Base.Interrupt DeltaForgeBench.Base.JsonText
open DeltaForgeBench.Engines.Base DeltaForgeBench.Workloads.Spec
open DeltaForgeBench.Runner.RunWorkload DeltaForgeBench.Runner.Schedule
open DeltaForgeBench.Runner.PartialFiles DeltaForgeBench.Runner.Children
open DeltaForgeBench.Runner.Parent
open DeltaForgeBench.Reports.GenerateReport DeltaForgeBench.Reports.Cells

variable {ν : Type} {number : Str → ν} {N : Numbers number}

/-! ## Counting the schedule -/

/-- How many measured steps of a workload have this id. -/
def stepCount (job : Job) (stepId : Str) : Nat :=
  job.workload.measuredSteps.countP fun step => step.id = stepId

theorem countP_schedule (job : Job) (stepId : Str) (p : Nat → Bool) :
    (schedule job).countP (fun slot => decide (slot.1.id = stepId) && p slot.2) =
      stepCount job stepId * job.runs.countP p := by
  unfold schedule stepCount
  induction job.workload.measuredSteps with
  | nil => simp
  | cons step rest ih =>
    rw [List.flatMap_cons, List.countP_append, ih, List.countP_map]
    by_cases hid : step.id = stepId
    · have one : ((fun slot : WorkloadStep × Nat => decide (slot.1.id = stepId) && p slot.2) ∘
          fun runIdx => (step, runIdx)) = p := by
        funext i
        simp [hid]
      rw [one, List.countP_cons_of_pos (by simpa using hid)]
      ring
    · have one : ((fun slot : WorkloadStep × Nat => decide (slot.1.id = stepId) && p slot.2) ∘
          fun runIdx => (step, runIdx)) = fun _ => false := by
        funext i
        simp [hid]
      rw [one, List.countP_cons_of_neg (by simpa using hid)]
      simp

/-- The runs behind some records, in the order of the schedule. -/
def Follows (job : Job) (runs : List Run) (records : List Record) : Prop :=
  records = runs.map (·.record job) ∧ runs.map Run.slot <+: schedule job

/-- The records of a step, by what their run index says. -/
theorem Follows.countP {job : Job} {runs : List Run} {records : List Record}
    (h : Follows job runs records) (stepId : Str) (p : Bool → Bool) :
    records.countP (fun r => decide (r.stepId = stepId) && p r.cold) =
      (runs.map Run.slot).countP fun slot => decide (slot.1.id = stepId) && p (job.isCold slot.2) := by
  rw [h.1, List.countP_map, List.countP_map]
  rfl

theorem Follows.le {job : Job} {runs : List Run} {records : List Record}
    (h : Follows job runs records) (stepId : Str) (p : Bool → Bool) :
    records.countP (fun r => decide (r.stepId = stepId) && p r.cold) ≤
      stepCount job stepId * job.runs.countP fun i => p (job.isCold i) := by
  rw [h.countP, ← countP_schedule job stepId fun i => p (job.isCold i)]
  exact h.2.sublist.countP_le

theorem Follows.full {job : Job} {runs : List Run} {records : List Record}
    (h : Follows job runs records) (hall : runs.map Run.slot = schedule job) (stepId : Str) :
    records.countP (fun r => decide (r.stepId = stepId)) =
      stepCount job stepId * (job.workload.coldRuns + job.workload.warmRuns) := by
  have counted := h.countP stepId fun _ => true
  rw [hall, countP_schedule job stepId fun _ => true] at counted
  simpa [Job.runs] using counted

theorem whole_all {ρ : Type} {text : ρ → Str} {records : List ρ} {n : Nat}
    (h : (written text records).length ≤ n) : whole text n records = records ∧
      torn text n records = [] := by
  induction records generalizing n with
  | nil => exact ⟨rfl, rfl⟩
  | cons r rest ih =>
    simp only [written, List.flatMap_cons, List.length_append, List.length_singleton] at h
    have hr : (text r).length ≤ n := by omega
    obtain ⟨hwhole, htorn⟩ := @ih (n - ((text r).length + 1)) (by rw [written]; omega)
    simp [whole, torn, hr, hwhole, htorn]

/-- `load_records` has the records of a file that was not cut. -/
theorem loadRecords_written (N : Numbers number) (files : List (List Record)) :
    loadRecords number (files.map fun rs => encode (written (recordText N) rs)) =
      some (files.flatten.map (recordJson N)) := by
  let cut (rs : List Record) : Cut :=
    ⟨rs, (encode (written (recordText N) rs)).length + (written (recordText N) rs).length⟩
  have all : ∀ rs, whole (recordText N) (cut rs).bytes rs = rs ∧ (cut rs).Clean N :=
    fun rs => whole_all (Nat.le_add_left _ _)
  have file : ∀ rs, (cut rs).file N = encode (written (recordText N) rs) :=
    fun rs => List.take_of_length_le (Nat.le_add_right _ _)
  have read := (loadRecords_iff N (files.map cut)).mpr fun c hc => by
    obtain ⟨rs, -, rfl⟩ := List.mem_map.mp hc
    exact (all rs).2
  rw [List.map_map, List.flatMap_map] at read
  have jsons : (files.flatMap fun rs => ((cut rs).whole N).map (recordJson N)) =
      files.flatten.map (recordJson N) := by
    rw [List.map_flatten, List.flatMap]
    refine congrArg List.flatten (List.map_congr_left fun rs _ => ?_)
    show (whole (recordText N) (cut rs).bytes rs).map (recordJson N) = _
    rw [(all rs).1]
  rw [← jsons, ← read]
  exact congrArg _ (List.map_congr_left fun rs _ => (file rs).symm)

variable (N) (plan : Plan) (children : List (Str × Behaviour ν))

/-- What was written to `raw/<engine>.jsonl`. -/
def fileWrites (engine : Str) : List Write :=
  ((lastOpened N plan children engine).map fun b => writesOf (actsOf N plan engine b)).getD []

/-- The records under `raw/<engine>.jsonl`. -/
def fileRecords (engine : Str) : List Record :=
  (fileWrites N plan children engine).filterMap Write.record?

/-- The files `raw/*.jsonl` of the run, by their engines in any order. -/
structure Listing where
  engines : List Str
  nodup : engines.Nodup
  all : ∀ engine, engine ∈ engines ↔ (((loop N plan children).raw engine).jsonl).isSome = true

variable {N plan children}

def Listing.files (l : Listing N plan children) : List (List UInt8) :=
  l.engines.map fun engine => encode ((((loop N plan children).raw engine).jsonl).getD [])

def Listing.records (l : Listing N plan children) : List Record :=
  l.engines.flatMap (fileRecords N plan children)

theorem Listing.files_eq (l : Listing N plan children) :
    l.files = l.engines.map fun engine => encode (contents N (fileWrites N plan children engine)) := by
  refine List.map_congr_left fun engine _ => ?_
  rw [loop_jsonl, fileWrites]
  cases lastOpened N plan children engine <;> rfl

/-- No write of a record was cut short. -/
def Listing.Whole (l : Listing N plan children) : Prop :=
  ∀ engine ∈ l.engines, ∀ w ∈ fileWrites N plan children engine, ∃ rec, w = .line rec

theorem Listing.loaded (l : Listing N plan children) (h : l.Whole) :
    loadRecords number l.files = some (l.records.map (recordJson N)) := by
  have lines : ∀ writes : List Write, (∀ w ∈ writes, ∃ rec, w = .line rec) →
      writes = (writes.filterMap Write.record?).map .line := by
    intro writes
    induction writes with
    | nil => exact fun _ => rfl
    | cons w rest ih =>
      intro hw
      obtain ⟨⟨rec, rfl⟩, hrest⟩ := List.forall_mem_cons.mp hw
      show _ = Write.line rec :: (rest.filterMap Write.record?).map Write.line
      rw [← ih hrest]
  have files : l.files =
      (l.engines.map (fileRecords N plan children)).map fun rs => encode (written (recordText N) rs) := by
    rw [l.files_eq, List.map_map]
    refine List.map_congr_left fun engine hengine => ?_
    rw [lines _ (h engine hengine), contents_lines]
    rfl
  rw [files, loadRecords_written]
  rfl

end DeltaForgeBench.Reports.RunTable
