import DeltaForgeBench.Base.Dict
import DeltaForgeBench.Base.Sorted
import DeltaForgeBench.Runner.RunWorkload
import Mathlib.Data.Rat.Floor

/-! # The per-run report

`cellize` groups the records by workload, engine and step and keeps, for each
cell, the times of its successful runs and the hash of the first one;
`correctness_check` compares the hashes of one step across engines. -/
namespace DeltaForgeBench.Reports.GenerateReport
open DeltaForgeBench.Base.Text DeltaForgeBench.Base.Dict DeltaForgeBench.Base.Sorted
open DeltaForgeBench.Runner.RunWorkload

/-- `s[i]` of a list, a negative index counting from its end; `none` is the `IndexError`. -/
def item {α : Type} (s : List α) (i : Int) : Option α :=
  if 0 ≤ i then s[i.toNat]?
  else if -(s.length : Int) ≤ i then s[(s.length + i).toNat]?
  else none

/-- `percentile`; `none` is the not-a-number of an empty list. -/
def percentile (values : List ℚ) (p : ℚ) : Option ℚ :=
  if values = [] then none
  else
    let s := sorted values
    if s.length = 1 then item s 0
    else
      let rank := p / 100 * (s.length - 1)
      let lo := ⌊rank⌋
      let hi := ⌈rank⌉
      if lo = hi then item s lo
      else do
        let a ← item s lo
        let b ← item s hi
        return a + (b - a) * (rank - lo)

structure CellKey where
  workload : Str
  engine : Str
  stepId : Str
  deriving DecidableEq

structure CellStats where
  key : CellKey
  coldMs : List ℚ
  warmMs : List ℚ
  failures : Nat
  rowsReturned : List Int
  resultSha256 : Option Str
  deriving DecidableEq

def CellStats.warmMin (c : CellStats) : Option ℚ := c.warmMs.min?
def CellStats.warmMedian (c : CellStats) : Option ℚ := median c.warmMs
def CellStats.coldMedian (c : CellStats) : Option ℚ := median c.coldMs
def CellStats.coldN (c : CellStats) : Nat := c.coldMs.length

def recordKey (r : Record) : CellKey := ⟨r.workload, r.engine, r.stepId⟩

def succeeded (r : Record) : Bool := r.exitCode == 0

/-- The value of a field that Python would call true. -/
def truthy (s : Option Str) : Option Str := s.filter (· ≠ [])

/-- `next((sha of r for r in recs if sha and exit_code == 0), None)`. -/
def firstSha (recs : List Record) : Option Str :=
  recs.findSome? fun r => if succeeded r then truthy r.resultSha256 else none

/-- One cell of `cellize`. -/
def cellStats (key : CellKey) (recs : List Record) : CellStats where
  key := key
  coldMs := (recs.filter fun r => r.cold && succeeded r).map (·.wallMs)
  warmMs := (recs.filter fun r => !r.cold && succeeded r).map (·.wallMs)
  failures := recs.countP fun r => !succeeded r
  rowsReturned := recs.filterMap (·.rowsReturned)
  resultSha256 := firstSha recs

/-- `cellize`: the cells by their key, in the order of first appearance. -/
def cellize (records : List Record) : List (CellKey × CellStats) :=
  (groupBy recordKey records).map fun (key, recs) => (key, cellStats key recs)

/-- The records of one cell. -/
def recordsOf (records : List Record) (key : CellKey) : List Record :=
  records.filter fun r => recordKey r = key

theorem get?_cellize (records : List Record) (key : CellKey) :
    get? (cellize records) key =
      if recordsOf records key = [] then none
      else some (cellStats key (recordsOf records key)) := by
  rw [cellize, get?_map, get?_groupBy]
  unfold recordsOf
  split <;> rfl

theorem mem_cellize_iff {records : List Record} {key : CellKey} {c : CellStats} :
    (key, c) ∈ cellize records ↔
      c = cellStats key (recordsOf records key) ∧ recordsOf records key ≠ [] := by
  simp only [cellize, List.mem_map, Prod.exists, Prod.mk.injEq]
  constructor
  · intro h
    obtain ⟨k, recs, hmem, rfl, rfl⟩ := h
    obtain ⟨rfl, hne⟩ := mem_groupBy_iff.mp hmem
    exact ⟨rfl, hne⟩
  · intro h
    obtain ⟨rfl, hne⟩ := h
    exact ⟨key, _, mem_groupBy_iff.mpr ⟨rfl, hne⟩, rfl, rfl⟩

/-! ## The correctness check -/

/-- The hashes of one step, by engine. -/
abbrev EngineHashes := List (Str × Str)

/-- One cell of the loop that fills `by_step`. -/
def addCell (byStep : List ((Str × Str) × EngineHashes)) (c : CellStats) :
    List ((Str × Str) × EngineHashes) :=
  match truthy c.resultSha256 with
  | none => byStep
  | some sha =>
    let step := (c.key.workload, c.key.stepId)
    set byStep step (set ((get? byStep step).getD []) c.key.engine sha)

def byStep (cells : List (CellKey × CellStats)) : List ((Str × Str) × EngineHashes) :=
  (cells.map Prod.snd).foldl addCell []

/-- `len(set(engine_hashes.values())) > 1`. -/
def disagree (hashes : EngineHashes) : Bool := 1 < (hashes.map Prod.snd).dedup.length

/-- The steps the check reports, with the hashes it found. -/
def discrepancies (cells : List (CellKey × CellStats)) : List ((Str × Str) × EngineHashes) :=
  (byStep cells).filter fun entry => disagree entry.2

/-- `", ".join(f"{e}={h[:12]}" for e, h in sorted(engine_hashes.items()))`; the
engines of a dict are distinct, so the hashes never decide the order. -/
def hashDetails (hashes : EngineHashes) : Str :=
  join ", ".toList ((hashes.insertionSort fun a b => a.1 ≤ b.1).map fun (engine, sha) =>
    engine ++ ['='] ++ sha.take 12)

def issueText (entry : (Str × Str) × EngineHashes) : Str :=
  entry.1.1 ++ " / ".toList ++ entry.1.2 ++ ": ".toList ++ hashDetails entry.2

/-- `correctness_check`. -/
def correctnessCheck (cells : List (CellKey × CellStats)) : List Str :=
  (discrepancies cells).map issueText

/-! ## What the check sees -/

/-- The hash `by_step` holds for an engine on a step. -/
def hashOf (cells : List (CellKey × CellStats)) (step : Str × Str) (engine : Str) : Option Str :=
  get? ((get? (byStep cells) step).getD []) engine

/-- The cell's contribution to one engine on one step. -/
def shaFor (step : Str × Str) (engine : Str) (c : CellStats) : Option Str :=
  if (c.key.workload, c.key.stepId) = step ∧ c.key.engine = engine then truthy c.resultSha256
  else none

theorem addCell_hash (d : List ((Str × Str) × EngineHashes)) (c : CellStats) (step : Str × Str)
    (engine : Str) :
    get? ((get? (addCell d c) step).getD []) engine =
      (shaFor step engine c).or (get? ((get? d step).getD []) engine) := by
  unfold addCell shaFor
  cases truthy c.resultSha256 with
  | none => simp
  | some sha =>
    by_cases hstep : (c.key.workload, c.key.stepId) = step
    · by_cases hengine : c.key.engine = engine
      · simp [get?_set, hstep, hengine]
      · simp [get?_set, hstep, hengine]
    · simp [get?_set, hstep]

theorem hashOf_eq (cells : List (CellKey × CellStats)) (step : Str × Str) (engine : Str) :
    hashOf cells step engine = ((cells.map Prod.snd).filterMap (shaFor step engine)).getLast? := by
  have h := foldl_last_write (f := fun d => get? ((get? d step).getD []) engine)
    (fun d c => addCell_hash d c step engine) (cells.map Prod.snd) []
  simpa [hashOf, byStep, get?] using h

theorem nodup_keys_cellize (records : List Record) :
    ((cellize records).map Prod.fst).Nodup := by
  have h := nodup_keys_groupBy recordKey records
  rw [cellize, List.map_map]
  exact h

/-- The check holds for an engine the first hash among its records of the step. -/
theorem hashOf_cellize (records : List Record) (workload stepId engine : Str) :
    hashOf (cellize records) (workload, stepId) engine =
      truthy (firstSha (recordsOf records ⟨workload, engine, stepId⟩)) := by
  have byKey : ((cellize records).map Prod.snd).filterMap (shaFor (workload, stepId) engine) =
      (cellize records).filterMap fun (key, c) =>
        if key = ⟨workload, engine, stepId⟩ then truthy c.resultSha256 else none := by
    rw [List.filterMap_map]
    refine List.filterMap_congr fun ⟨key, c⟩ hmem => ?_
    obtain ⟨rfl, -⟩ := mem_cellize_iff.mp hmem
    obtain ⟨w, e, s⟩ := key
    simp only [Function.comp_apply, shaFor, cellStats, Prod.mk.injEq, CellKey.mk.injEq]
    congr 1
    exact propext ⟨fun h => ⟨h.1.1, h.2, h.1.2⟩, fun h => ⟨⟨h.1, h.2.2⟩, h.2.1⟩⟩
  have pick := filterMap_key (fun c : CellStats => truthy c.resultSha256)
    (nodup_keys_cellize records) ⟨workload, engine, stepId⟩
  rw [hashOf_eq, byKey, pick, get?_cellize]
  split
  · rename_i hnil
    simp [hnil, firstSha, truthy]
  · cases h : truthy (firstSha (recordsOf records ⟨workload, engine, stepId⟩)) <;>
      simp [cellStats, h]

/-- Every dict has each key once. -/
def DistinctKeys (d : List ((Str × Str) × EngineHashes)) : Prop :=
  (d.map Prod.fst).Nodup ∧ ∀ entry ∈ d, (entry.2.map Prod.fst).Nodup

theorem addCell_distinctKeys {d : List ((Str × Str) × EngineHashes)} (h : DistinctKeys d)
    (c : CellStats) : DistinctKeys (addCell d c) := by
  obtain ⟨outer, inner⟩ := h
  unfold addCell
  split
  · exact ⟨outer, inner⟩
  · refine ⟨nodup_keys_set outer _ _, ?_⟩
    intro entry hmem
    obtain ⟨step, hashes⟩ := entry
    have hget := (get?_eq_some_iff (nodup_keys_set outer _ _)).mpr hmem
    rw [get?_set] at hget
    split at hget
    · rw [← Option.some.inj hget]
      refine nodup_keys_set ?_ _ _
      cases hd : get? d (c.key.workload, c.key.stepId) with
      | none => simp
      | some old => exact inner _ ((get?_eq_some_iff outer).mp hd)
    · exact inner _ ((get?_eq_some_iff outer).mp hget)

theorem byStep_distinctKeys (cells : List (CellKey × CellStats)) : DistinctKeys (byStep cells) := by
  unfold byStep
  induction cells.map Prod.snd using List.reverseRecOn with
  | nil => exact ⟨by simp, by simp⟩
  | append_singleton l c ih =>
    rw [List.foldl_append]
    exact addCell_distinctKeys ih c

theorem one_lt_dedup_iff {α : Type*} [DecidableEq α] {l : List α} :
    1 < l.dedup.length ↔ ∃ a ∈ l, ∃ b ∈ l, a ≠ b := by
  constructor
  · intro h
    have hnd := l.nodup_dedup
    match hl : l.dedup, h with
    | a :: b :: _, _ =>
      rw [hl] at hnd
      refine ⟨a, List.mem_dedup.mp (by simp [hl]), b, List.mem_dedup.mp (by simp [hl]), ?_⟩
      intro e
      subst e
      simp at hnd
  · intro h
    obtain ⟨a, ha, b, hb, hne⟩ := h
    by_contra hlt
    match hl : l.dedup with
    | [] => simpa [hl] using List.mem_dedup.mpr ha
    | [x] =>
      have hax : a = x := by simpa [hl] using List.mem_dedup.mpr ha
      have hbx : b = x := by simpa [hl] using List.mem_dedup.mpr hb
      exact hne (hax.trans hbx.symm)
    | x :: y :: rest => simp [hl] at hlt

/-- A step is reported exactly when two engines hold different hashes for it. -/
theorem discrepancy_iff (cells : List (CellKey × CellStats)) (step : Str × Str) :
    (∃ entry ∈ discrepancies cells, entry.1 = step) ↔
      ∃ a b x y, hashOf cells step a = some x ∧ hashOf cells step b = some y ∧ x ≠ y := by
  obtain ⟨outer, inner⟩ := byStep_distinctKeys cells
  simp only [discrepancies, List.mem_filter, disagree, decide_eq_true_eq, one_lt_dedup_iff,
    List.mem_map]
  constructor
  · intro h
    obtain ⟨⟨step', hashes⟩, ⟨hmem, _, ⟨⟨a, _⟩, ha, rfl⟩, _, ⟨⟨b, _⟩, hb, rfl⟩, hne⟩, rfl⟩ := h
    have hget := (get?_eq_some_iff outer).mpr hmem
    have hnd := inner _ hmem
    exact ⟨a, b, _, _, by rw [hashOf, hget]; exact (get?_eq_some_iff hnd).mpr ha,
      by rw [hashOf, hget]; exact (get?_eq_some_iff hnd).mpr hb, hne⟩
  · intro h
    obtain ⟨a, b, x, y, hx, hy, hne⟩ := h
    unfold hashOf at hx hy
    cases hget : get? (byStep cells) step with
    | none => simp [hget] at hx
    | some hashes =>
      rw [hget] at hx hy
      have hmem := (get?_eq_some_iff outer).mp hget
      have hnd := inner _ hmem
      exact ⟨(step, hashes), ⟨hmem, x, ⟨(a, x), (get?_eq_some_iff hnd).mp hx, rfl⟩, y,
        ⟨(b, y), (get?_eq_some_iff hnd).mp hy, rfl⟩, hne⟩, rfl⟩

end DeltaForgeBench.Reports.GenerateReport
