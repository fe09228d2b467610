import DeltaForgeBench.Base.Dict
import DeltaForgeBench.Base.Numeral
import DeltaForgeBench.Base.Sorted
import Mathlib.Data.List.ReduceOption

/-! # The scale-out curve

Every stream of a run leaves a record file. The aggregator pools the times of
the queries that succeeded by level of concurrency, and prints one row for each
query and level. -/
namespace DeltaForgeBench.ScaleOut.Aggregate
open DeltaForgeBench.Base.Text DeltaForgeBench.Base.Dict DeltaForgeBench.Base.Sorted
open DeltaForgeBench.Base.Numeral

/-! ## One stream -/

/-- What the reader asks of a record; a field may be absent. -/
structure TimingRecord where
  stepKind : Option Str
  stepId : Option Str
  exitCode : Option Int
  wallMs : Option ℚ
  cold : Bool

/-- The lines of a record file; `none` is a line that is no record. -/
abbrev Lines := List (Option TimingRecord)

/-- `rec.get("step_kind") in (None, "sql_query")`. -/
def TimingRecord.isQuery (r : TimingRecord) : Bool :=
  r.stepKind = none || r.stepKind = some "sql_query".toList

/-- `rec.get("exit_code", 0) == 0`. -/
def TimingRecord.ok (r : TimingRecord) : Bool := r.exitCode.getD 0 = 0

abbrev Timings := List (Str × ℚ)

/-- One line of the loop in `load_query_timings`; `none` when it raises. -/
def timingStep (timings : Timings) (line : Option TimingRecord) : Option Timings := do
  let r ← line
  if !r.isQuery then return timings
  let qid ← r.stepId
  if !r.ok then return timings
  let wall ← r.wallMs
  match get? timings qid with
  | some _ => return if r.cold then timings else set timings qid wall
  | none => return set timings qid wall

/-- `load_query_timings`. -/
def loadQueryTimings (lines : Lines) : Option Timings := lines.foldlM timingStep []

/-! ## The directories of a run -/

/-- `_STREAM_DIR_RE` and the groups it captures, on names in ASCII digits. -/
def parseStreamDir (name : Str) : Option (Nat × Str × Nat) := do
  let rest ← name.dropPrefix? "scaleout_n".toList
  let (n, rest) := rest.span isDigit
  let rest ← rest.dropPrefix? ['_']
  let (ts, rest) := rest.splitAt 16
  let rest ← rest.dropPrefix? "_s".toList
  let (i, rest) := rest.span isDigit
  let stamp := (ts.take 8).all isDigit && (ts.drop 8).take 1 = ['T'] &&
    ((ts.drop 9).take 6).all isDigit && ts.drop 15 = ['Z']
  if n ≠ [] ∧ stamp ∧ i ≠ [] ∧ (rest = [] ∨ rest = ['\n']) then
    some (digitsValue n, ts, digitsValue i)
  else none

/-- An entry of the results root, with the record files below it by path. -/
structure Entry where
  name : Str
  isDir : Bool
  jsonl : List Lines

/-- `discover_jsonl`: the latest one. -/
def discoverJsonl (e : Entry) : Option Lines := e.jsonl.getLast?

/-- `sorted({int(x) for x in n_values})`, which must start at the baseline. -/
def nValues (asked : List Int) : Option (List Int) :=
  let levels := sorted asked.dedup
  if levels.head? = some 1 then some levels else none

abbrev Samples := List ((Str × Int) × List ℚ)

/-- `samples[(qid, n)].append(wall_ms)`. -/
def addSample (n : Int) (samples : Samples) (timing : Str × ℚ) : Samples :=
  set samples (timing.1, n) (((get? samples (timing.1, n)).getD []) ++ [timing.2])

/-- One entry of the loop over the results root; `none` when it raises. -/
def collectStep (runTs : Str) (levels : List Int) (samples : Samples) (e : Entry) :
    Option Samples :=
  if !e.isDir then some samples
  else match parseStreamDir e.name with
    | none => some samples
    | some (n, ts, _) =>
      if ts ≠ runTs ∨ (n : Int) ∉ levels then some samples
      else match discoverJsonl e with
        | none => some samples
        | some lines => (loadQueryTimings lines).map fun timings =>
          timings.foldl (addSample n) samples

/-! ## The rows -/

/-- `round(x, k)` before its result is a number of the machine. -/
def rounded (k : Nat) (x : ℚ) : ℚ := roundHalfEven (x * 10 ^ k) / 10 ^ k

structure Row where
  queryId : Str
  n : Int
  samples : Nat
  streamsAttempted : Int
  completionRate : ℚ
  p50Ms : Option ℚ
  p95Ms : Option ℚ
  p50BaselineN1Ms : Option ℚ
  ratioP50VsN1 : Option ℚ
  flat : Option Bool

/-- `FLATNESS_THRESHOLD` as it is written. -/
def flatnessThreshold : ℚ := 11 / 10

section Arithmetic
-- what becomes of the exact result of an operation: `binary64` on the machine,
-- `id` in exact arithmetic
variable (fl : ℚ → ℚ)

/-- `percentile`; `none` is the not-a-number of an empty list. -/
def percentileOn (values : List ℚ) (pct : ℚ) : Option ℚ :=
  match values with
  | [] => none
  | [v] => some v
  | _ => do
    let s := sorted values
    let k := fl ((s.length - 1 : ℚ) * fl (pct / 100))
    let lo := (truncate k).toNat
    let frac := fl (k - lo)
    let a ← s[lo]?
    let b ← s[min (lo + 1) (s.length - 1)]?
    return fl (fl (a * fl (1 - frac)) + fl (b * frac))

/-- The row of a query at a level, `expected_streams[n]` being `n` itself. -/
def rowOn (samples : Samples) (qid : Str) (n : Int) : Row :=
  let vals := (get? samples (qid, n)).getD []
  let p50 := percentileOn fl vals 50
  let base := percentileOn fl ((get? samples (qid, 1)).getD []) 50
  let ratio := match p50, base with
    | some p, some b => if 0 < b then some (fl (p / b)) else none
    | _, _ => none
  { queryId := qid
    n := n
    samples := vals.length
    streamsAttempted := n
    completionRate := fl (rounded 3 (if n = 0 then 0 else fl (vals.length / n)))
    p50Ms := p50.map fun x => fl (rounded 2 x)
    p95Ms := (percentileOn fl vals 95).map fun x => fl (rounded 2 x)
    p50BaselineN1Ms := base.map fun x => fl (rounded 2 x)
    ratioP50VsN1 := ratio.map fun x => fl (rounded 3 x)
    flat := ratio.map fun x => decide (x ≤ fl flatnessThreshold) }

/-- `aggregate`: a row for every query of the universe and every level. -/
def aggregateOn (samples : Samples) (levels : List Int) (allQueryIds : List Str) : List Row :=
  (sorted allQueryIds).flatMap fun qid => (sorted levels).map fun n => rowOn fl samples qid n

end Arithmetic

/-- `percentile` in exact arithmetic. -/
def percentile : List ℚ → ℚ → Option ℚ := percentileOn id

/-- The row in exact arithmetic. -/
def rowOf : Samples → Str → Int → Row := rowOn id

/-- `aggregate` in exact arithmetic. -/
def aggregate : Samples → List Int → List Str → List Row := aggregateOn id

inductive Exit
  | usage | raised | noRecords
  deriving DecidableEq

/-- The rows `main` writes from the sorted entries of the results root. -/
def main (asked : List Int) (runTs : Str) (root : List Entry) : Except Exit (List Row) :=
  match nValues asked with
  | none => .error .usage
  | some levels =>
    match root.foldlM (collectStep runTs levels) [] with
    | none => .error .raised
    | some samples =>
      let allQueryIds := (samples.map fun s => s.1.1).dedup
      if allQueryIds = [] then .error .noRecords
      else .ok (aggregate samples levels allQueryIds)

/-! ## What a stream contributes -/

/-- A query record of the query, successful or not. -/
def Occurs (q : Str) (lines : Lines) : Prop :=
  ∃ r ∈ lines.reduceOption, r.isQuery = true ∧ r.stepId = some q

/-- A successful query record of the query. -/
def Succeeds (q : Str) (lines : Lines) : Prop :=
  ∃ r ∈ lines.reduceOption, r.isQuery = true ∧ r.stepId = some q ∧ r.ok = true

instance (q : Str) : DecidablePred (Succeeds q) := fun lines =>
  inferInstanceAs (Decidable (∃ r ∈ lines.reduceOption, _))

theorem Succeeds.occurs {q : Str} {lines : Lines} (h : Succeeds q lines) : Occurs q lines := by
  obtain ⟨r, hr, hquery, hid, -⟩ := h
  exact ⟨r, hr, hquery, hid⟩

/-- A line the reader can use: a query record names its query, and a success
its time. -/
def Readable (line : Option TimingRecord) : Prop :=
  ∃ r ∈ line, r.isQuery = true → r.stepId.isSome ∧ (r.ok = true → r.wallMs.isSome)

theorem timingStep_isSome {timings : Timings} {line : Option TimingRecord} :
    (timingStep timings line).isSome ↔ Readable line := by
  cases line with
  | none => simp [timingStep, Readable]
  | some r =>
    simp only [timingStep, Readable, Option.bind_eq_bind, Option.bind_some, Option.pure_def,
      Option.mem_def, Option.some.injEq, exists_eq_left']
    cases hquery : r.isQuery with
    | false => simp
    | true =>
      cases r.stepId with
      | none => simp
      | some qid =>
        cases hok : r.ok with
        | false => simp
        | true =>
          cases r.wallMs with
          | none => simp
          | some wall =>
            simp only [Bool.not_true, Bool.false_eq_true, if_false, Option.bind_some,
              Option.isSome_some, and_self, imp_self, iff_true]
            split <;> rfl

/-- A file is read to its end exactly when every line can be used. -/
theorem loadQueryTimings_isSome {lines : Lines} :
    (loadQueryTimings lines).isSome ↔ ∀ line ∈ lines, Readable line := by
  have from_any : ∀ (ls : Lines) (timings : Timings),
      (ls.foldlM timingStep timings).isSome ↔ ∀ line ∈ ls, Readable line := by
    intro ls
    induction ls with
    | nil => intro timings; simp
    | cons line rest ih =>
      intro timings
      have head : (timingStep timings line).isSome ↔ Readable line := timingStep_isSome
      rw [List.foldlM_cons, List.forall_mem_cons, ← head]
      cases timingStep timings line with
      | none => simp
      | some next => simpa using ih next
  exact from_any lines []

/-- What one record does: it is passed over, or it is a success of its query,
whose key it writes unless a cold run finds it there. -/
theorem timingStep_cases {timings timings' : Timings} {line : Option TimingRecord}
    (h : timingStep timings line = some timings') :
    ∃ r, line = some r ∧
      ((timings' = timings ∧ ¬ (r.isQuery = true ∧ r.ok = true)) ∨
        ∃ qid, r.isQuery = true ∧ r.stepId = some qid ∧ r.ok = true ∧
          (timings' = timings ∧ qid ∈ timings.map Prod.fst ∨
            ∃ wall, timings' = set timings qid wall)) := by
  cases line with
  | none => cases h
  | some r =>
    refine ⟨r, rfl, ?_⟩
    simp only [timingStep, Option.bind_eq_bind, Option.bind_some, Option.pure_def] at h
    by_cases hquery : r.isQuery = true
    · obtain ⟨qid, hid, h⟩ := Option.bind_eq_some_iff.mp (by simpa [hquery] using h)
      by_cases hok : r.ok = true
      · obtain ⟨wall, -, h⟩ := Option.bind_eq_some_iff.mp (by simpa [hok] using h)
        refine .inr ⟨qid, hquery, hid, hok, ?_⟩
        split at h
        · rename_i old hold
          have hmem : qid ∈ timings.map Prod.fst := get?_isSome_iff.mp (hold ▸ rfl)
          obtain rfl := Option.some.inj h
          split
          · exact .inl ⟨rfl, hmem⟩
          · exact .inr ⟨wall, rfl⟩
        · obtain rfl := Option.some.inj h
          exact .inr ⟨wall, rfl⟩
      · have same : timings = timings' := by simpa [hok] using h
        exact .inl ⟨same.symm, fun hboth => hok hboth.2⟩
    · have same : timings = timings' := by simpa [hquery] using h
      exact .inl ⟨same.symm, fun hboth => hquery hboth.1⟩

/-- A record adds the key of its query when it is a success, and none otherwise. -/
theorem timingStep_keys {timings timings' : Timings} {line : Option TimingRecord}
    (h : timingStep timings line = some timings') (hnd : (timings.map Prod.fst).Nodup) :
    (timings'.map Prod.fst).Nodup ∧ ∀ q, q ∈ timings'.map Prod.fst ↔
      q ∈ timings.map Prod.fst ∨
        ∃ r, line = some r ∧ r.isQuery = true ∧ r.stepId = some q ∧ r.ok = true := by
  obtain ⟨r, rfl, ⟨rfl, hnot⟩ | ⟨qid, hquery, hid, hok, hwritten⟩⟩ := timingStep_cases h
  · refine ⟨hnd, fun q => ⟨.inl, fun hq => ?_⟩⟩
    rcases hq with hq | ⟨r', hr, hquery, -, hok⟩
    · exact hq
    · obtain rfl := Option.some.inj hr
      exact absurd ⟨hquery, hok⟩ hnot
  · have success : ∀ q, (∃ r', some r = some r' ∧ r'.isQuery = true ∧ r'.stepId = some q ∧
        r'.ok = true) ↔ qid = q := by
      intro q
      simp [hquery, hid, hok]
    simp only [success]
    rcases hwritten with ⟨rfl, hmem⟩ | ⟨wall, rfl⟩
    · refine ⟨hnd, fun q => ⟨.inl, fun hq => ?_⟩⟩
      rcases hq with hq | rfl
      · exact hq
      · exact hmem
    · refine ⟨nodup_keys_set hnd _ _, fun q => ?_⟩
      rw [keys_set]
      split
      · rename_i hmem
        refine ⟨.inl, fun hq => ?_⟩
        rcases hq with hq | rfl
        · exact hq
        · exact hmem
      · simp [eq_comm]

/-- The timings of a stream are under the queries it has a success of. -/
theorem loadQueryTimings_keys {lines : Lines} {timings : Timings}
    (h : loadQueryTimings lines = some timings) :
    (timings.map Prod.fst).Nodup ∧ ∀ q, q ∈ timings.map Prod.fst ↔ Succeeds q lines := by
  induction lines using List.reverseRecOn generalizing timings with
  | nil =>
    obtain rfl := Option.some.inj h
    simp [Succeeds]
  | append_singleton lines line ih =>
    rw [loadQueryTimings, List.foldlM_append] at h
    obtain ⟨before, hbefore, hlast⟩ := Option.bind_eq_some_iff.mp h
    obtain ⟨hnd, hkeys⟩ := ih hbefore
    have hstep : timingStep before line = some timings := by simpa using hlast
    obtain ⟨hnd', hkeys'⟩ := timingStep_keys hstep hnd
    refine ⟨hnd', fun q => ?_⟩
    rw [hkeys' q, hkeys q]
    simp only [Succeeds, List.reduceOption_mem_iff, List.mem_append, List.mem_singleton,
      eq_comm (b := line)]
    constructor
    · intro hq
      rcases hq with ⟨r, hr, hrest⟩ | ⟨r, hr, hrest⟩
      · exact ⟨r, .inl hr, hrest⟩
      · exact ⟨r, .inr hr, hrest⟩
    · intro ⟨r, hr, hrest⟩
      rcases hr with hr | hr
      · exact .inl ⟨r, hr, hrest⟩
      · exact .inr ⟨r, hr, hrest⟩

/-! ## What the run pools -/

/-- A stream of the run that left a record file, with its level. -/
def Entry.stream (runTs : Str) (e : Entry) : Option (Int × Lines) :=
  if e.isDir then
    (parseStreamDir e.name).bind fun (n, ts, _) =>
      if ts = runTs then (discoverJsonl e).map fun lines => ((n : Int), lines) else none
  else none

def streamsOf (runTs : Str) (root : List Entry) : List (Int × Lines) :=
  root.filterMap (Entry.stream runTs)

theorem collectStep_eq (runTs : Str) (levels : List Int) (samples : Samples) (e : Entry) :
    collectStep runTs levels samples e = match e.stream runTs with
      | none => some samples
      | some (n, lines) =>
        if n ∈ levels then (loadQueryTimings lines).map fun timings =>
          timings.foldl (addSample n) samples
        else some samples := by
  unfold collectStep Entry.stream
  cases e.isDir with
  | false => rfl
  | true =>
    cases parseStreamDir e.name with
    | none => rfl
    | some parsed =>
      obtain ⟨n, ts, i⟩ := parsed
      by_cases hts : ts = runTs
      · cases discoverJsonl e with
        | none => by_cases hn : (n : Int) ∈ levels <;> simp [hts, hn]
        | some lines => by_cases hn : (n : Int) ∈ levels <;> simp [hts, hn]
      · simp [hts]

/-- A stream adds its time of a query at its own level, and nothing elsewhere. -/
theorem get?_foldl_addSample (n m : Int) (q : Str) {timings : Timings}
    (hnd : (timings.map Prod.fst).Nodup) (samples : Samples) :
    get? (timings.foldl (addSample n) samples) (q, m) =
      match (if n = m then get? timings q else none) with
      | none => get? samples (q, m)
      | some wall => some (((get? samples (q, m)).getD []) ++ [wall]) := by
  induction timings generalizing samples with
  | nil => simp
  | cons timing rest ih =>
    obtain ⟨q₀, wall₀⟩ := timing
    obtain ⟨hnot, hrest⟩ := List.nodup_cons.mp hnd
    rw [List.foldl_cons, ih hrest, addSample, get?_set, get?_cons]
    by_cases hn : n = m
    · by_cases hq : q₀ = q
      · subst hn hq
        have absent : get? rest q₀ = none := by
          rw [← Option.not_isSome_iff_eq_none, get?_isSome_iff]
          exact hnot
        simp [absent]
      · simp [hn, hq]
    · simp [hn]

/-- The time a stream adds to a query at a level. -/
def contribution (levels : List Int) (q : Str) (n : Int) (s : Int × Lines) : Option ℚ :=
  if s.1 = n ∧ n ∈ levels then (loadQueryTimings s.2).bind fun timings => get? timings q
  else none

/-- The samples of a query at a level, stream by stream. -/
def pooled (streams : List (Int × Lines)) (levels : List Int) (q : Str) (n : Int) : List ℚ :=
  streams.filterMap (contribution levels q n)

/-- The samples gathered from some streams: those pooled, and no empty list. -/
def Gathered (streams : List (Int × Lines)) (levels : List Int) (samples : Samples) : Prop :=
  ∀ q n, (get? samples (q, n)).getD [] = pooled streams levels q n ∧
    get? samples (q, n) ≠ some []

theorem gathered_snoc {streams : List (Int × Lines)} {levels : List Int} {samples : Samples}
    {n : Int} {lines : Lines} {timings : Timings} (h : Gathered streams levels samples)
    (hn : n ∈ levels) (hload : loadQueryTimings lines = some timings) :
    Gathered (streams ++ [(n, lines)]) levels (timings.foldl (addSample n) samples) := by
  intro q m
  obtain ⟨hpool, hne⟩ := h q m
  obtain ⟨hnd, -⟩ := loadQueryTimings_keys hload
  have added : contribution levels q m (n, lines) = if n = m then get? timings q else none := by
    by_cases hm : n = m
    · subst hm
      simp [contribution, hn, hload]
    · simp [contribution, hm]
  rw [get?_foldl_addSample n m q hnd, pooled, List.filterMap_append, ← pooled, ← hpool]
  simp only [List.filterMap_cons, List.filterMap_nil, added]
  cases (if n = m then get? timings q else none) with
  | none => exact ⟨(List.append_nil _).symm, hne⟩
  | some wall => exact ⟨rfl, by simp⟩

/-- The loop reads every stream at a requested level, and gathers what they hold. -/
theorem collect_spec {runTs : Str} {levels : List Int} {root : List Entry} {samples : Samples}
    (h : root.foldlM (collectStep runTs levels) [] = some samples) :
    (∀ s ∈ streamsOf runTs root, s.1 ∈ levels → (loadQueryTimings s.2).isSome) ∧
      Gathered (streamsOf runTs root) levels samples := by
  induction root using List.reverseRecOn generalizing samples with
  | nil =>
    obtain rfl := Option.some.inj h
    exact ⟨by simp [streamsOf], fun q n => ⟨rfl, by simp⟩⟩
  | append_singleton root e ih =>
    rw [List.foldlM_append] at h
    obtain ⟨before, hbefore, hlast⟩ := Option.bind_eq_some_iff.mp h
    obtain ⟨hread, hpool⟩ := ih hbefore
    have hstep : collectStep runTs levels before e = some samples := by simpa using hlast
    have grown : streamsOf runTs (root ++ [e]) = streamsOf runTs root ++ (e.stream runTs).toList := by
      cases hs : e.stream runTs <;> simp [streamsOf, hs]
    rw [collectStep_eq] at hstep
    rw [grown]
    cases hs : e.stream runTs with
    | none =>
      rw [hs] at hstep
      obtain rfl := Option.some.inj hstep
      simpa using And.intro hread hpool
    | some stream =>
      obtain ⟨n, lines⟩ := stream
      rw [hs] at hstep
      by_cases hn : n ∈ levels
      · obtain ⟨timings, hload, rfl⟩ := Option.map_eq_some_iff.mp (by simpa [hn] using hstep)
        refine ⟨fun s hmem hlevel => ?_, gathered_snoc hpool hn hload⟩
        rcases List.mem_append.mp hmem with hmem | hmem
        · exact hread s hmem hlevel
        · obtain rfl := List.mem_singleton.mp hmem
          exact hload ▸ rfl
      · obtain rfl : before = samples := by simpa [hn] using hstep
        refine ⟨fun s hmem hlevel => ?_, fun q m => ?_⟩
        · rcases List.mem_append.mp hmem with hmem | hmem
          · exact hread s hmem hlevel
          · obtain rfl := List.mem_singleton.mp hmem
            exact absurd hlevel hn
        · have nothing : contribution levels q m (n, lines) = none :=
            if_neg fun hboth : n = m ∧ m ∈ levels => hn (hboth.1 ▸ hboth.2)
          simpa [pooled, nothing] using hpool q m

/-- The loop ends when every stream at a requested level can be read. -/
theorem collect_reads {runTs : Str} {levels : List Int} {root : List Entry} {samples : Samples}
    (h : ∀ s ∈ streamsOf runTs root, s.1 ∈ levels → (loadQueryTimings s.2).isSome) :
    (root.foldlM (collectStep runTs levels) samples).isSome := by
  induction root generalizing samples with
  | nil => rfl
  | cons e rest ih =>
    have later : ∀ s ∈ streamsOf runTs rest, s.1 ∈ levels → (loadQueryTimings s.2).isSome := by
      intro s hs
      refine h s ?_
      cases he : e.stream runTs with
      | none => simpa [streamsOf, he] using hs
      | some t => simpa [streamsOf, he] using Or.inr hs
    obtain ⟨next, hnext⟩ : ∃ next, collectStep runTs levels samples e = some next := by
      rw [collectStep_eq]
      cases he : e.stream runTs with
      | none => exact ⟨samples, rfl⟩
      | some t =>
        obtain ⟨n, lines⟩ := t
        by_cases hn : n ∈ levels
        · have hread := h (n, lines) (by simp [streamsOf, he]) hn
          obtain ⟨timings, hload⟩ := Option.isSome_iff_exists.mp hread
          exact ⟨timings.foldl (addSample n) samples, by simp [hn, hload]⟩
        · exact ⟨samples, by simp [hn]⟩
    rw [List.foldlM_cons, hnext]
    exact ih later

end DeltaForgeBench.ScaleOut.Aggregate
