import DeltaForgeBench.Reports.BuildPublished

/-! # Every query attempted

The suite promises to report every query result, the lost ones by name. The
rows of a read page are the keys of the engines' warm medians, so a query is on
the page once some engine completed a warm run of it. -/
namespace DeltaForgeBench.Reports.HonestLosses
open DeltaForgeBench.Base.Text DeltaForgeBench.Base.Dict DeltaForgeBench.Base.Sorted
open DeltaForgeBench.Engines.SqlQuery DeltaForgeBench.Reports.BuildPublished

/-! ## The promise -/

/-- The lines of an engine's file; none without a file. -/
def linesOf (files : RecordFiles) (e : Adapter) : List RawRecord := (files e).getD []

/-- The queries an engine has a record of. -/
def attemptsOf (files : RecordFiles) (e : Adapter) : List Str :=
  ((linesOf files e).map RawRecord.sid).filter fun sid => ['q'].isPrefixOf sid

/-- The distinct queries attempted by any engine. -/
def attempted (files : RecordFiles) : List Str := (engineOrder.flatMap (attemptsOf files)).dedup

/-- The engine has a successful warm run of the query. -/
def Completed (files : RecordFiles) (e : Adapter) (q : Str) : Prop :=
  ∃ r ∈ linesOf files e, r.sid = q ∧ r.warmMs.isSome

instance (files : RecordFiles) (e : Adapter) : DecidablePred (Completed files e) :=
  fun q => inferInstanceAs (Decidable (∃ r ∈ linesOf files e, r.sid = q ∧ r.warmMs.isSome))

/-- `"{done} / {all}"`. -/
def tally (done all : Nat) : Str := done.repr.toList ++ " / ".toList ++ all.repr.toList

/-- Nothing attempted is missing from the tables of a page: each query has its
rows, with a dash for every engine that has no successful warm run of it, and
the completed cells count out of the queries attempted. -/
structure Honest (files : RecordFiles) (page : BenchTables) : Prop where
  perQuery : ∀ q ∈ attempted files, ∃ cell : Adapter → Str,
    q :: engineOrder.map cell ∈ page.perQuery ∧ ∀ e, ¬ Completed files e q → cell e = ['-']
  speedups : ∀ q ∈ attempted files, ∃ cell : Adapter → Str,
    q :: (engineOrder.filter (· ≠ .df)).map cell ∈ page.speedups ∧
      ∀ e, ¬ Completed files e q → cell e = ['-']
  completion : page.completion.map (List.take 2) = engineOrder.map fun e =>
    [engineLabel e,
      tally ((attempted files).filter (Completed files e)).length (attempted files).length]

/-- Each query attempted was completed by some engine. -/
def SomeoneCompletes (files : RecordFiles) : Prop :=
  ∀ q ∈ attempted files, ∃ e, Completed files e q

/-! ## The rows of the page -/

theorem mem_engineOrder (e : Adapter) : e ∈ engineOrder := by
  cases e <;> simp [engineOrder]

theorem mem_attempted {files : RecordFiles} {q : Str} :
    q ∈ attempted files ↔
      ∃ e, ∃ r ∈ linesOf files e, r.sid = q ∧ ['q'].isPrefixOf q = true := by
  simp only [attempted, List.mem_dedup, List.mem_flatMap, mem_engineOrder, true_and, attemptsOf,
    List.mem_filter, List.mem_map]
  constructor
  · rintro ⟨e, ⟨r, hr, hsid⟩, hq⟩
    exact ⟨e, r, hr, hsid, hq⟩
  · rintro ⟨e, r, hr, hsid, hq⟩
    exact ⟨e, ⟨r, hr, hsid⟩, hq⟩

theorem Completed.attempted {files : RecordFiles} {e : Adapter} {q : Str}
    (h : Completed files e q) : q ∈ attempted files := by
  obtain ⟨r, hr, rfl, hms⟩ := h
  refine mem_attempted.mpr ⟨e, r, hr, rfl, ?_⟩
  unfold RawRecord.warmMs at hms
  split at hms
  · assumption
  · simp at hms

theorem warmSamples_eq_nil_iff {lines : List RawRecord} {q : Str} :
    warmSamples lines q = [] ↔ ¬ ∃ r ∈ lines, r.sid = q ∧ r.warmMs.isSome := by
  simp only [warmSamples, List.filterMap_eq_nil_iff, not_exists, not_and]
  refine forall₂_congr fun r _ => ?_
  split
  · rename_i hsid
    simp [hsid]
  · rename_i hsid
    simp [hsid]

/-- The medians loaded for an engine are under the queries it completed. -/
theorem mem_keys_loaded {files : RecordFiles} {e : Adapter} {q : Str} :
    q ∈ (loaded files e).1.map Prod.fst ↔ Completed files e q := by
  unfold Completed linesOf loaded
  cases files e with
  | none => simp
  | some lines =>
    have hkeys : ((loadEngineRecords lines).1.map Prod.fst) =
        (lines.foldl loadStep {}).warm.map Prod.fst := by
      simp [loadEngineRecords, Function.comp_def]
    have hget := get?_warm lines q
    simp only [Option.getD_some, hkeys]
    rw [← get?_isSome_iff, hget, ← not_iff_not (b := ∃ r ∈ lines, _), ← warmSamples_eq_nil_iff]
    split
    · rename_i hnil
      simp [hnil]
    · rename_i hne
      simp [hne]

theorem nodup_keys_warm (lines : List RawRecord) :
    ((lines.foldl loadStep {}).warm.map Prod.fst).Nodup := by
  induction lines using List.reverseRecOn with
  | nil => simp
  | append_singleton lines r ih =>
    rw [List.foldl_append, List.foldl_cons, List.foldl_nil, loadStep_warm]
    cases r.warmMs with
    | none => exact ih
    | some ms => exact nodup_keys_set ih _ _

theorem nodup_keys_loaded (files : RecordFiles) (e : Adapter) :
    ((loaded files e).1.map Prod.fst).Nodup := by
  unfold loaded
  cases files e with
  | none => simp
  | some lines =>
    have h := nodup_keys_warm lines
    simpa [loadEngineRecords, Function.comp_def] using h

/-- Every median loaded is a number. -/
theorem loaded_isSome {files : RecordFiles} {e : Adapter} {m : Str × Option ℚ}
    (hm : m ∈ (loaded files e).1) : m.2.isSome := by
  unfold loaded at hm
  cases hf : files e with
  | none => simp [hf] at hm
  | some lines =>
    simp only [hf, loadEngineRecords, List.mem_map] at hm
    obtain ⟨⟨q, samples⟩, hmem, rfl⟩ := hm
    have hget := (get?_eq_some_iff (nodup_keys_warm lines)).mpr hmem
    rw [get?_warm] at hget
    split at hget
    · cases hget
    · rename_i hne
      obtain rfl := Option.some.inj hget
      exact median_isSome hne

/-- The rows of the page are the queries some engine completed. -/
theorem mem_queriesOf {files : RecordFiles} {q : Str} :
    q ∈ queriesOf (fun e => (loaded files e).1) ↔ ∃ e, Completed files e q := by
  simp only [queriesOf, mem_sorted, List.mem_dedup, List.mem_flatMap, mem_engineOrder, true_and,
    mem_keys_loaded]

theorem published_of_not_completed {files : RecordFiles} {e : Adapter} {q : Str}
    (h : ¬ Completed files e q) : published (loaded files e).1 q = none := by
  rw [← mem_keys_loaded, ← get?_isSome_iff, Option.not_isSome_iff_eq_none] at h
  rw [published, h]
  rfl

/-- The completed queries of an engine, counted on its medians. -/
theorem countP_loaded (files : RecordFiles) (e : Adapter) :
    ((loaded files e).1.countP fun m => m.2.isSome) =
      ((attempted files).filter (Completed files e)).length := by
  rw [List.countP_eq_length.mpr fun m hm => loaded_isSome hm,
    ← List.length_map (f := Prod.fst)]
  refine List.Perm.length_eq ((List.perm_ext_iff_of_nodup (nodup_keys_loaded files e)
    ((List.nodup_dedup _).filter _)).mpr fun q => ?_)
  rw [mem_keys_loaded, List.mem_filter, decide_eq_true_iff]
  exact ⟨fun h => ⟨h.attempted, h⟩, fun h => h.2⟩

theorem length_queriesOf {files : RecordFiles} (h : SomeoneCompletes files) :
    (queriesOf fun e => (loaded files e).1).length = (attempted files).length := by
  rw [queriesOf, length_sorted]
  refine List.Perm.length_eq ((List.perm_ext_iff_of_nodup (List.nodup_dedup _)
    (List.nodup_dedup _)).mpr fun q => ?_)
  have hrow : q ∈ queriesOf (fun e => (loaded files e).1) ↔ _ := mem_queriesOf
  rw [queriesOf, mem_sorted] at hrow
  rw [hrow]
  constructor
  · intro ⟨e, he⟩
    exact he.attempted
  · exact h q

theorem speedup_dash {d o : Option ℚ} (h : o = none) : speedup d o = ['-'] := by
  subst h
  cases d <;> rfl

/-! ## When the page is honest -/

theorem honest_of_completed {files : RecordFiles} (h : SomeoneCompletes files) :
    Honest files (renderBench files) where
  perQuery q hq := by
    refine ⟨fun e => fmtMs (published (loaded files e).1 q), ?_, fun e he => ?_⟩
    · exact List.mem_map.mpr ⟨q, mem_queriesOf.mpr (h q hq), rfl⟩
    · simp only [published_of_not_completed he]
      rfl
  speedups q hq := by
    refine ⟨fun e => speedup (published (loaded files .df).1 q) (published (loaded files e).1 q),
      ?_, fun e he => ?_⟩
    · exact List.mem_map.mpr ⟨q, mem_queriesOf.mpr (h q hq), rfl⟩
    · exact speedup_dash (published_of_not_completed he)
  completion := by
    simp only [renderBench, benchTablesOf, List.map_map]
    refine List.map_congr_left fun e _ => ?_
    simp only [Function.comp_apply, countP_loaded, length_queriesOf h]
    rfl

/-- A row of the page is a query some engine completed. -/
theorem completed_of_row {files : RecordFiles} {q : Str} {cells : List Str}
    (h : q :: cells ∈ (renderBench files).perQuery) : ∃ e, Completed files e q := by
  obtain ⟨p, hp, he⟩ := List.mem_map.mp h
  obtain rfl := (List.cons.inj he).1
  exact mem_queriesOf.mp hp

/-- **Honest losses.** The page of a benchmark hides nothing exactly when each
query attempted was completed by some engine. -/
theorem renderBench_honest_iff (files : RecordFiles) :
    Honest files (renderBench files) ↔ SomeoneCompletes files := by
  constructor
  · intro h q hq
    obtain ⟨cell, hrow, -⟩ := h.perQuery q hq
    exact completed_of_row hrow
  · exact honest_of_completed

/-- A run in which the one engine fails its one query. -/
def lostQuery : RecordFiles
  | .df => some
    [{ workload := some "tpch_read_delta".toList, stepId := some "q21".toList
       wallMs := some 1500, engineReportedMs := none
       error := some "RuntimeError('out of memory')".toList, cold := false }]
  | _ => none

/-- The query every engine lost has no row. -/
theorem lost_query_unreported : ¬ ∀ files, Honest files (renderBench files) := by
  intro h
  obtain ⟨cell, hrow, -⟩ := (h lostQuery).perQuery "q21".toList
    (mem_attempted.mpr ⟨.df, _, List.mem_singleton_self _, rfl, rfl⟩)
  have none_listed : (renderBench lostQuery).perQuery = [] := rfl
  rw [none_listed] at hrow
  cases hrow

end DeltaForgeBench.Reports.HonestLosses
