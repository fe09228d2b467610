import DeltaForgeBench.ScaleOut.Aggregate
import Mathlib.Data.List.Dedup

/-! # The queries on the curve

The aggregator means to show a query at every level, also where every stream
failed it. Its universe of queries is read off the samples, so a query enters
the curve with its first success. -/
namespace DeltaForgeBench.ScaleOut.Curve
open DeltaForgeBench.Base.Text DeltaForgeBench.Base.Dict DeltaForgeBench.Base.Sorted
open DeltaForgeBench.ScaleOut.Aggregate

/-! ## The promise -/

/-- The streams of a level that hold a success of the query. -/
def successesAt (runTs : Str) (root : List Entry) (q : Str) (n : Int) : List (Int × Lines) :=
  (streamsOf runTs root).filter fun s => s.1 = n ∧ Succeeds q s.2

/-- Every query a stream of the run has a record of has exactly one row at each
level, which counts the streams there that completed it. -/
def Complete (asked : List Int) (runTs : Str) (root : List Entry) (levels : List Int) : Prop :=
  ∀ q, (∃ s ∈ streamsOf runTs root, Occurs q s.2) →
    ∃ rows, main asked runTs root = .ok rows ∧ ∀ n ∈ levels, ∃ row,
      rows.filter (fun r => r.queryId = q ∧ r.n = n) = [row] ∧
        row.samples = (successesAt runTs root q n).length

/-- Either no stream has a record of a query at all, or the files at requested
levels are readable and each query that occurs succeeds in one of them. -/
def EachSucceeds (runTs : Str) (root : List Entry) (levels : List Int) : Prop :=
  (∀ q, ∀ s ∈ streamsOf runTs root, ¬ Occurs q s.2) ∨
  (∀ s ∈ streamsOf runTs root, s.1 ∈ levels → ∀ line ∈ s.2, Readable line) ∧
    ∀ q, (∃ s ∈ streamsOf runTs root, Occurs q s.2) →
      ∃ s ∈ streamsOf runTs root, s.1 ∈ levels ∧ Succeeds q s.2

/-! ## The rows -/

theorem nodup_nValues {asked levels : List Int} (h : nValues asked = some levels) :
    levels.Nodup ∧ 1 ∈ levels := by
  unfold nValues at h
  simp only at h
  split at h
  · rename_i hhead
    obtain rfl := Option.some.inj h
    exact ⟨(sorted_perm _).nodup_iff.mpr (List.nodup_dedup asked), List.mem_of_head? hhead⟩
  · cases h

theorem aggregate_keys (samples : Samples) (levels : List Int) (ids : List Str) :
    (aggregate samples levels ids).map (fun r => (r.queryId, r.n)) =
      (sorted ids).product (sorted levels) := by
  simp only [aggregate, aggregateOn, List.map_flatMap, List.map_map, List.product]
  rfl

/-- An item among items of distinct keys is the only one of its key. -/
theorem filter_key {ρ κ : Type*} [DecidableEq κ] {key : ρ → κ} {l : List ρ}
    (hnd : (l.map key).Nodup) {x : ρ} (hx : x ∈ l) :
    l.filter (fun r => key r = key x) = [x] := by
  induction l with
  | nil => cases hx
  | cons head rest ih =>
    obtain ⟨hnot, hrest⟩ := List.nodup_cons.mp hnd
    rcases List.mem_cons.mp hx with rfl | hmem
    · have others : rest.filter (fun r => key r = key x) = [] := by
        refine List.filter_eq_nil_iff.mpr fun r hr => ?_
        simpa using fun heq : key r = key x => hnot (heq ▸ List.mem_map_of_mem hr)
      simp [others]
    · have hne : key head ≠ key x := fun heq => hnot (heq ▸ List.mem_map_of_mem hmem)
      simp [hne, ih hrest hmem]

/-- The one row of a query of the universe at a level. -/
theorem aggregate_row {samples : Samples} {levels : List Int} {ids : List Str}
    (hids : ids.Nodup) (hlevels : levels.Nodup) {q : Str} {n : Int} (hq : q ∈ ids)
    (hn : n ∈ levels) :
    (aggregate samples levels ids).filter (fun r => r.queryId = q ∧ r.n = n) =
      [rowOf samples q n] := by
  have distinct : ((aggregate samples levels ids).map fun r => (r.queryId, r.n)).Nodup := by
    rw [aggregate_keys]
    exact List.Nodup.product ((sorted_perm ids).nodup_iff.mpr hids)
      ((sorted_perm levels).nodup_iff.mpr hlevels)
  have hmem : rowOf samples q n ∈ aggregate samples levels ids :=
    List.mem_flatMap.mpr ⟨q, mem_sorted.mpr hq,
      List.mem_map.mpr ⟨n, mem_sorted.mpr hn, rfl⟩⟩
  have hone := filter_key distinct hmem
  simp only [Prod.mk.injEq] at hone
  exact hone

/-! ## The universe -/

theorem contribution_isSome_iff {levels : List Int} {q : Str} {n : Int} {s : Int × Lines}
    (hread : s.1 ∈ levels → (loadQueryTimings s.2).isSome) :
    (contribution levels q n s).isSome ↔ s.1 = n ∧ n ∈ levels ∧ Succeeds q s.2 := by
  unfold contribution
  split
  · rename_i hlevel
    obtain ⟨timings, hload⟩ := Option.isSome_iff_exists.mp (hread (hlevel.1 ▸ hlevel.2))
    rw [hload, Option.bind_some, get?_isSome_iff, (loadQueryTimings_keys hload).2]
    exact ⟨fun hs => ⟨hlevel.1, hlevel.2, hs⟩, fun hs => hs.2.2⟩
  · rename_i hlevel
    constructor
    · intro h
      cases h
    · intro h
      exact absurd ⟨h.1, h.2.1⟩ hlevel

theorem length_pooled {streams : List (Int × Lines)} {levels : List Int} {q : Str} {n : Int}
    (hread : ∀ s ∈ streams, s.1 ∈ levels → (loadQueryTimings s.2).isSome) (hn : n ∈ levels) :
    (pooled streams levels q n).length =
      (streams.filter fun s => s.1 = n ∧ Succeeds q s.2).length := by
  rw [pooled, List.length_filterMap_eq_countP, ← List.countP_eq_length_filter]
  refine List.countP_congr fun s hs => ?_
  rw [contribution_isSome_iff (hread s hs), decide_eq_true_iff]
  exact ⟨fun h => ⟨h.1, h.2.2⟩, fun h => ⟨h.1, hn, h.2⟩⟩

/-- The universe holds the queries that some stream at a requested level completed. -/
theorem mem_universe {streams : List (Int × Lines)} {levels : List Int} {samples : Samples}
    (hread : ∀ s ∈ streams, s.1 ∈ levels → (loadQueryTimings s.2).isSome)
    (hsamples : Gathered streams levels samples) {q : Str} :
    q ∈ (samples.map fun s => s.1.1).dedup ↔ ∃ s ∈ streams, s.1 ∈ levels ∧ Succeeds q s.2 := by
  have key : q ∈ (samples.map fun s => s.1.1).dedup ↔ ∃ n, (get? samples (q, n)).isSome := by
    simp only [List.mem_dedup, get?_isSome_iff, List.mem_map, Prod.exists, exists_and_right,
      exists_eq_right]
  rw [key]
  have present : ∀ n, (get? samples (q, n)).isSome ↔ pooled streams levels q n ≠ [] := by
    intro n
    obtain ⟨hpool, hne⟩ := hsamples q n
    rw [← hpool]
    cases h : get? samples (q, n) with
    | none => simp
    | some l => simpa using fun hl : l = [] => hne (hl ▸ h)
  simp only [present, pooled, ne_eq, List.filterMap_eq_nil_iff, not_forall]
  constructor
  · intro h
    obtain ⟨n, s, hs, hsome⟩ := h
    obtain ⟨rfl, hmem, hok⟩ := (contribution_isSome_iff (hread s hs)).mp
      (Option.isSome_iff_ne_none.mpr hsome)
    exact ⟨s, hs, hmem, hok⟩
  · intro h
    obtain ⟨s, hs, hmem, hok⟩ := h
    exact ⟨s.1, s, hs, Option.isSome_iff_ne_none.mp
      ((contribution_isSome_iff (hread s hs)).mpr ⟨rfl, hmem, hok⟩)⟩

/-! ## When no query is missing -/

theorem main_ok {asked levels : List Int} {runTs : Str} {root : List Entry} {rows : List Row}
    (hlevels : nValues asked = some levels) (h : main asked runTs root = .ok rows) :
    ∃ samples, (∀ s ∈ streamsOf runTs root, s.1 ∈ levels → (loadQueryTimings s.2).isSome) ∧
      Gathered (streamsOf runTs root) levels samples ∧
      rows = aggregate samples levels (samples.map fun s => s.1.1).dedup := by
  unfold main at h
  rw [hlevels] at h
  simp only at h
  split at h
  · cases h
  · rename_i samples hcollect
    obtain ⟨hread, hgathered⟩ := collect_spec hcollect
    split at h
    · cases h
    · exact ⟨samples, hread, hgathered, (Except.ok.inj h).symm⟩

theorem complete_of_eachSucceeds {asked levels : List Int} {runTs : Str} {root : List Entry}
    (hlevels : nValues asked = some levels) (h : EachSucceeds runTs root levels) :
    Complete asked runTs root levels := by
  intro q ⟨s, hs, hoccurs⟩
  rcases h with hnone | ⟨hread, hall⟩
  · exact absurd hoccurs (hnone q s hs)
  · simp only [← loadQueryTimings_isSome] at hread
    obtain ⟨samples, hcollect⟩ := Option.isSome_iff_exists.mp (collect_reads hread)
    obtain ⟨-, hgathered⟩ := collect_spec hcollect
    have hq : q ∈ (samples.map fun s => s.1.1).dedup :=
      (mem_universe hread hgathered).mpr (hall q ⟨s, hs, hoccurs⟩)
    refine ⟨aggregate samples levels (samples.map fun s => s.1.1).dedup, ?_, fun n hn => ?_⟩
    · unfold main
      simp only [hlevels, hcollect, if_neg (List.ne_nil_of_mem hq)]
    · refine ⟨rowOf samples q n,
        aggregate_row (List.nodup_dedup _) (nodup_nValues hlevels).1 hq hn, ?_⟩
      rw [successesAt, ← length_pooled hread hn, ← (hgathered q n).1]
      rfl

/-- A query with a row has a success at a requested level. -/
theorem success_of_row {asked levels : List Int} {runTs : Str} {root : List Entry}
    {rows : List Row} (hlevels : nValues asked = some levels)
    (h : main asked runTs root = .ok rows) {row : Row} (hrow : row ∈ rows) :
    ∃ s ∈ streamsOf runTs root, s.1 ∈ levels ∧ Succeeds row.queryId s.2 := by
  obtain ⟨samples, hread, hgathered, rfl⟩ := main_ok hlevels h
  obtain ⟨q, hq, hmem⟩ := List.mem_flatMap.mp hrow
  obtain ⟨n, -, rfl⟩ := List.mem_map.mp hmem
  exact (mem_universe hread hgathered).mp (mem_sorted.mp hq)

/-- **The curve shows every query** of the run exactly when each one that
occurs succeeds in some stream, and the streams can be read. -/
theorem complete_iff {asked levels : List Int} (runTs : Str) (root : List Entry)
    (hlevels : nValues asked = some levels) :
    Complete asked runTs root levels ↔ EachSucceeds runTs root levels := by
  constructor
  · intro h
    by_cases hnone : ∀ q, ∀ s ∈ streamsOf runTs root, ¬ Occurs q s.2
    · exact .inl hnone
    · simp only [not_forall, not_not] at hnone
      obtain ⟨q₀, s₀, hs₀, hoccurs₀⟩ := hnone
      obtain ⟨rows, hmain, -⟩ := h q₀ ⟨s₀, hs₀, hoccurs₀⟩
      obtain ⟨_, hread, -, -⟩ := main_ok hlevels hmain
      simp only [loadQueryTimings_isSome] at hread
      refine .inr ⟨hread, fun q hq => ?_⟩
      obtain ⟨rows, hmain, hrows⟩ := h q hq
      obtain ⟨row, hone, -⟩ := hrows 1 (nodup_nValues hlevels).2
      have hmem : row ∈ rows.filter (fun r => r.queryId = q ∧ r.n = 1) :=
        hone ▸ List.mem_singleton_self row
      obtain ⟨hrow, hkey⟩ := List.mem_filter.mp hmem
      obtain ⟨rfl, -⟩ := of_decide_eq_true hkey
      exact success_of_row hlevels hmain hrow
  · exact complete_of_eachSucceeds hlevels

/-- `scaleout_n1_20260528T010203Z_s1`. -/
def streamName : Str := "scaleout_n1_20260528T010203Z_s1".toList

def stamp : Str := "20260528T010203Z".toList

/-- A query record as the run loop appends it. -/
def queryLine (stepId : Str) (exitCode : Int) (wallMs : ℚ) : Option TimingRecord :=
  some { stepKind := some "sql_query".toList, stepId := some stepId, exitCode := some exitCode
         wallMs := some wallMs, cold := false }

/-- One stream in which `q01` ran and `q14` was killed. -/
def killedQuery : List Entry :=
  [{ name := streamName, isDir := true
     jsonl := [[queryLine "q01".toList 0 120, queryLine "q14".toList 1 900]] }]

theorem complete_iff_killedQuery :
    Complete [1] stamp killedQuery [1] ↔ EachSucceeds stamp killedQuery [1] :=
  complete_iff stamp killedQuery rfl

/-- The query that failed in every stream has no row. -/
theorem killed_query_missing : ¬ ∀ asked levels runTs root, nValues asked = some levels →
    Complete asked runTs root levels := by
  intro h
  have hstreams : streamsOf stamp killedQuery =
      [(1, [queryLine "q01".toList 0 120, queryLine "q14".toList 1 900])] := rfl
  have hoccurs : ∃ s ∈ streamsOf stamp killedQuery, Occurs "q14".toList s.2 := by
    rw [hstreams]
    exact ⟨_, List.mem_singleton_self _, _, List.mem_cons_of_mem _ (List.mem_singleton_self _),
      rfl, rfl⟩
  obtain ⟨rows, hmain, hrows⟩ := h [1] [1] stamp killedQuery rfl "q14".toList hoccurs
  obtain ⟨row, hone, -⟩ := hrows 1 (List.mem_singleton_self _)
  have hmem : row ∈ rows.filter (fun r => r.queryId = "q14".toList ∧ r.n = 1) :=
    hone ▸ List.mem_singleton_self row
  obtain ⟨hrow, hkey⟩ := List.mem_filter.mp hmem
  obtain ⟨hid, -⟩ := of_decide_eq_true hkey
  have levels : nValues [1] = some [1] := rfl
  obtain ⟨s, hs, -, hsuccess⟩ := success_of_row levels hmain hrow
  rw [hstreams] at hs
  obtain rfl := List.mem_singleton.mp hs
  rw [hid] at hsuccess
  exact absurd hsuccess (by decide)

end DeltaForgeBench.ScaleOut.Curve
