import DeltaForgeBench.ScaleOut.Laws

/-! # The summaries of the curve

`curve.json` and `curve.md` each count the rows of a level anew: the queries
that every stream completed, those that some did and those that none did, and
how many of the rated ones are flat. -/
namespace DeltaForgeBench.ScaleOut.Summary
open DeltaForgeBench.Base.Text DeltaForgeBench.Base.Dict DeltaForgeBench.Base.Sorted
open DeltaForgeBench.Base.Numeral DeltaForgeBench.Reports.Percentile
open DeltaForgeBench.ScaleOut.Aggregate
open DeltaForgeBench.ScaleOut.Curve DeltaForgeBench.ScaleOut.Laws

/-! ## `write_json` -/

/-- What is known of a level once one of its queries has a ratio, unrounded. -/
structure Rated where
  flatQueries : Nat
  worst : ℚ
  median : ℚ
  deriving DecidableEq

/-- The numbers `write_json` finds for a level. -/
structure JsonLevel where
  queriesTotal : Nat
  queriesWithAnySample : Nat
  queriesWithFullCompletion : Nat
  queriesWithNoSamples : Nat
  noSampleQueryIds : List Str
  ratableQueries : Nat
  rated : Option Rated

/-- One entry of `verdict_by_n`; `none` is a level without rows. -/
def jsonLevel (rows : List Row) (n : Int) : Option JsonLevel :=
  let nRowsAll := rows.filter fun r => r.n = n
  if nRowsAll = [] then none
  else
    let withSamples := nRowsAll.filter fun r => r.samples > 0
    let ratable := nRowsAll.filter fun r => r.ratioP50VsN1 ≠ none
    let noSamples := (nRowsAll.filter fun r => r.samples = 0).map (·.queryId)
    let fullCompletion := nRowsAll.countP fun r =>
      r.streamsAttempted > 0 ∧ (r.samples : Int) = r.streamsAttempted
    some
      { queriesTotal := nRowsAll.length
        queriesWithAnySample := withSamples.length
        queriesWithFullCompletion := fullCompletion
        queriesWithNoSamples := noSamples.length
        noSampleQueryIds := (sorted noSamples).take 25
        ratableQueries := ratable.length
        rated := do
          let ratios := ratable.filterMap (·.ratioP50VsN1)
          let worst ← ratios.max?
          let median ← percentile ratios 50
          return { flatQueries := ratable.countP fun r => r.flat = some true, worst, median } }

/-- `flat_fraction`, `worst_ratio` and `median_ratio` as they are printed. -/
def JsonLevel.printed (v : JsonLevel) : Option (ℚ × ℚ × ℚ) := v.rated.map fun r =>
  (rounded 3 (r.flatQueries / v.ratableQueries), rounded 3 r.worst, rounded 3 r.median)

/-! ## `write_md` -/

/-- The numbers `write_md` finds for a level. -/
structure MdLevel where
  total : Nat
  full : Nat
  someStreams : Nat
  noStream : Nat
  ratable : Nat
  rated : Option Rated

def mdLevel (rows : List Row) (n : Int) : MdLevel :=
  let nRows := rows.filter fun r => r.n = n
  let ratable := nRows.filter fun r => r.ratioP50VsN1 ≠ none
  { total := nRows.length
    full := nRows.countP fun r =>
      r.streamsAttempted > 0 ∧ (r.samples : Int) = r.streamsAttempted
    someStreams := nRows.countP fun r => 0 < r.samples ∧ (r.samples : Int) < r.streamsAttempted
    noStream := nRows.countP fun r => r.samples = 0
    ratable := ratable.length
    rated := do
      let ratios := ratable.filterMap (·.ratioP50VsN1)
      let worst ← ratios.max?
      let median ← percentile ratios 50
      return { flatQueries := ratable.countP fun r => r.flat = some true, worst, median } }

def natText (n : Nat) : Str := n.repr.toList
def intText (n : Int) : Str := n.repr.toList

/-- The last three cells of a level's line. -/
def MdLevel.cells (l : MdLevel) : Str × Str × Str :=
  match l.rated with
  | none => ("n/a".toList, "n/a".toList, "n/a".toList)
  | some r =>
    let percent := roundHalfEven ((r.flatQueries : ℚ) / l.ratable * 100)
    (natText r.flatQueries ++ "/".toList ++ natText l.ratable ++ " (".toList ++
      intText percent ++ "%)".toList, fixed false 3 r.worst, fixed false 3 r.median)

/-- A line of the table `Verdict by N`. -/
def MdLevel.line (n streams : Int) (l : MdLevel) : Str :=
  "| ".toList ++ intText n ++ " | ".toList ++ intText streams ++ " | ".toList ++
    natText l.total ++ " / ".toList ++ natText l.full ++ " / ".toList ++
    natText l.someStreams ++ " / ".toList ++ natText l.noStream ++ " | ".toList ++
    l.cells.1 ++ " | ".toList ++ l.cells.2.1 ++ " | ".toList ++ l.cells.2.2 ++ " |".toList

/-! ## The rows, in order -/

section Order
variable {α β : Type*} [LinearOrder α] [LinearOrder β]

theorem sorted_strict {l : List α} (h : l.Nodup) : (sorted l).Pairwise (· < ·) :=
  (sorted_pairwise l).imp₂ (fun _ _ hle hne => lt_of_le_of_ne hle hne)
    ((sorted_perm l).nodup_iff.mpr h)

/-- Before in the order of pairs. -/
def Before (a b : α × β) : Prop := a.1 < b.1 ∨ a.1 = b.1 ∧ a.2 < b.2

theorem product_strict {l : List α} {m : List β} (hl : l.Pairwise (· < ·))
    (hm : m.Pairwise (· < ·)) : (l.product m).Pairwise Before := by
  refine List.pairwise_flatMap.mpr ⟨fun a _ => ?_, ?_⟩
  · exact List.pairwise_map.mpr (hm.imp fun h => .inr ⟨rfl, h⟩)
  · refine hl.imp fun hab x hx y hy => ?_
    obtain ⟨b, -, rfl⟩ := List.mem_map.mp hx
    obtain ⟨b', -, rfl⟩ := List.mem_map.mp hy
    exact .inl hab

end Order

/-- A stream that was counted at its level: one with a timing. -/
def counted (streams : List (Int × Lines)) (n : Int) : List (Int × Lines) :=
  streams.filter fun s => s.1 = n ∧ loadQueryTimings s.2 ≠ some []

/-- A query has no more samples at a level than streams were counted there. -/
theorem length_pooled_le (streams : List (Int × Lines)) (levels : List Int) (q : Str) (n : Int) :
    (pooled streams levels q n).length ≤ (counted streams n).length := by
  rw [pooled, List.length_filterMap_eq_countP, counted, ← List.countP_eq_length_filter]
  refine List.countP_mono_left fun s _ hs => ?_
  obtain ⟨wall, hwall⟩ := Option.isSome_iff_exists.mp hs
  unfold contribution at hwall
  split at hwall
  · rename_i hlevel
    refine decide_eq_true ⟨hlevel.1, fun hempty => ?_⟩
    rw [hempty] at hwall
    cases hwall
  · cases hwall

/-! ## The counts of a level -/

/-- Every row of a level is full, partial or empty, and one of the three only. -/
theorem partition_rows {rows : List Row} (h : ∀ r ∈ rows, (r.samples : Int) ≤ r.streamsAttempted) :
    (rows.countP fun r => r.streamsAttempted > 0 ∧ (r.samples : Int) = r.streamsAttempted) +
      (rows.countP fun r => 0 < r.samples ∧ (r.samples : Int) < r.streamsAttempted) +
      (rows.countP fun r => r.samples = 0) = rows.length := by
  induction rows with
  | nil => rfl
  | cons r rest ih =>
    have hhead := h r (List.mem_cons_self ..)
    have htail := ih fun r' hr' => h r' (List.mem_cons_of_mem _ hr')
    simp only [List.countP_cons, List.length_cons, decide_eq_true_eq]
    split_ifs <;> omega

/-- What the two summaries of a level both say. -/
def Agree (json : JsonLevel) (md : MdLevel) : Prop :=
  json.queriesTotal = md.total ∧ json.queriesWithFullCompletion = md.full ∧
    json.queriesWithNoSamples = md.noStream ∧ json.ratableQueries = md.ratable ∧
    json.rated = md.rated

theorem jsonLevel_agree {rows : List Row} {n : Int} {v : JsonLevel}
    (h : jsonLevel rows n = some v) : Agree v (mdLevel rows n) := by
  simp only [jsonLevel] at h
  split at h
  · cases h
  · obtain rfl := Option.some.inj h
    refine ⟨rfl, rfl, ?_, rfl, rfl⟩
    exact (List.length_map _).trans List.countP_eq_length_filter.symm

/-- Flat queries are rated, and rated ones have samples. -/
theorem jsonLevel_chain {rows : List Row} {n : Int} {v : JsonLevel}
    (hrated : ∀ r ∈ rows, r.ratioP50VsN1 ≠ none → 0 < r.samples)
    (h : jsonLevel rows n = some v) :
    (∀ r ∈ v.rated, r.flatQueries ≤ v.ratableQueries) ∧
      v.ratableQueries ≤ v.queriesWithAnySample := by
  simp only [jsonLevel] at h
  split at h
  · cases h
  · obtain rfl := Option.some.inj h
    refine ⟨fun r hr => ?_, ?_⟩
    · simp only [Option.mem_def, Option.bind_eq_bind, Option.bind_eq_some_iff, Option.pure_def,
        Option.some.injEq] at hr
      obtain ⟨worst, -, m, -, rfl⟩ := hr
      exact List.countP_le_length
    · show (List.filter _ _).length ≤ (List.filter _ _).length
      rw [← List.countP_eq_length_filter, ← List.countP_eq_length_filter]
      refine List.countP_mono_left fun r hr hratio => ?_
      exact decide_eq_true (hrated r (List.mem_filter.mp hr).1 (of_decide_eq_true hratio))

/-! ## The accounts -/

/-- What is asked of the rows of a run and of the summaries of a level. -/
structure Accounts (levels : List Int) (ids : List Str) (rows : List Row) : Prop where
  ordered : (rows.map fun r => (r.queryId, r.n)).Pairwise Before
  keys : ∀ q n, (q, n) ∈ rows.map (fun r => (r.queryId, r.n)) ↔ q ∈ ids ∧ n ∈ levels
  samples : ∀ r ∈ rows, 0 ≤ r.samples ∧ (r.samples : Int) ≤ r.n
  partitioned : ∀ n, (mdLevel rows n).full + (mdLevel rows n).someStreams +
    (mdLevel rows n).noStream = (rows.filter fun r => r.n = n).length
  chain : ∀ n, ∀ v ∈ jsonLevel rows n, (∀ r ∈ v.rated, r.flatQueries ≤ v.ratableQueries) ∧
    v.ratableQueries ≤ v.queriesWithAnySample
  agree : ∀ n, ((jsonLevel rows n).isSome ↔ 0 < (mdLevel rows n).total) ∧
    ∀ v ∈ jsonLevel rows n, Agree v (mdLevel rows n)

theorem samples_pos_of_ratio {samples : Samples} {q : Str} {n : Int}
    (h : (rowOf samples q n).ratioP50VsN1 ≠ none) : 0 < (rowOf samples q n).samples := by
  refine List.length_pos_iff.mpr fun hempty => h ?_
  have hnone : ratioAt samples q n = none := by
    rw [ratioAt, samplesAt, hempty]
    rfl
  rw [(rowOf_verdict samples q n).1, hnone]
  rfl

/-- **Nothing is lost or counted twice**, whatever streams and baselines are missing. -/
theorem accounts {runTs : Str} {root : List Entry} {levels : List Int} {ids : List Str}
    {samples : Samples} (hlevels : levels.Nodup) (hids : ids.Nodup)
    (hcollect : root.foldlM (collectStep runTs levels) [] = some samples)
    (hcount : ∀ n ∈ levels, ((counted (streamsOf runTs root) n).length : Int) ≤ n) :
    Accounts levels ids (aggregate samples levels ids) := by
  have each : ∀ r ∈ aggregate samples levels ids, ∃ q ∈ ids, ∃ n ∈ levels,
      r = rowOf samples q n := by
    intro r hr
    obtain ⟨q, hq, hmem⟩ := List.mem_flatMap.mp hr
    obtain ⟨n, hn, rfl⟩ := List.mem_map.mp hmem
    exact ⟨q, mem_sorted.mp hq, n, mem_sorted.mp hn, rfl⟩
  have bounded : ∀ r ∈ aggregate samples levels ids, (r.samples : Int) ≤ r.n := by
    intro r hr
    obtain ⟨q, -, n, hn, rfl⟩ := each r hr
    have hpooled := ((collect_spec hcollect).2 q n).1
    have hle := length_pooled_le (streamsOf runTs root) levels q n
    rw [← hpooled] at hle
    exact (Int.ofNat_le.mpr hle).trans (hcount n hn)
  refine ⟨?_, ?_, ?_, ?_, ?_, ?_⟩
  · rw [aggregate_keys]
    exact product_strict (sorted_strict hids) (sorted_strict hlevels)
  · intro q n
    rw [aggregate_keys]
    exact List.mem_product.trans (and_congr mem_sorted mem_sorted)
  · exact fun r hr => ⟨Nat.zero_le _, bounded r hr⟩
  · intro n
    refine partition_rows fun r hr => ?_
    obtain ⟨hmem, -⟩ := List.mem_filter.mp hr
    obtain ⟨q, -, m, -, rfl⟩ := each r hmem
    exact bounded _ hmem
  · intro n v hv
    refine jsonLevel_chain (fun r hr hratio => ?_) hv
    obtain ⟨q, -, m, -, rfl⟩ := each r hr
    exact samples_pos_of_ratio hratio
  · intro n
    refine ⟨?_, fun v hv => jsonLevel_agree hv⟩
    simp only [jsonLevel, mdLevel, List.length_pos_iff]
    split
    · rename_i hnone
      exact ⟨fun h => absurd h (by simp), fun h => absurd hnone h⟩
    · rename_i hsome
      exact ⟨fun _ => hsome, fun _ => rfl⟩

/-- One stream alone, and two of which the second was lost. -/
def lostStream : List Entry :=
  [{ name := streamName, isDir := true, jsonl := [[queryLine "q01".toList 0 100]] },
    { name := "scaleout_n2_20260528T010203Z_s1".toList, isDir := true
      jsonl := [[queryLine "q01".toList 0 130, queryLine "q14".toList 0 40]] }]

/-- What they pool. -/
def lostSamples : Samples :=
  [(("q01".toList, 1), [100]), (("q01".toList, 2), [130]), (("q14".toList, 2), [40])]

theorem accounts_lostStream : Accounts [1, 2] ["q01".toList, "q14".toList]
    (aggregate lostSamples [1, 2] ["q01".toList, "q14".toList]) := by
  have collected : lostStream.foldlM (collectStep stamp [1, 2]) [] = some lostSamples := rfl
  exact accounts (by decide) (by decide) collected (by decide)

end DeltaForgeBench.ScaleOut.Summary
