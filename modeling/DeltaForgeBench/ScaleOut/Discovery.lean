import DeltaForgeBench.ScaleOut.Matrix
import DeltaForgeBench.ScaleOut.StreamDirs

/-! # The curve of a matrix

The aggregator finds the record files of the streams of its run, each at its
level, and nothing else; what it prints depends only on these, neither on the
order of the directories nor on the order in which the streams wrote. -/
namespace DeltaForgeBench.ScaleOut.Discovery
open DeltaForgeBench.Base.Text DeltaForgeBench.Base.Dict DeltaForgeBench.Base.Sorted
open DeltaForgeBench.Base.Runs
open DeltaForgeBench.ScaleOut.Aggregate DeltaForgeBench.ScaleOut.Curve DeltaForgeBench.ScaleOut.Laws
open DeltaForgeBench.ScaleOut.Orchestrate DeltaForgeBench.ScaleOut.Matrix
open DeltaForgeBench.ScaleOut.StreamDirs

/-! ## What is found -/

/-- `sorted(results_root.iterdir())`. -/
def entries (disk : List (Str × List Lines)) : List Entry :=
  (sortedBy Prod.fst disk).map fun d => ⟨d.1, true, d.2⟩

/-- What a stream of a level leaves to the aggregator. -/
def left (p : Process) : Option (Int × Lines) :=
  p.stream.level.bind fun n => p.log.map fun lines => (n, lines)

section
variable {cfg : Config} {warmupTs runTs : Str} {before : List (Str × List Lines)} {s : State}

/-- A directory of the run. -/
def isOurs (runTs : Str) (d : Str × List Lines) : Bool :=
  ((parseStreamDir d.1).map fun found => decide (found.2.1 = runTs)).getD false

theorem entry_stream (runTs : Str) (d : Str × List Lines) :
    Entry.stream runTs ⟨d.1, true, d.2⟩ = if isOurs runTs d then
      (parseStreamDir d.1).bind fun found => d.2.getLast?.map fun lines => ((found.1 : Int), lines)
    else none := by
  unfold Entry.stream isOurs
  cases hparse : parseStreamDir d.1 with
  | none => rfl
  | some found =>
    obtain ⟨n, ts, i⟩ := found
    by_cases h : ts = runTs <;> simp [h, discoverJsonl]

theorem streamsOf_perm (runTs : Str) (disk : List (Str × List Lines)) :
    (streamsOf runTs (entries disk)).Perm
      ((disk.filter (isOurs runTs)).filterMap fun d => Entry.stream runTs ⟨d.1, true, d.2⟩) := by
  have hall : (streamsOf runTs (entries disk)).Perm
      (disk.filterMap fun d => Entry.stream runTs ⟨d.1, true, d.2⟩) := by
    rw [streamsOf, entries, List.filterMap_map]
    exact (sortedBy_perm Prod.fst disk).filterMap _
  refine hall.trans (List.Perm.of_eq ?_)
  rw [List.filterMap_filter]
  refine List.filterMap_congr fun d _ => ?_
  rw [entry_stream]
  by_cases h : isOurs runTs d <;> simp [h]

/-- The directories of the run are those of the streams of its levels. -/
theorem ours_perm (hfiled : Filed runTs s) (htagged : Tagged runTs s) :
    (s.resultsRoot.filter (isOurs runTs)).Perm
      ((s.processes.filter (·.stream.level.isSome)).map fun p => (p.stream.streamTag, p.log.toList)) := by
  have hleft : (s.resultsRoot.filter (isOurs runTs)).Nodup :=
    (List.Nodup.of_map _ hfiled.keys).filter _
  have hright : ((s.processes.filter (·.stream.level.isSome)).map
      fun p => (p.stream.streamTag, p.log.toList)).Nodup := by
    refine List.Nodup.of_map Prod.fst ?_
    rw [List.map_map]
    exact htagged.tags.sublist (List.filter_sublist.map _)
  refine (List.perm_ext_iff_of_nodup hleft hright).mpr fun d => ?_
  obtain ⟨name, files⟩ := d
  constructor
  · intro h
    obtain ⟨hmem, hours⟩ := List.mem_filter.mp h
    obtain ⟨⟨n, ts, i⟩, hparse, hts⟩ : ∃ found, parseStreamDir name = some found ∧
        found.2.1 = runTs := by
      unfold isOurs at hours
      cases hparse : parseStreamDir name with
      | none => simp [hparse] at hours
      | some found => exact ⟨found, rfl, by simpa [hparse] using hours⟩
    obtain rfl : ts = runTs := hts
    obtain ⟨p, hp, hlevel, rfl⟩ := hfiled.own name (List.mem_map_of_mem hmem) n i hparse
    have hget := hfiled.written p hp hlevel
    rw [(get?_eq_some_iff hfiled.keys).mpr hmem] at hget
    obtain rfl := Option.some.inj hget
    exact List.mem_map_of_mem (List.mem_filter.mpr ⟨hp, Option.isSome_iff_ne_none.mpr hlevel⟩)
  · intro h
    obtain ⟨p, hp, heq⟩ := List.mem_map.mp h
    obtain ⟨hp, hlevel⟩ := List.mem_filter.mp hp
    obtain ⟨rfl, rfl⟩ := Prod.mk.inj heq
    have hlevel : p.stream.level ≠ none := Option.isSome_iff_ne_none.mp hlevel
    refine List.mem_filter.mpr ⟨mem_of_get? (hfiled.written p hp hlevel), ?_⟩
    rcases htagged.named p hp with ⟨hnone, -⟩ | ⟨n, i, -, hparse⟩
    · exact absurd hnone hlevel
    · simp [isOurs, hparse]

theorem discovered (hts : IsStamp runTs) (hnd : cfg.nValues.Nodup) (hfresh : Fresh runTs before)
    (h : Reachable (matrix cfg warmupTs runTs before) s) :
    (streamsOf runTs (entries s.resultsRoot)).Perm (s.processes.filterMap left) := by
  have htagged := reachable_tagged hts hnd h
  refine (streamsOf_perm runTs s.resultsRoot).trans ?_
  refine ((ours_perm (reachable_filed hts hnd hfresh h) htagged).filterMap _).trans
    (List.Perm.of_eq ?_)
  rw [List.filterMap_map, List.filterMap_filter]
  refine List.filterMap_congr fun p hp => ?_
  rcases htagged.named p hp with ⟨hnone, -⟩ | ⟨n, i, hlevel, hparse⟩
  · simp [left, hnone]
  · cases hlog : p.log <;> simp [left, hlevel, entry_stream, isOurs, hparse, hlog]

/-- **The aggregator finds what the streams of its run have written**, each file
at the level of its stream, whatever else the results root holds; at the end of
the matrix these are the streams of the plan. -/
theorem streams_discovered (hts : IsStamp runTs) (hnd : cfg.nValues.Nodup)
    (hfresh : Fresh runTs before) (h : Reachable (matrix cfg warmupTs runTs before) s) :
    (streamsOf runTs (entries s.resultsRoot)).Perm (s.processes.filterMap left) ∧
      (s.Measured → s.processes.map (·.stream) = plan cfg warmupTs runTs) := by
  refine ⟨discovered hts hnd hfresh h, fun hend => ?_⟩
  obtain ⟨past, cur, hinv⟩ := Phases.reachable_inv h
  have hst := hinv.stands
  unfold Phases.Stands at hst
  rw [hend] at hst
  obtain ⟨rfl, hall⟩ := hst
  rw [hinv.processes, List.append_nil, Phases.map_stream_behind hinv.settled, plan, hall,
    List.append_nil]

end

/-! ## What is printed of it -/

section
variable {levels : List Int} {streams streams' : List (Int × Lines)} {samples samples' : Samples}

theorem isSome_samples (hs : Gathered streams levels samples) (q : Str) (n : Int) :
    (get? samples (q, n)).isSome ↔ samplesAt samples q n ≠ [] := by
  obtain ⟨-, hne⟩ := hs q n
  unfold samplesAt
  cases h : get? samples (q, n) with
  | none => simp
  | some l => simpa using fun hl : l = [] => hne (hl ▸ h)

/-- The queries with a sample are those of the samples. -/
theorem universe_perm (hs : Gathered streams levels samples) (hs' : Gathered streams' levels samples')
    (h : ∀ q n, (samplesAt samples q n).Perm (samplesAt samples' q n)) :
    ((samples.map fun s => s.1.1).dedup).Perm (samples'.map fun s => s.1.1).dedup := by
  have mem_iff : ∀ (samples : Samples) (q : Str), q ∈ (samples.map fun s => s.1.1).dedup ↔
      ∃ n, (get? samples (q, n)).isSome := by
    intro samples q
    simp only [List.mem_dedup, get?_isSome_iff, List.mem_map, Prod.exists, exists_and_right,
      exists_eq_right]
  refine (List.perm_ext_iff_of_nodup (List.nodup_dedup _) (List.nodup_dedup _)).mpr fun q => ?_
  rw [mem_iff, mem_iff]
  refine exists_congr fun n => ?_
  rw [isSome_samples hs, isSome_samples hs', ne_eq, ne_eq, ← List.length_eq_zero_iff,
    ← List.length_eq_zero_iff, (h q n).length_eq]

theorem aggregate_perm (h : ∀ q n, (samplesAt samples q n).Perm (samplesAt samples' q n))
    {ids ids' : List Str} (hids : ids.Perm ids') :
    aggregate samples levels ids = aggregate samples' levels ids' := by
  rw [aggregate_eq_map, aggregate_eq_map, sorted_congr hids]
  exact List.map_congr_left fun k _ => rowOf_congr (h k.1 k.2) (h k.1 1)

/-- The streams of the levels can be read. -/
def AllRead (streams : List (Int × Lines)) (levels : List Int) : Prop :=
  ∀ s ∈ streams, s.1 ∈ levels → (loadQueryTimings s.2).isSome

end

/-- The curve is a function of what is pooled for each query at each level. -/
theorem main_congr (asked : List Int) {runTs runTs' : Str} {root root' : List Entry}
    (hread : ∀ levels, AllRead (streamsOf runTs root) levels ↔ AllRead (streamsOf runTs' root') levels)
    (hpool : ∀ levels q n, (pooled (streamsOf runTs root) levels q n).Perm
      (pooled (streamsOf runTs' root') levels q n)) :
    main asked runTs root = main asked runTs' root' := by
  unfold main
  cases nValues asked with
  | none => rfl
  | some levels =>
    simp only
    cases hc : root.foldlM (collectStep runTs levels) [] with
    | none =>
      cases hc' : root'.foldlM (collectStep runTs' levels) [] with
      | none => rfl
      | some samples' =>
        have reads : (root.foldlM (collectStep runTs levels) []).isSome :=
          collect_reads ((hread levels).mpr (collect_spec hc').1)
        rw [hc] at reads
        cases reads
    | some samples =>
      obtain ⟨hall, hgathered⟩ := collect_spec hc
      have reads : (root'.foldlM (collectStep runTs' levels) []).isSome :=
        collect_reads ((hread levels).mp hall)
      obtain ⟨samples', hc'⟩ := Option.isSome_iff_exists.mp reads
      obtain ⟨-, hgathered'⟩ := collect_spec hc'
      have hperm : ∀ q n, (samplesAt samples q n).Perm (samplesAt samples' q n) := by
        intro q n
        rw [samplesAt, samplesAt, (hgathered q n).1, (hgathered' q n).1]
        exact hpool levels q n
      have hids := universe_perm hgathered hgathered' hperm
      have hempty : (samples.map fun s => s.1.1).dedup = [] ↔
          (samples'.map fun s => s.1.1).dedup = [] := by
        rw [← List.length_eq_zero_iff, ← List.length_eq_zero_iff, hids.length_eq]
      rw [hc']
      simp only [hempty, aggregate_perm hperm hids]

/-- The curve is a function of the record files and their levels, in any order. -/
theorem main_perm (asked : List Int) {runTs runTs' : Str} {root root' : List Entry}
    (h : (streamsOf runTs root).Perm (streamsOf runTs' root')) :
    main asked runTs root = main asked runTs' root' :=
  main_congr asked
    (fun _ => ⟨fun hread s hs => hread s (h.mem_iff.mpr hs), fun hread s hs => hread s (h.mem_iff.mp hs)⟩)
    fun _ _ _ => h.filterMap _

/-- A matrix with what it ran on: its environment, its timestamps, the results
root it started from, and the state it has reached. -/
structure Matrix where
  cfg : Config
  warmupTs : Str
  runTs : Str
  before : List (Str × List Lines)
  state : State
  stamp : IsStamp runTs
  distinct : cfg.nValues.Nodup
  fresh : Fresh runTs before
  reached : Reachable (matrix cfg warmupTs runTs before) state

/-- The rows `aggregate.py` computes for a matrix. -/
def Matrix.curve (m : Matrix) (asked : List Int) : Except Exit (List Row) :=
  main asked m.runTs (entries m.state.resultsRoot)

/-- **Two matrices whose streams left the same record files at the same levels
give the same curve**, whatever the order in which their streams were scheduled,
wrote and exited, and whatever else was on the disk. -/
theorem curve_of_records (m m' : Matrix)
    (h : (m.state.processes.filterMap left).Perm (m'.state.processes.filterMap left))
    (asked : List Int) : m.curve asked = m'.curve asked := by
  have found := discovered m.stamp m.distinct m.fresh m.reached
  have found' := discovered m'.stamp m'.distinct m'.fresh m'.reached
  exact main_perm asked (found.trans (h.trans found'.symm))

/-! ## Two interleavings -/

theorem stamp_isStamp : IsStamp stamp := ⟨rfl, rfl, rfl, rfl, rfl⟩

/-- One level after the other, without a warm-up. -/
def noWarmup : Config := ⟨[1, 2], 8, 4, 8, true⟩

def q01 (wallMs : ℚ) : Option TimingRecord := queryLine "q01".toList 0 wallMs

/-- The first level. -/
def alone : List Event :=
  [.script, .script, .opened 0, .recorded 0 (q01 100), .exited 0 0, .script, .script, .script]

/-- The two streams of the second level take turns. -/
def inTurns : List Event :=
  alone ++ [.script, .script, .script, .opened 1, .opened 2, .recorded 1 (q01 110),
    .recorded 2 (q01 120), .exited 1 0, .exited 2 0, .script, .script, .script, .script]

/-- The second one is done before the first one has written a line. -/
def secondFirst : List Event :=
  alone ++ [.script, .script, .script, .opened 2, .recorded 2 (q01 120), .exited 2 0, .opened 1,
    .recorded 1 (q01 110), .exited 1 0, .script, .script, .script, .script]

/-- A matrix on an empty results root. -/
def onEmptyRoot (events : List Event) : Matrix where
  cfg := noWarmup
  warmupTs := []
  runTs := stamp
  before := []
  state := played noWarmup [] stamp events
  stamp := stamp_isStamp
  distinct := by simp [noWarmup]
  fresh := ⟨List.nodup_nil, nofun⟩
  reached := reachable_played _ _ _ _

theorem inTurns_left : (onEmptyRoot inTurns).state.processes.filterMap left =
    [(1, [q01 100]), (2, [q01 110]), (2, [q01 120])] := rfl

theorem secondFirst_left : (onEmptyRoot secondFirst).state.processes.filterMap left =
    [(1, [q01 100]), (2, [q01 110]), (2, [q01 120])] := rfl

theorem streams_discovered_inTurns :
    (streamsOf stamp (entries (onEmptyRoot inTurns).state.resultsRoot)).Perm
        [(1, [q01 100]), (2, [q01 110]), (2, [q01 120])] ∧
      (onEmptyRoot inTurns).state.processes.map (·.stream) = plan noWarmup [] stamp := by
  have found := streams_discovered stamp_isStamp (onEmptyRoot inTurns).distinct
    (onEmptyRoot inTurns).fresh (onEmptyRoot inTurns).reached
  rw [inTurns_left] at found
  exact ⟨found.1, found.2 rfl⟩

theorem curve_of_records_interleaved :
    (onEmptyRoot inTurns).curve [1, 2] = (onEmptyRoot secondFirst).curve [1, 2] :=
  curve_of_records _ _ (List.Perm.of_eq (inTurns_left.trans secondFirst_left.symm)) [1, 2]

end DeltaForgeBench.ScaleOut.Discovery
