import DeltaForgeBench.Reports.BuildPublished

/-! # Which foreign records reach a page

The pages are rendered per benchmark, from files that hold the records of every
workload of the run. Nothing on the way looks at a record's workload, so a page
is kept apart from other benchmarks only by what the loops pass over. -/
namespace DeltaForgeBench.Reports.Isolation
open DeltaForgeBench.Base.Text DeltaForgeBench.Base.Dict DeltaForgeBench.Base.Sorted
open DeltaForgeBench.Engines.SqlQuery DeltaForgeBench.Reports.BuildPublished

/-- A record of another workload than the page's. -/
def Foreign (bench : Str) (r : RawRecord) : Prop := r.workload ≠ some bench

instance (bench : Str) : DecidablePred (Foreign bench) := fun _ => inferInstanceAs (Decidable (_ ≠ _))

/-- The files with the records of one benchmark only. -/
def ofBench (bench : Str) (files : RecordFiles) : RecordFiles := fun engine =>
  (files engine).map (·.filter fun r => ¬ Foreign bench r)

/-- Every foreign record in the files is an admitted one. -/
def ForeignWithin (bench : Str) (K : RawRecord → Prop) (files : RecordFiles) : Prop :=
  ∀ engine lines, files engine = some lines → ∀ r ∈ lines, Foreign bench r → K r

/-- The tables of the read page depend on the benchmark's own records only, as
long as foreign records come from `K`. -/
def ReadIsolated (bench : Str) (K : RawRecord → Prop) : Prop :=
  ∀ files, ForeignWithin bench K files → renderBench files = renderBench (ofBench bench files)

def WriteIsolated (bench : Str) (nRows : Nat) (K : RawRecord → Prop) : Prop :=
  ∀ files, ForeignWithin bench K files →
    renderWrite nRows files = renderWrite nRows (ofBench bench files)

/-- A record the read page does not show: no query, or a cold run that succeeded. -/
def InertRead (r : RawRecord) : Prop :=
  ¬ ['q'].isPrefixOf r.sid ∨ (r.ms.isSome ∧ r.error = none ∧ r.cold = true)

/-- A record the write page does not show. -/
def InertWrite (r : RawRecord) : Prop := skippedOnWrite r = true

/-! ## Inert records leave no trace -/

/-- Dropping items that a fold passes over changes nothing. -/
theorem foldl_filter_inert {σ ρ : Type*} {step : σ → ρ → σ} {keep : ρ → Bool} :
    ∀ {l : List ρ} (s : σ), (∀ r ∈ l, keep r = false → ∀ s, step s r = s) →
      (l.filter keep).foldl step s = l.foldl step s
  | [], _, _ => rfl
  | r :: l, s, h => by
    have tail := fun s => foldl_filter_inert (l := l) s fun x hx => h x (by simp [hx])
    rw [List.foldl_cons]
    cases hk : keep r with
    | true => rw [List.filter_cons_of_pos hk, List.foldl_cons, tail]
    | false => rw [List.filter_cons_of_neg (by simp [hk]), tail, h r (by simp) hk]

/-- The part of the loader's state that reaches the page. -/
def shown (s : LoadState) : List (Str × List ℚ) × Option Str := (s.warm, s.firstError)

/-- What a record adds to it. -/
def shownStep (v : List (Str × List ℚ) × Option Str) (r : RawRecord) :
    List (Str × List ℚ) × Option Str :=
  if ¬ ['q'].isPrefixOf r.sid then v
  else match r.ms, r.error with
    | some ms, none =>
      if r.cold then v else (set v.1 r.sid (((get? v.1 r.sid).getD []) ++ [ms]), v.2)
    | _, _ => (v.1, v.2.or (some r.errorLine))

theorem shown_loadStep (s : LoadState) (r : RawRecord) :
    shown (loadStep s r) = shownStep (shown s) r := by
  unfold loadStep shownStep
  split
  · rfl
  · cases r.ms with
    | none => rfl
    | some ms =>
      cases r.error with
      | some e => rfl
      | none =>
        simp only
        split <;> rfl

theorem shownStep_inert {r : RawRecord} (h : InertRead r) (v : List (Str × List ℚ) × Option Str) :
    shownStep v r = v := by
  unfold shownStep
  rcases h with h | ⟨hms, herr, hcold⟩
  · rw [if_pos h]
  · obtain ⟨ms, hms⟩ := Option.isSome_iff_exists.mp hms
    simp [hms, herr, hcold]

theorem shown_foldl (lines : List RawRecord) :
    shown (lines.foldl loadStep {}) = lines.foldl shownStep (shown {}) :=
  List.foldl_hom shown (fun s r => (shown_loadStep s r).symm) |>.symm

/-- The loader's medians and first error, by what the page shows. -/
theorem loadEngineRecords_shown (lines : List RawRecord) :
    (loadEngineRecords lines).1 =
        (lines.foldl shownStep (shown {})).1.map (fun (q, v) => (q, median v)) ∧
      (loadEngineRecords lines).2.firstError = (lines.foldl shownStep (shown {})).2 := by
  rw [← shown_foldl]
  exact ⟨rfl, rfl⟩

theorem loadEngineRecords_ofBench {bench : Str} {lines : List RawRecord}
    (inert : ∀ r ∈ lines, Foreign bench r → InertRead r) :
    (loadEngineRecords (lines.filter fun r => ¬ Foreign bench r)).1 = (loadEngineRecords lines).1 ∧
      (loadEngineRecords (lines.filter fun r => ¬ Foreign bench r)).2.firstError =
        (loadEngineRecords lines).2.firstError := by
  have same : (lines.filter fun r => ¬ Foreign bench r).foldl shownStep (shown {}) =
      lines.foldl shownStep (shown {}) :=
    foldl_filter_inert _ fun r hr hk v => shownStep_inert (inert r hr (by simpa using hk)) v
  obtain ⟨hm, he⟩ := loadEngineRecords_shown (lines.filter fun r => ¬ Foreign bench r)
  obtain ⟨hm', he'⟩ := loadEngineRecords_shown lines
  rw [hm, he, hm', he', same]
  exact ⟨rfl, rfl⟩

theorem readIsolated_of_inert {bench : Str} {K : RawRecord → Prop}
    (h : ∀ r, K r → Foreign bench r → InertRead r) : ReadIsolated bench K := by
  intro files within
  have same : ∀ e, (loaded (ofBench bench files) e).1 = (loaded files e).1 ∧
      (loaded (ofBench bench files) e).2.firstError = (loaded files e).2.firstError := by
    intro e
    unfold loaded ofBench
    cases hf : files e with
    | none => exact ⟨rfl, rfl⟩
    | some lines =>
      exact loadEngineRecords_ofBench fun r hr foreign => h r (within e lines hf r hr foreign) foreign
  unfold renderBench
  simp only [fun e => (same e).1, fun e => (same e).2]

theorem writeIsolated_of_inert {bench : Str} {nRows : Nat} {K : RawRecord → Prop}
    (h : ∀ r, K r → Foreign bench r → InertWrite r) : WriteIsolated bench nRows K := by
  intro files within
  have same : ∀ e, writeStats nRows (ofBench bench files e) = writeStats nRows (files e) := by
    intro e
    unfold ofBench
    cases hf : files e with
    | none => rfl
    | some lines =>
      have dropped : (lines.filter fun r => ¬ Foreign bench r).foldl writeStep {} =
          lines.foldl writeStep {} :=
        foldl_filter_inert _ fun r hr hk s => by
          have foreign : Foreign bench r := by simpa using hk
          exact if_pos (h r (within e lines hf r hr foreign) foreign)
      simp only [Option.map_some, writeStats, dropped]
  unfold renderWrite
  simp only [same]

/-! ## Every other record can show -/

/-- A results directory with a file of df alone. -/
def onlyDf (lines : List RawRecord) : RecordFiles := fun e => if e = .df then some lines else none

theorem onlyDf_within {bench : Str} {K : RawRecord → Prop} {lines : List RawRecord}
    (h : ∀ r ∈ lines, Foreign bench r → K r) : ForeignWithin bench K (onlyDf lines) := by
  intro engine ls hls r hr foreign
  unfold onlyDf at hls
  split at hls
  · exact h r (Option.some.inj hls ▸ hr) foreign
  · cases hls

theorem ofBench_onlyDf (bench : Str) (lines : List RawRecord) :
    ofBench bench (onlyDf lines) = onlyDf (lines.filter fun r => ¬ Foreign bench r) := by
  funext e
  unfold ofBench onlyDf
  split <;> rfl

theorem filter_own {bench : Str} {r x : RawRecord} (foreign : Foreign bench r)
    (own : x.workload = some bench) : ([r, x].filter fun r => ¬ Foreign bench r) = [x] := by
  rw [List.filter_cons_of_neg (by simpa using foreign),
    List.filter_cons_of_pos (by simp [Foreign, own]), List.filter_nil]

theorem pair_within {bench : Str} {K : RawRecord → Prop} {r x : RawRecord} (hK : K r)
    (own : x.workload = some bench) : ForeignWithin bench K (onlyDf [r, x]) := by
  refine onlyDf_within fun y hy hforeign => ?_
  rcases List.mem_cons.mp hy with rfl | hy
  · exact hK
  · rw [List.mem_singleton.mp hy] at hforeign
    exact absurd own hforeign

theorem orText_some {a : Str} (h : a ≠ []) (b : Str) : orText (some a) b = a := by
  simp [orText, Option.filter, h]

/-- The benchmark's own record of a query that failed with the given message. -/
def ownFailure (bench message : Str) : RawRecord where
  workload := some bench
  stepId := some ['q']
  wallMs := none
  engineReportedMs := none
  error := some message
  cold := false

/-- The benchmark's own warm run of one second. -/
def ownWarm (bench : Str) : RawRecord where
  workload := some bench
  stepId := some ['w']
  wallMs := some 1000
  engineReportedMs := none
  error := none
  cold := false

/-- The note of the first completion row. -/
def firstNote (t : BenchTables) : Option Str := (t.completion.headD []).getLast?

theorem firstNote_onlyDf (lines : List RawRecord) :
    firstNote (renderBench (onlyDf lines)) =
      some (orText (loadEngineRecords lines).2.firstError "no failures".toList) := rfl

theorem perQuery_onlyDf (lines : List RawRecord) :
    (renderBench (onlyDf lines)).perQuery.length =
      ((loadEngineRecords lines).1.map Prod.fst).dedup.length := by
  have keys : (engineOrder.flatMap fun e => ((loaded (onlyDf lines) e).1).map Prod.fst) =
      (loadEngineRecords lines).1.map Prod.fst := by
    simp [engineOrder, loaded, onlyDf]
  simp only [renderBench, benchTablesOf, queriesOf, List.length_map, length_sorted, keys]

theorem firstError_of_failure {r : RawRecord} (hq : ['q'].isPrefixOf r.sid = true)
    (h : r.ms = none ∨ r.error ≠ none) (rest : List RawRecord) :
    (loadEngineRecords (r :: rest)).2.firstError = some r.errorLine := by
  have first : shownStep (shown {}) r = ([], some r.errorLine) := by
    unfold shownStep
    rw [if_neg (by simp [hq])]
    cases hms : r.ms with
    | none => rfl
    | some ms =>
      cases herr : r.error with
      | none => exact absurd herr (h.resolve_left (by simp [hms]))
      | some e => rfl
  have keeps : ∀ (lines : List RawRecord) (v : List (Str × List ℚ)),
      (lines.foldl shownStep (v, some r.errorLine)).2 = some r.errorLine := by
    intro lines
    induction lines with
    | nil => intro v; rfl
    | cons x lines ih =>
      intro v
      have one : ∃ v', shownStep (v, some r.errorLine) x = (v', some r.errorLine) := by
        unfold shownStep
        split
        · exact ⟨v, rfl⟩
        · split
          · split
            · exact ⟨v, rfl⟩
            · exact ⟨_, rfl⟩
          · exact ⟨v, rfl⟩
      obtain ⟨v', hv'⟩ := one
      rw [List.foldl_cons, hv']
      exact ih v'
  rw [(loadEngineRecords_shown _).2, List.foldl_cons, first]
  exact keeps rest []

theorem inert_of_readIsolated {bench : Str} {K : RawRecord → Prop} (isolated : ReadIsolated bench K)
    {r : RawRecord} (hK : K r) (foreign : Foreign bench r) : InertRead r := by
  by_contra hinert
  simp only [InertRead, not_or, not_not] at hinert
  obtain ⟨hq, hrest⟩ := hinert
  by_cases hfail : r.ms = none ∨ r.error ≠ none
  · have note : ∀ m : Str, m ≠ [] → (ownFailure bench m).errorLine = m →
        orText (some r.errorLine) "no failures".toList = m := by
      intro m hm hline
      have same := isolated (onlyDf [r, ownFailure bench m]) (pair_within hK rfl)
      rw [ofBench_onlyDf, filter_own foreign rfl] at same
      have h := congrArg firstNote same
      rw [firstNote_onlyDf, firstNote_onlyDf, firstError_of_failure hq hfail,
        firstError_of_failure (r := ownFailure bench m) rfl (.inl rfl), hline,
        orText_some hm] at h
      exact Option.some.inj h
    have ha := note ['a'] (by simp) rfl
    have hb := note ['b'] (by simp) rfl
    exact absurd (ha.symm.trans hb) (by decide)
  · obtain ⟨hms, herr⟩ := not_or.mp hfail
    obtain ⟨ms, hms⟩ := Option.ne_none_iff_exists'.mp hms
    have herr : r.error = none := not_not.mp herr
    have hwarm : r.cold = false := by
      cases hc : r.cold with
      | false => rfl
      | true => exact absurd ⟨by simp [hms], herr, hc⟩ hrest
    have same := isolated (onlyDf [r]) (onlyDf_within fun x hx _ => List.mem_singleton.mp hx ▸ hK)
    rw [ofBench_onlyDf, show ([r].filter fun r => ¬ Foreign bench r) = [] by simp [foreign]] at same
    have h := congrArg (fun t => t.perQuery.length) same
    simp only [perQuery_onlyDf, (loadEngineRecords_shown _).1] at h
    simp [shownStep, shown, hq, hms, herr, hwarm, Base.Dict.set] at h

/-- What the completion column says of the first engine. -/
def firstCompleted (t : Option WriteTables) : Option Str :=
  t.bind fun t => (t.headline.headD [])[1]?

def completedText (ok fail : Nat) : Str :=
  ok.repr.toList ++ " / ".toList ++ (ok + fail).repr.toList

theorem writeStats_counts {nRows : Nat} {lines : List RawRecord} {s : WriteStats}
    (h : writeStats nRows (some lines) = some (some s)) :
    s.ok = (lines.foldl writeStep {}).ok ∧ s.fail = (lines.foldl writeStep {}).fail := by
  simp only [writeStats] at h
  split at h
  · split at h
    · cases h
    · cases h
      exact ⟨rfl, rfl⟩
  · cases h

theorem firstCompleted_onlyDf {nRows : Nat} {lines : List RawRecord} {text : Str}
    (h : firstCompleted (renderWrite nRows (onlyDf lines)) = some text) :
    text = "skipped".toList ∨
      text = completedText (lines.foldl writeStep {}).ok (lines.foldl writeStep {}).fail := by
  unfold renderWrite firstCompleted at h
  split at h
  · cases hst : writeStats nRows (some lines) with
    | none =>
      rename_i hall
      simp [engineOrder, onlyDf, hst] at hall
    | some st =>
      have row : (headlineRow .df st)[1]? = some text := by
        simpa [writeTablesOf, engineOrder, onlyDf, hst] using h
      cases st with
      | none => exact .inl (Option.some.inj row).symm
      | some s =>
        obtain ⟨hok, hfail⟩ := writeStats_counts hst
        refine .inr ?_
        rw [← hok, ← hfail]
        exact (Option.some.inj row).symm
  · cases h

theorem firstCompleted_of_stats {nRows : Nat} {lines : List RawRecord} {s : WriteStats}
    (h : writeStats nRows (some lines) = some (some s)) :
    firstCompleted (renderWrite nRows (onlyDf lines)) = some (completedText s.ok s.fail) := by
  have none_there : writeStats nRows none = some none := rfl
  unfold renderWrite firstCompleted
  rw [if_pos (by simp [engineOrder, onlyDf, h, none_there])]
  simp [writeTablesOf, engineOrder, onlyDf, h, headlineRow, completedText]

theorem firstCompleted_ownWarm (bench : Str) (nRows : Nat) :
    firstCompleted (renderWrite nRows (onlyDf [ownWarm bench])) = some "1 / 1".toList := by
  have med : median [(1000 : ℚ)] = some 1000 := by decide +kernel
  have p95 : (sorted [(1000 : ℚ)])[p95Index 1]? = some 1000 := by decide +kernel
  have state : [ownWarm bench].foldl writeStep {} = { warmWall := [1000], ok := 1 } := rfl
  have stats : ∃ s, writeStats nRows (some [ownWarm bench]) = some (some s) ∧
      s.ok = 1 ∧ s.fail = 0 := by
    simp only [writeStats, state, med, List.length_singleton, p95]
    exact ⟨_, rfl, rfl, rfl⟩
  obtain ⟨s, hs, hok, hfail⟩ := stats
  rw [firstCompleted_of_stats hs, hok, hfail]
  rfl

/-- A record the write page counts is counted next to the benchmark's own run. -/
theorem writeStep_counts {bench : Str} {r : RawRecord} (h : ¬ InertWrite r) :
    (([r, ownWarm bench].foldl writeStep {}).ok = 2 ∧
        ([r, ownWarm bench].foldl writeStep {}).fail = 0) ∨
      (([r, ownWarm bench].foldl writeStep {}).ok = 1 ∧
        ([r, ownWarm bench].foldl writeStep {}).fail = 1) := by
  have own : ∀ s, (writeStep s (ownWarm bench)).ok = s.ok + 1 ∧
      (writeStep s (ownWarm bench)).fail = s.fail := fun s => ⟨rfl, rfl⟩
  have counted : ¬ skippedOnWrite r = true := h
  simp only [List.foldl_cons, List.foldl_nil, own]
  unfold writeStep
  rw [if_neg counted]
  cases r.wallMs with
  | none => exact .inr ⟨rfl, rfl⟩
  | some wall =>
    cases r.error with
    | some e => exact .inr ⟨rfl, rfl⟩
    | none =>
      simp only
      split <;> exact .inl ⟨rfl, rfl⟩

theorem inert_of_writeIsolated {bench : Str} {nRows : Nat} {K : RawRecord → Prop}
    (isolated : WriteIsolated bench nRows K) {r : RawRecord} (hK : K r) (foreign : Foreign bench r) :
    InertWrite r := by
  by_contra hinert
  have same := isolated (onlyDf [r, ownWarm bench]) (pair_within hK rfl)
  rw [ofBench_onlyDf, filter_own foreign rfl] at same
  have h := congrArg firstCompleted same
  rw [firstCompleted_ownWarm] at h
  rcases firstCompleted_onlyDf h with h | h
  · exact absurd h (by decide)
  · rcases @writeStep_counts bench r hinert with ⟨hok, hfail⟩ | ⟨hok, hfail⟩
    · rw [hok, hfail] at h
      exact absurd h (by decide)
    · rw [hok, hfail] at h
      exact absurd h (by decide)

/-- **Isolation of the pages.** The tables of a benchmark's page depend on its
own records only, over all files whose foreign records come from `K`, exactly
when the loops pass over every foreign record of `K`. -/
theorem isolated_iff (bench : Str) (nRows : Nat) (K : RawRecord → Prop) :
    (ReadIsolated bench K ↔ ∀ r, K r → Foreign bench r → InertRead r) ∧
      (WriteIsolated bench nRows K ↔ ∀ r, K r → Foreign bench r → InertWrite r) :=
  ⟨⟨fun h _ hK foreign => inert_of_readIsolated h hK foreign, readIsolated_of_inert⟩,
   ⟨fun h _ hK foreign => inert_of_writeIsolated h hK foreign, writeIsolated_of_inert⟩⟩

/-- A warm run of `q01` of some workload. -/
def warmQ01 (workload : Str) (wallMs : ℚ) : RawRecord where
  workload := some workload
  stepId := some "q01".toList
  wallMs := some wallMs
  engineReportedMs := none
  error := none
  cold := false

/-- `q01` of TPC-DS moves the published time of `q01` of TPC-H. -/
theorem pages_mix_workloads : ¬ ∀ (bench : Str) (nRows : Nat) (files : RecordFiles),
    renderBench files = renderBench (ofBench bench files) ∧
      renderWrite nRows files = renderWrite nRows (ofBench bench files) := by
  intro h
  have same := (h "tpch_read_delta".toList 0
    (onlyDf [warmQ01 "tpch_read_delta".toList 10, warmQ01 "tpcds_read_delta".toList 50])).1
  revert same
  decide +kernel

end DeltaForgeBench.Reports.Isolation
