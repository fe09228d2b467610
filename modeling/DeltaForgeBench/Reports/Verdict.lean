import DeltaForgeBench.Runner.Measured
import DeltaForgeBench.Reports.GenerateReport

/-! # What the correctness verdict can see

Each engine contributes one hash to a step, the one of its first successful
run, and df contributes none. So the verdict notices a wrong answer exactly
when the first answers of two other engines differ. -/
namespace DeltaForgeBench.Reports.Verdict
open DeltaForgeBench.Base.Text DeltaForgeBench.Base.Hashing
open DeltaForgeBench.Engines.Base DeltaForgeBench.Engines.SqlQuery
open DeltaForgeBench.Workloads.Spec DeltaForgeBench.Runner.Resolve
open DeltaForgeBench.Runner.RunWorkload DeltaForgeBench.Runner.Measured
open DeltaForgeBench.Reports.GenerateReport

section
variable (H : Digest) (binary64 : ℚ → ℚ) (m : MeasuredStep)

/-- The rows of an engine's first successful execution. -/
def firstRows (es : List Execution) (adapter : Adapter) : Option (List Row) :=
  (es.filter fun e => e.adapter = adapter).findSome? (·.returned H binary64 m)

/-- An issue of the check names the step. -/
def Named (records : List Record) (step : Str × Str) : Prop :=
  ∃ issue ∈ correctnessCheck (cellize records), ∃ hashes,
    (step, hashes) ∈ discrepancies (cellize records) ∧ issue = issueText (step, hashes)

/-- Two successful executions returned different multisets of rows. -/
def Diverged (es : List Execution) : Prop :=
  ∃ e ∈ es, ∃ f ∈ es, ∃ A B, e.returned H binary64 m = some A ∧
    f.returned H binary64 m = some B ∧ ¬ A.Perm B

/-- Among the answers of the run, the digested text determines the rows. -/
def RendersInjectively (es : List Execution) : Prop :=
  ∀ e ∈ es, ∀ f ∈ es, ∀ A B, e.returned H binary64 m = some A →
    f.returned H binary64 m = some B → hashedText A = hashedText B → A.Perm B

/-- Two engines other than df differ in their first successful answers. -/
def FirstAnswersDiffer (es : List Execution) : Prop :=
  ∃ a b, a ≠ Adapter.df ∧ b ≠ Adapter.df ∧ ∃ A B, firstRows H binary64 m es a = some A ∧
    firstRows H binary64 m es b = some B ∧ ¬ A.Perm B

/-! ## From executions to hashes -/

variable {H binary64 m}

theorem named_iff (records : List Record) (step : Str × Str) :
    Named records step ↔ ∃ entry ∈ discrepancies (cellize records), entry.1 = step := by
  constructor
  · intro h
    obtain ⟨_, -, hashes, hmem, -⟩ := h
    exact ⟨(step, hashes), hmem, rfl⟩
  · intro h
    obtain ⟨⟨_, hashes⟩, hmem, rfl⟩ := h
    exact ⟨_, List.mem_map.mpr ⟨_, hmem, rfl⟩, hashes, hmem, rfl⟩

/-- The hash an execution contributes: none on df, else that of its rows. -/
theorem execution_sha (rows : m.step.expectsRows = true) (e : Execution) :
    (if succeeded (e.record H binary64 m) then truthy (e.record H binary64 m).resultSha256
      else none) =
      if e.adapter = .df then none
      else (e.returned H binary64 m).map fun A => (hashResultRows H A).1 := by
  have expects : ((m.job e.adapter).resolve m.step).expectsRows = true := by
    rw [← rows]
    exact resolveStep_expectsRows _ _ _ _
  unfold Execution.returned
  rcases e.record_cases H binary64 m with ⟨hexit, -⟩ | ⟨answer, houtcome, hexit, -, -, -, sha⟩
  · have failed : succeeded (e.record H binary64 m) = false := by simpa [succeeded] using hexit
    simp [failed, hexit]
  · have ok : succeeded (e.record H binary64 m) = true := by simpa [succeeded] using hexit
    have full : truthy (some (hashResultRows H answer.rows).1) =
        some (hashResultRows H answer.rows).1 := by
      simp [truthy, hashResultRows, H.nonempty]
    rw [ok, sha, houtcome, if_pos hexit]
    cases hadapter : e.adapter with
    | df => rfl
    | _ => simpa [Adapter.report, fingerprint, hadapter ▸ expects, Except.toOption] using full

theorem findSome?_congr_mem {α β : Type*} {f g : α → Option β} :
    ∀ {l : List α}, (∀ a ∈ l, f a = g a) → l.findSome? f = l.findSome? g
  | [], _ => rfl
  | a :: l, h => by
    rw [List.findSome?_cons, List.findSome?_cons, h a (by simp),
      findSome?_congr_mem fun b hb => h b (by simp [hb])]

theorem firstSha_map (rows : m.step.expectsRows = true) (es : List Execution) (adapter : Adapter) :
    firstSha ((es.filter fun e => e.adapter = adapter).map (·.record H binary64 m)) =
      if adapter = .df then none
      else (firstRows H binary64 m es adapter).map fun A => (hashResultRows H A).1 := by
  have each : firstSha ((es.filter fun e => e.adapter = adapter).map (·.record H binary64 m)) =
      (es.filter fun e => e.adapter = adapter).findSome? fun e =>
        if adapter = .df then none
        else (e.returned H binary64 m).map fun A => (hashResultRows H A).1 := by
    rw [firstSha, List.findSome?_map]
    refine findSome?_congr_mem fun e he => ?_
    have hadapter : e.adapter = adapter := by simpa using (List.mem_filter.mp he).2
    simpa [hadapter] using execution_sha rows e
  rw [each]
  split
  · simp
  · rw [firstRows, List.map_findSome?]
    rfl

/-- The records of the step that an engine wrote are its executions' records. -/
theorem recordsOf_executions {records : List Record} {es : List Execution}
    (own : records.filter (fun r => (r.workload, r.stepId) = m.key) =
      es.map (·.record H binary64 m)) (engine : Str) :
    recordsOf records ⟨m.workload.name, engine, m.step.id⟩ =
      (es.filter fun e => e.adapter.name = engine).map (·.record H binary64 m) := by
  have split : recordsOf records ⟨m.workload.name, engine, m.step.id⟩ =
      (records.filter fun r => (r.workload, r.stepId) = m.key).filter fun r => r.engine = engine := by
    rw [recordsOf, List.filter_filter]
    refine List.filter_congr fun r _ => ?_
    simp only [recordKey, MeasuredStep.key, CellKey.mk.injEq, Prod.mk.injEq]
    rw [← Bool.decide_and, decide_eq_decide]
    exact ⟨fun h => ⟨h.2.1, h.1, h.2.2⟩, fun h => ⟨h.2.1, h.1, h.2.2⟩⟩
  rw [split, own, List.filter_map]
  rfl

theorem hashOf_adapter {records : List Record} {es : List Execution}
    (own : records.filter (fun r => (r.workload, r.stepId) = m.key) =
      es.map (·.record H binary64 m)) (rows : m.step.expectsRows = true) (adapter : Adapter) :
    hashOf (cellize records) m.key adapter.name =
      if adapter = .df then none
      else (firstRows H binary64 m es adapter).map fun A => (hashResultRows H A).1 := by
  have same : (es.filter fun e => e.adapter.name = adapter.name) =
      es.filter fun e => e.adapter = adapter :=
    List.filter_congr fun e _ => by
      rw [decide_eq_decide]
      exact ⟨Adapter.name_injective, fun h => h ▸ rfl⟩
  rw [MeasuredStep.key, hashOf_cellize, recordsOf_executions own, same, firstSha_map rows]
  split
  · rfl
  · cases firstRows H binary64 m es adapter with
    | none => rfl
    | some A => simp [truthy, hashResultRows, H.nonempty]

theorem hashOf_other {records : List Record} {es : List Execution}
    (own : records.filter (fun r => (r.workload, r.stepId) = m.key) =
      es.map (·.record H binary64 m)) {engine : Str} (other : ∀ a : Adapter, a.name ≠ engine) :
    hashOf (cellize records) m.key engine = none := by
  have none_there : (es.filter fun e => e.adapter.name = engine) = [] :=
    List.filter_eq_nil_iff.mpr fun e _ => by simpa using other e.adapter
  rw [MeasuredStep.key, hashOf_cellize, recordsOf_executions own, none_there]
  rfl

theorem firstRows_mem {es : List Execution} {adapter : Adapter} {A : List Row}
    (h : firstRows H binary64 m es adapter = some A) :
    ∃ e ∈ es, e.returned H binary64 m = some A := by
  obtain ⟨e, he, hA⟩ := List.exists_of_findSome?_eq_some h
  exact ⟨e, (List.mem_filter.mp he).1, hA⟩

/-- The step is named exactly when the first answers of two engines differ. -/
theorem named_iff_firstAnswersDiffer {records : List Record} {es : List Execution}
    (own : records.filter (fun r => (r.workload, r.stepId) = m.key) =
      es.map (·.record H binary64 m)) (rows : m.step.expectsRows = true)
    (injective : RendersInjectively H binary64 m es) :
    Named records m.key ↔ FirstAnswersDiffer H binary64 m es := by
  rw [named_iff, discrepancy_iff]
  constructor
  · intro h
    obtain ⟨x, y, u, v, hu, hv, hne⟩ := h
    have known : ∀ {engine h}, hashOf (cellize records) m.key engine = some h →
        ∃ a : Adapter, a.name = engine := by
      intro engine h hh
      by_contra hno
      rw [hashOf_other own (by simpa using hno)] at hh
      cases hh
    obtain ⟨a, rfl⟩ := known hu
    obtain ⟨b, rfl⟩ := known hv
    rw [hashOf_adapter own rows] at hu hv
    split at hu
    · cases hu
    rename_i ha
    split at hv
    · cases hv
    rename_i hb
    obtain ⟨A, hA, rfl⟩ := Option.map_eq_some_iff.mp hu
    obtain ⟨B, hB, rfl⟩ := Option.map_eq_some_iff.mp hv
    exact ⟨a, b, ha, hb, A, B, hA, hB, fun hp => hne (digest_congr H hp)⟩
  · intro h
    obtain ⟨a, b, ha, hb, A, B, hA, hB, hne⟩ := h
    refine ⟨a.name, b.name, (hashResultRows H A).1, (hashResultRows H B).1, ?_, ?_, ?_⟩
    · rw [hashOf_adapter own rows, if_neg ha, hA]
      rfl
    · rw [hashOf_adapter own rows, if_neg hb, hB]
      rfl
    · intro heq
      obtain ⟨e, he, hrA⟩ := firstRows_mem hA
      obtain ⟨f, hf, hrB⟩ := firstRows_mem hB
      exact hne (injective e he f hf A B hrA hrB ((digest_eq_iff_text H A B).mp heq))

/-- **The verdict is sound for a step exactly when its executions all agree or
two engines that are hashed part in their first answers.** -/
theorem verdict_sound_iff {records : List Record} {es : List Execution}
    (own : records.filter (fun r => (r.workload, r.stepId) = m.key) =
      es.map (·.record H binary64 m)) (rows : m.step.expectsRows = true)
    (injective : RendersInjectively H binary64 m es) :
    (Diverged H binary64 m es → Named records m.key) ↔
      (¬ Diverged H binary64 m es ∨ FirstAnswersDiffer H binary64 m es) := by
  rw [named_iff_firstAnswersDiffer own rows injective, imp_iff_not_or]

end

/-! ## A wrong answer on df -/

/-- `q01` of the TPC-H workload. -/
def q01 : MeasuredStep where
  workload := { name := "tpch_read_delta".toList, description := [] }
  step := { id := "q01".toList, kind := .sqlQuery, sql := some "select 1".toList,
            expectsRows := true }
  dataDir := ["data".toList, "tpch_sf1".toList]
  scale := 1

/-- A cold run that returned the one row `(n,)`. -/
def oneRowRun (adapter : Adapter) (n : Int) : Execution where
  adapter := adapter
  runIdx := 0
  purgeVerified := true
  call := { session := none, outcome := .ok { rows := [[.int n]], phases := none, stats := [] }
            sample := { wallMs := 10, rssPeakMb := none, cpuPctAvg := none } }
  timestamp := []

theorem oneRowRun_returned (H : Digest) (binary64 : ℚ → ℚ) (adapter : Adapter) (n : Int) :
    (oneRowRun adapter n).returned H binary64 q01 = some [[.int n]] := by
  cases adapter <;> rfl

/-- DuckDB answers `1`, df answers `2`. -/
def wrongOnDf : List Execution := [oneRowRun .duckdb 1, oneRowRun .df 2]

theorem oneRow_injective : ∀ n ∈ [(1 : Int), 2], ∀ k ∈ [(1 : Int), 2],
    hashedText [[.int n]] = hashedText [[.int k]] → n = k := by decide +kernel

theorem wrongOnDf_returned (H : Digest) (binary64 : ℚ → ℚ) {e : Execution} (he : e ∈ wrongOnDf) :
    ∃ n ∈ [(1 : Int), 2], e.returned H binary64 q01 = some [[.int n]] := by
  rcases List.mem_cons.mp he with rfl | he
  · exact ⟨1, by simp, oneRowRun_returned ..⟩
  · rw [List.mem_singleton.mp he]
    exact ⟨2, by simp, oneRowRun_returned ..⟩

theorem wrongOnDf_injective (H : Digest) (binary64 : ℚ → ℚ) :
    RendersInjectively H binary64 q01 wrongOnDf := by
  intro e he f hf A B hA hB htext
  obtain ⟨n, hn, hAn⟩ := wrongOnDf_returned H binary64 he
  obtain ⟨k, hk, hBk⟩ := wrongOnDf_returned H binary64 hf
  obtain rfl := Option.some.inj (hA.symm.trans hAn)
  obtain rfl := Option.some.inj (hB.symm.trans hBk)
  rw [oneRow_injective n hn k hk htext]

/-- The run of `wrongOnDf`, with the records in the run loop's order. -/
theorem verdict_sound_iff_wrongOnDf :
    (Diverged spelled id q01 wrongOnDf →
        Named (wrongOnDf.map (·.record spelled id q01)) q01.key) ↔
      (¬ Diverged spelled id q01 wrongOnDf ∨ FirstAnswersDiffer spelled id q01 wrongOnDf) :=
  verdict_sound_iff rfl rfl (wrongOnDf_injective spelled id)

/-- df's wrong answer leaves the list of issues without the step. -/
theorem verdict_misses_df : ¬ ∀ (H : Digest) (binary64 : ℚ → ℚ) (m : MeasuredStep)
    (records : List Record) (es : List Execution),
    records.filter (fun r => (r.workload, r.stepId) = m.key) = es.map (·.record H binary64 m) →
    m.step.expectsRows = true → RendersInjectively H binary64 m es →
    Diverged H binary64 m es → Named records m.key := by
  intro sound
  have own : (wrongOnDf.map (·.record spelled id q01)).filter
      (fun r => (r.workload, r.stepId) = q01.key) = wrongOnDf.map (·.record spelled id q01) := rfl
  have injective := wrongOnDf_injective spelled id
  have diverged : Diverged spelled id q01 wrongOnDf :=
    ⟨_, by simp [wrongOnDf], _, by simp [wrongOnDf], _, _, oneRowRun_returned spelled id .duckdb 1,
      oneRowRun_returned spelled id .df 2, by simp⟩
  have named := sound spelled id q01 _ wrongOnDf own rfl injective diverged
  obtain ⟨a, b, ha, hb, A, B, hA, hB, hne⟩ :=
    (named_iff_firstAnswersDiffer own rfl injective).mp named
  have onlyDuckdb : ∀ a A, a ≠ Adapter.df →
      firstRows spelled id q01 wrongOnDf a = some A → A = [[.int 1]] := by
    intro a A ha hA
    cases a with
    | duckdb => exact (Option.some.inj hA).symm
    | df => exact absurd rfl ha
    | _ => cases hA
  exact hne (by rw [onlyDuckdb a A ha hA, onlyDuckdb b B hb hB])

end DeltaForgeBench.Reports.Verdict
