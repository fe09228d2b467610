import DeltaForgeBench.ScaleOut.Aggregate

/-! # The timing of a query

The loop over a record file keeps one time for each query. The first success of
a query gives it one, of any kind; from then on only warm successes replace it.
So the order of cold and warm records does not matter beyond that. -/
namespace DeltaForgeBench.ScaleOut.QueryTimings
open DeltaForgeBench.Base.Text DeltaForgeBench.Base.Dict DeltaForgeBench.ScaleOut.Aggregate

variable {lines : Lines} {timings timings' : Timings}

/-- The time of a line that is a success of the query, of the kind asked for. -/
def successMs (q : Str) (cold : Bool) (line : Option TimingRecord) : Option ℚ :=
  line.bind fun r =>
    if r.isQuery = true ∧ r.stepId = some q ∧ r.ok = true ∧ r.cold = cold then r.wallMs else none

/-- The last warm success, else the first cold one. -/
def selected (q : Str) (lines : Lines) : Option ℚ :=
  (lines.filterMap (successMs q false)).getLast?.or (lines.filterMap (successMs q true)).head?

theorem selected_concat (q : Str) (lines : Lines) (line : Option TimingRecord) :
    selected q (lines ++ [line]) =
      (successMs q false line).or ((selected q lines).or (successMs q true line)) := by
  unfold selected
  rw [List.filterMap_append, List.filterMap_append, List.head?_append]
  cases hwarm : successMs q false line with
  | none => cases hcold : successMs q true line <;> simp [hwarm, hcold]
  | some warm => simp [hwarm]

/-- What one line does to the time of a query. -/
theorem get?_timingStep {line : Option TimingRecord}
    (h : timingStep timings line = some timings') (q : Str) :
    get? timings' q =
      (successMs q false line).or ((get? timings q).or (successMs q true line)) := by
  cases line with
  | none => cases h
  | some r =>
    simp only [timingStep, Option.bind_eq_bind, Option.bind_some, Option.pure_def] at h
    simp only [successMs, Option.bind_some]
    by_cases hquery : r.isQuery = true
    · obtain ⟨qid, hid, h⟩ := Option.bind_eq_some_iff.mp (by simpa [hquery] using h)
      by_cases hok : r.ok = true
      · obtain ⟨wall, hwall, h⟩ := Option.bind_eq_some_iff.mp (by simpa [hok] using h)
        by_cases hq : qid = q
        · subst hq
          simp only [hquery, hid, hok, hwall, true_and]
          cases hold : get? timings qid with
          | none =>
            rw [hold] at h
            obtain rfl := Option.some.inj h
            cases r.cold <;> simp [get?_set]
          | some old =>
            rw [hold] at h
            obtain rfl := Option.some.inj h
            cases r.cold <;> simp [get?_set, hold]
        · have other : get? timings' q = get? timings q := by
            split at h
            · obtain rfl := Option.some.inj h
              split
              · rfl
              · simp [get?_set, hq]
            · obtain rfl := Option.some.inj h
              simp [get?_set, hq]
          simp [hid, hq, other]
      · have same : timings = timings' := by simpa [hok] using h
        simp [hok, same]
    · have same : timings = timings' := by simpa [hquery] using h
      simp [hquery, same]

theorem get?_loadQueryTimings (h : loadQueryTimings lines = some timings) (q : Str) :
    get? timings q = selected q lines := by
  induction lines using List.reverseRecOn generalizing timings with
  | nil =>
    obtain rfl := Option.some.inj h
    rfl
  | append_singleton lines line ih =>
    rw [loadQueryTimings, List.foldlM_append] at h
    obtain ⟨before, hbefore, hlast⟩ := Option.bind_eq_some_iff.mp h
    have hstep : timingStep before line = some timings := by simpa using hlast
    rw [get?_timingStep hstep, ih hbefore, selected_concat]

/-- **The timings of a record file**, in whatever order its records come: the queries
with a success, each under its last warm time or else its first cold one. -/
theorem timings_selected (h : ∀ line ∈ lines, Readable line) :
    ∃ timings, loadQueryTimings lines = some timings ∧ (timings.map Prod.fst).Nodup ∧
      (∀ q, q ∈ timings.map Prod.fst ↔ Succeeds q lines) ∧
        ∀ q, get? timings q = selected q lines := by
  obtain ⟨timings, htimings⟩ := Option.isSome_iff_exists.mp (loadQueryTimings_isSome.mpr h)
  obtain ⟨hnd, hkeys⟩ := loadQueryTimings_keys htimings
  exact ⟨timings, htimings, hnd, hkeys, get?_loadQueryTimings htimings⟩

/-- A cold run, a failed warm one, a warm one and a step of another kind. -/
def mixedLines : Lines :=
  [some ⟨some "sql_query".toList, some "q01".toList, some 0, some 50, true⟩,
    some ⟨none, some "q01".toList, some 2, some 7, false⟩,
    some ⟨none, some "q01".toList, some 0, some 30, false⟩,
    some ⟨some "sql_ddl".toList, some "q01".toList, some 0, some 1, false⟩]

theorem timings_selected_mixed :
    ∃ timings, loadQueryTimings mixedLines = some timings ∧ (timings.map Prod.fst).Nodup ∧
      (∀ q, q ∈ timings.map Prod.fst ↔ Succeeds q mixedLines) ∧
        ∀ q, get? timings q = selected q mixedLines := by
  refine timings_selected ?_
  simp [mixedLines, Readable]

example : selected "q01".toList mixedLines = some 30 := by decide +kernel

end DeltaForgeBench.ScaleOut.QueryTimings
