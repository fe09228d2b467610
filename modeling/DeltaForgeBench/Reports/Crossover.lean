import DeltaForgeBench.Reports.GraphReport

/-! # Where the second device takes over

Every successful warm record is collected in the cell that its step was built
for, and in no other; each cell shows the median of its records. The entry at
the end of a row is the least size at which the second device is as fast. -/
namespace DeltaForgeBench.Reports.Crossover
open DeltaForgeBench.Base DeltaForgeBench.Base.Text DeltaForgeBench.Base.Numeral
open DeltaForgeBench.Base.Sorted DeltaForgeBench.Engines.Base
open DeltaForgeBench.Workloads.GraphSteps DeltaForgeBench.Reports.GraphReport

/-! ## What a record adds -/

/-- The cell and the time of a record that is counted at all. -/
def measured (r : GraphRecord) : Option (Cell × ℚ) :=
  (stepRe r.sid).bind fun cell =>
    if r.error.isSome then none else (r.engineReportedMs.or r.wallMs).map fun ms => (cell, ms)

/-- The times collected for a cell. -/
def warmRunsOf (s : Runs) (k : Cell) : List ℚ := (Dict.get? s.warmRuns k).getD []

/-- The values of a phase collected for a cell. -/
def phaseRunsOf (d : List (Cell × List (Str × List ℚ))) (k : Cell) (pk : Str) : List ℚ :=
  (Dict.get? ((Dict.get? d k).getD []) pk).getD []

def warmAdds (r : GraphRecord) (k : Cell) : List ℚ :=
  match measured r with
  | some (cell, ms) => if r.cold = false ∧ cell = k then [ms] else []
  | none => []

def phaseAdds (r : GraphRecord) (k : Cell) (pk : Str) : List ℚ :=
  match measured r with
  | some (cell, _) =>
    if r.cold = false ∧ cell = k then (num? (Dict.get? (r.extra.getD []) pk)).toList else []
  | none => []

/-- No key stands twice in the dicts of times. -/
structure Tidy (s : Runs) : Prop where
  warm : (s.warmRuns.map Prod.fst).Nodup
  phases : ∀ k, (((Dict.get? s.phaseRuns k).getD []).map Prod.fst).Nodup

/-- A line that is not counted changes nothing, and one that is counted goes to its cell. -/
theorem visit_eq (s : Runs) (r : GraphRecord) : visit s r =
    match measured r with
    | none => s
    | some (cell, ms) =>
      let s := { s with sizes := addSize s.sizes cell.2.1 }
      if r.cold then { s with coldRuns := Dict.set s.coldRuns cell ms }
      else
        { s with
          warmRuns := Dict.append s.warmRuns cell ms
          phaseRuns := phaseKeys.foldl (addPhase cell (r.extra.getD [])) s.phaseRuns } := by
  unfold visit measured
  cases stepRe r.sid with
  | none => rfl
  | some cell =>
    cases r.error with
    | some e => rfl
    | none =>
      cases r.engineReportedMs.or r.wallMs with
      | none => rfl
      | some ms => rfl

theorem phaseRunsOf_appendPhase (d : List (Cell × List (Str × List ℚ))) (cell k : Cell)
    (pk pk' : Str) (pv : ℚ) : phaseRunsOf (appendPhase d cell pk pv) k pk' =
      phaseRunsOf d k pk' ++ if cell = k ∧ pk = pk' then [pv] else [] := by
  rw [phaseRunsOf, appendPhase, Dict.get?_set]
  by_cases hk : cell = k
  · rw [if_pos hk, Option.getD_some, Dict.getD_append, hk, phaseRunsOf]
    simp
  · rw [if_neg hk, if_neg fun h => hk h.1, List.append_nil, phaseRunsOf]

/-- Each phase of a record is added once. -/
theorem phaseRunsOf_addPhases {cell k : Cell} {extra : List (Str × Metric)} {pks : List Str}
    (hnodup : pks.Nodup) (d : List (Cell × List (Str × List ℚ))) (pk : Str) :
    phaseRunsOf (pks.foldl (addPhase cell extra) d) k pk =
      phaseRunsOf d k pk ++
        if cell = k ∧ pk ∈ pks then (num? (Dict.get? extra pk)).toList else [] := by
  induction pks generalizing d with
  | nil => simp
  | cons pk' pks ih =>
    obtain ⟨hnot, hrest⟩ := List.nodup_cons.mp hnodup
    have hstep : phaseRunsOf (addPhase cell extra d pk') k pk = phaseRunsOf d k pk ++
        if cell = k ∧ pk' = pk then (num? (Dict.get? extra pk)).toList else [] := by
      unfold addPhase
      cases hnum : num? (Dict.get? extra pk') with
      | none =>
        by_cases hpk : pk' = pk
        · rw [← hpk, hnum]
          simp
        · simp [hpk]
      | some pv =>
        rw [phaseRunsOf_appendPhase]
        by_cases hpk : pk' = pk
        · rw [← hpk, hnum]
          rfl
        · simp [hpk]
    rw [List.foldl_cons, ih hrest, hstep, List.append_assoc]
    congr 1
    by_cases hpk : pk' = pk
    · subst hpk
      simp [hnot]
    · have hne : ¬ pk = pk' := fun h => hpk h.symm
      simp [hpk, hne]

/-! ## One line -/

theorem nodup_phaseKeys : phaseKeys.Nodup := by decide

theorem warmRunsOf_visit (s : Runs) (r : GraphRecord) (k : Cell) :
    warmRunsOf (visit s r) k = warmRunsOf s k ++ warmAdds r k := by
  rw [visit_eq]
  unfold warmAdds
  cases measured r with
  | none => exact (List.append_nil _).symm
  | some found =>
    obtain ⟨cell, ms⟩ := found
    cases hcold : r.cold with
    | true => simp [warmRunsOf]
    | false =>
      have happend := Dict.getD_append s.warmRuns cell k ms
      simpa [warmRunsOf] using happend

theorem phaseRunsOf_visit (s : Runs) (r : GraphRecord) (k : Cell) {pk : Str} (hpk : pk ∈ phaseKeys) :
    phaseRunsOf (visit s r).phaseRuns k pk = phaseRunsOf s.phaseRuns k pk ++ phaseAdds r k pk := by
  rw [visit_eq]
  unfold phaseAdds
  cases measured r with
  | none => exact (List.append_nil _).symm
  | some found =>
    obtain ⟨cell, ms⟩ := found
    cases hcold : r.cold with
    | true => simp
    | false =>
      have hadd := @phaseRunsOf_addPhases cell k (r.extra.getD []) _ nodup_phaseKeys s.phaseRuns pk
      simpa [hpk] using hadd

theorem mem_sizes_visit (s : Runs) (r : GraphRecord) (m : Nat) :
    m ∈ (visit s r).sizes ↔ m ∈ s.sizes ∨ ∃ found, measured r = some found ∧ found.1.2.1 = m := by
  have hadd : ∀ n, m ∈ addSize s.sizes n ↔ m ∈ s.sizes ∨ n = m := by
    intro n
    unfold addSize
    split
    · rename_i hmem
      exact ⟨.inl, fun h => h.elim id fun e => e ▸ hmem⟩
    · rw [List.mem_append, List.mem_singleton, eq_comm]
  rw [visit_eq]
  cases measured r with
  | none => simp
  | some found =>
    obtain ⟨cell, ms⟩ := found
    cases hcold : r.cold with
    | true => simpa [hcold] using hadd cell.2.1
    | false => simpa [hcold] using hadd cell.2.1

theorem tidy_addPhase {d : List (Cell × List (Str × List ℚ))}
    (h : ∀ k, (((Dict.get? d k).getD []).map Prod.fst).Nodup) (cell : Cell)
    (extra : List (Str × Metric)) (pk : Str) :
    ∀ k, (((Dict.get? (addPhase cell extra d pk) k).getD []).map Prod.fst).Nodup := by
  intro k
  unfold addPhase
  split
  · rw [appendPhase, Dict.get?_set]
    split
    · exact Dict.nodup_keys_append (h cell) _ _
    · exact h k
  · exact h k

theorem Tidy.visit {s : Runs} (h : Tidy s) (r : GraphRecord) : Tidy (visit s r) := by
  have phases : ∀ (pks : List Str) (cell : Cell) (extra : List (Str × Metric))
      (d : List (Cell × List (Str × List ℚ))),
      (∀ k, (((Dict.get? d k).getD []).map Prod.fst).Nodup) →
        ∀ k, (((Dict.get? (pks.foldl (addPhase cell extra) d) k).getD []).map Prod.fst).Nodup := by
    intro pks cell extra
    induction pks with
    | nil => exact fun d hd => hd
    | cons pk pks ih => exact fun d hd => ih _ (tidy_addPhase hd cell extra pk)
  rw [visit_eq]
  cases measured r with
  | none => exact h
  | some found =>
    cases hcold : r.cold with
    | true => simpa [hcold] using ⟨h.warm, h.phases⟩
    | false =>
      simp only [Bool.false_eq_true, if_false]
      exact ⟨Dict.nodup_keys_append h.warm _ _, phases _ _ _ _ h.phases⟩

/-! ## A whole file -/

section Runs
variable (lines : List GraphRecord)

def runs : Runs := lines.foldl visit {}

theorem tidy_runs : Tidy (runs lines) := by
  have from_tidy : ∀ s : Runs, Tidy s → Tidy (lines.foldl visit s) := by
    induction lines with
    | nil => exact fun s h => h
    | cons r rest ih => exact fun s h => ih _ (h.visit r)
  exact from_tidy {} ⟨List.nodup_nil, fun _ => List.nodup_nil⟩

theorem warmRunsOf_runs (k : Cell) :
    warmRunsOf (runs lines) k = lines.flatMap (warmAdds · k) := by
  have from_any : ∀ s : Runs, warmRunsOf (lines.foldl visit s) k =
      warmRunsOf s k ++ lines.flatMap (warmAdds · k) := by
    induction lines with
    | nil => exact fun s => (List.append_nil _).symm
    | cons r rest ih =>
      intro s
      rw [List.foldl_cons, ih, warmRunsOf_visit, List.flatMap_cons, List.append_assoc]
  exact from_any {}

theorem phaseRunsOf_runs (k : Cell) {pk : Str} (hpk : pk ∈ phaseKeys) :
    phaseRunsOf (runs lines).phaseRuns k pk = lines.flatMap (phaseAdds · k pk) := by
  have from_any : ∀ s : Runs, phaseRunsOf (lines.foldl visit s).phaseRuns k pk =
      phaseRunsOf s.phaseRuns k pk ++ lines.flatMap (phaseAdds · k pk) := by
    induction lines with
    | nil => exact fun s => (List.append_nil _).symm
    | cons r rest ih =>
      intro s
      rw [List.foldl_cons, ih, phaseRunsOf_visit s r k hpk, List.flatMap_cons, List.append_assoc]
  exact from_any {}

theorem mem_sizes_runs (m : Nat) : m ∈ (runs lines).sizes ↔
    ∃ r ∈ lines, ∃ found, measured r = some found ∧ found.1.2.1 = m := by
  have from_any : ∀ s : Runs, m ∈ (lines.foldl visit s).sizes ↔
      m ∈ s.sizes ∨ ∃ r ∈ lines, ∃ found, measured r = some found ∧ found.1.2.1 = m := by
    induction lines with
    | nil => simp
    | cons r rest ih =>
      intro s
      rw [List.foldl_cons, ih, mem_sizes_visit, List.exists_mem_cons_iff, or_assoc]
  exact (from_any {}).trans (or_iff_right List.not_mem_nil)

/-- A cell shows the median of what was collected for it. -/
theorem get?_warm (k : Cell) : Dict.get? (loadDfRecords lines).warm k =
    Sorted.median (warmRunsOf (runs lines) k) := by
  have hget := Dict.get?_mapValues Sorted.median (tidy_runs lines).warm k
  rw [loadDfRecords, warmRunsOf]
  exact hget.trans (by cases Dict.get? (runs lines).warmRuns k <;> rfl)

theorem get?_phases (k : Cell) (pk : Str) :
    Dict.get? ((Dict.get? (loadDfRecords lines).phases k).getD []) pk =
      Sorted.median (phaseRunsOf (runs lines).phaseRuns k pk) := by
  have houter := Dict.get?_map (fun (_ : Cell) d => Dict.mapValues Sorted.median d)
    (runs lines).phaseRuns k
  have hinner := Dict.get?_mapValues Sorted.median ((tidy_runs lines).phases k) pk
  have hcell : (Dict.get? (loadDfRecords lines).phases k).getD [] =
      Dict.mapValues Sorted.median ((Dict.get? (runs lines).phaseRuns k).getD []) := by
    refine (congrArg (·.getD []) houter).trans ?_
    cases Dict.get? (runs lines).phaseRuns k <;> rfl
  rw [hcell, hinner, phaseRunsOf]
  cases Dict.get? ((Dict.get? (runs lines).phaseRuns k).getD []) pk <;> rfl

end Runs

/-! ## The entry of a row -/

section Entry
variable {cpu gpu : Nat → Option ℚ}

/-- Both devices have a value, and that of the second is positive and no more than that of
the first. -/
def Wins (cpu gpu : Nat → Option ℚ) (m : Nat) : Prop :=
  ∃ c g, cpu m = some c ∧ gpu m = some g ∧ 0 < g ∧ g ≤ c

theorem overtakes_iff (m : Nat) : overtakes (cpu m) (gpu m) = true ↔ Wins cpu gpu m := by
  unfold overtakes Wins
  cases cpu m with
  | none => simp
  | some c =>
    cases gpu m with
    | none => simp
    | some g =>
      rw [decide_eq_true_iff]
      constructor
      · rintro ⟨hg, hle⟩
        exact ⟨c, g, rfl, rfl, hg, (one_le_div₀ hg).mp hle⟩
      · rintro ⟨c', g', hc, hg, hpos, hle⟩
        obtain rfl := Option.some.inj hc
        obtain rfl := Option.some.inj hg
        exact ⟨hpos, (one_le_div₀ hpos).mpr hle⟩

theorem sizeText_ne_never (m : Nat) : sizeText m ≠ never := by
  intro h
  have hlast : (sizeText m).getLast? = some 'M' := List.getLast?_concat
  rw [h] at hlast
  exact absurd hlast (by decide)

theorem sizeText_inj {m n : Nat} : sizeText m = sizeText n ↔ m = n := by
  constructor
  · intro h
    have hdigits := List.append_cancel_right h
    rw [← digitsValue_repr m, hdigits, digitsValue_repr]
  · exact congrArg sizeText

/-- The loop keeps the first size that it meets. -/
theorem foldl_crossoverStep (sizes : List Nat) (cells : List Str) (entry : Str) :
    (sizes.foldl (crossoverStep cpu gpu) (cells, entry)).2 =
      if entry = never then
        ((sizes.find? fun m => overtakes (cpu m) (gpu m)).map sizeText).getD never
      else entry := by
  induction sizes generalizing cells entry with
  | nil =>
    by_cases h : entry = never <;> simp [h]
  | cons m sizes ih =>
    rw [List.foldl_cons, crossoverStep, ih, List.find?_cons]
    cases overtakes (cpu m) (gpu m) with
    | false => rfl
    | true =>
      by_cases h : entry = never
      · simp [h, sizeText_ne_never]
      · simp [h]

/-- The cells between: one speedup for each size. -/
theorem foldl_crossoverStep_cells (cpu gpu : Nat → Option ℚ) (sizes : List Nat)
    (cells : List Str) (entry : Str) :
    (sizes.foldl (crossoverStep cpu gpu) (cells, entry)).1 =
      cells ++ sizes.map fun m => fmtSpeedup (cpu m) (gpu m) := by
  induction sizes generalizing cells entry with
  | nil => simp
  | cons m sizes ih =>
    rw [List.foldl_cons, crossoverStep, ih, List.map_cons, List.append_assoc]
    rfl

/-- The last entry of a row names the least size at which the second device wins. -/
theorem crossoverRow_last {sizes : List Nat} (hsizes : sizes.Pairwise (· ≤ ·)) (a : Algo) :
    (∀ m, (crossoverRow cpu gpu sizes a).getLast? = some (sizeText m) ↔
        IsLeast {n | n ∈ sizes ∧ Wins cpu gpu n} m) ∧
      ((crossoverRow cpu gpu sizes a).getLast? = some never ↔ ∀ n ∈ sizes, ¬ Wins cpu gpu n) := by
  have hlast : (crossoverRow cpu gpu sizes a).getLast? =
      some (((sizes.find? fun m => overtakes (cpu m) (gpu m)).map sizeText).getD never) := by
    rw [crossoverRow, List.getLast?_concat, foldl_crossoverStep, if_pos rfl]
  have hset : {n | n ∈ sizes ∧ overtakes (cpu n) (gpu n) = true} =
      {n | n ∈ sizes ∧ Wins cpu gpu n} := by
    ext n
    exact and_congr_right fun _ => overtakes_iff n
  rw [hlast]
  constructor
  · intro m
    rw [← hset, ← find?_eq_some_iff_isLeast hsizes, Option.some_inj]
    cases sizes.find? fun m => overtakes (cpu m) (gpu m) with
    | none => simpa using fun h : never = sizeText m => sizeText_ne_never m h.symm
    | some n => simp [sizeText_inj]
  · rw [Option.some_inj]
    cases hfind : sizes.find? fun m => overtakes (cpu m) (gpu m) with
    | none =>
      have hnone := List.find?_eq_none.mp hfind
      exact ⟨fun _ n hn hwins => hnone n hn ((overtakes_iff n).mpr hwins), fun _ => rfl⟩
    | some n =>
      have hmem := List.mem_of_find?_eq_some hfind
      have hwins := (overtakes_iff n).mp
        (List.find?_some (p := fun m => overtakes (cpu m) (gpu m)) hfind)
      exact ⟨fun h => absurd h (sizeText_ne_never n), fun h => absurd hwins (h n hmem)⟩

end Entry

/-! ## Attribution -/

/-- Keys that the report can read. -/
def IsKey (key : Str) : Prop := key ≠ [] ∧ ∀ c ∈ key, isKeyChar c = true

/-- A successful warm record of the step that was built for the cell. -/
structure MeasuredFor (r : GraphRecord) (cell : Cell) (ms : ℚ) : Prop where
  isKey : IsKey cell.1
  step : ∃ label call, r.stepId = some (algoStep cell.2.1 cell.1 label call cell.2.2).id
  success : r.error = none
  warm : r.cold = false
  time : r.engineReportedMs.or r.wallMs = some ms

theorem MeasuredFor.measured {r : GraphRecord} {cell : Cell} {ms : ℚ} (h : MeasuredFor r cell ms) :
    measured r = some (cell, ms) := by
  obtain ⟨label, call, hstep⟩ := h.step
  have hsid : stepRe r.sid = some cell := by
    rw [BuildPublished.RawRecord.sid, hstep]
    exact stepRe_stepIdOf h.isKey.1 h.isKey.2 cell.2.1 cell.2.2
  rw [Crossover.measured, hsid, h.success, h.time]
  rfl

/-- A record adds its time and its phases to its own cell and nothing to the others. -/
structure AddsTo (before after : List GraphRecord) (r : GraphRecord) (cell : Cell) (ms : ℚ) :
    Prop where
  warm (k : Cell) : warmRunsOf (runs (before ++ r :: after)) k =
    warmRunsOf (runs before) k ++ (if k = cell then [ms] else []) ++ warmRunsOf (runs after) k
  phases (k : Cell) (pk : Str) : pk ∈ phaseKeys →
    phaseRunsOf (runs (before ++ r :: after)).phaseRuns k pk =
      phaseRunsOf (runs before).phaseRuns k pk ++
        (if k = cell then (num? (Dict.get? (r.extra.getD []) pk)).toList else []) ++
        phaseRunsOf (runs after).phaseRuns k pk

theorem MeasuredFor.addsTo {r : GraphRecord} {cell : Cell} {ms : ℚ} (h : MeasuredFor r cell ms)
    (before after : List GraphRecord) : AddsTo before after r cell ms where
  warm k := by
    have hadds : warmAdds r k = if k = cell then [ms] else [] := by
      rw [warmAdds, h.measured]
      simp [h.warm, eq_comm]
    rw [warmRunsOf_runs, warmRunsOf_runs, warmRunsOf_runs, List.flatMap_append, List.flatMap_cons,
      hadds, List.append_assoc]
  phases k pk hpk := by
    have hadds : phaseAdds r k pk =
        if k = cell then (num? (Dict.get? (r.extra.getD []) pk)).toList else [] := by
      rw [phaseAdds, h.measured]
      simp [h.warm, eq_comm]
    rw [phaseRunsOf_runs _ k hpk, phaseRunsOf_runs _ k hpk, phaseRunsOf_runs _ k hpk,
      List.flatMap_append, List.flatMap_cons, hadds, List.append_assoc]

/-- What the tables of a file rest on. -/
structure Attributed (lines : List GraphRecord) : Prop where
  warm (k : Cell) : Dict.get? (loadDfRecords lines).warm k =
    Sorted.median (warmRunsOf (runs lines) k)
  phases (k : Cell) (pk : Str) : Dict.get? ((Dict.get? (loadDfRecords lines).phases k).getD []) pk =
    Sorted.median (phaseRunsOf (runs lines).phaseRuns k pk)
  sizes (m : Nat) : m ∈ sizesOf (loadDfRecords lines) ↔
    ∃ r ∈ lines, ∃ found, measured r = some found ∧ found.1.2.1 = m

/-- The entry at the end of a row is the least size with a win, or says that there is none. -/
def FirstWin (row : List Str) (sizes : List Nat) (cpu gpu : Nat → Option ℚ) : Prop :=
  (∀ m, row.getLast? = some (sizeText m) ↔ IsLeast {n | n ∈ sizes ∧ Wins cpu gpu n} m) ∧
    (row.getLast? = some never ↔ ∀ n ∈ sizes, ¬ Wins cpu gpu n)

/-- A section of the page: one row for each algorithm, with a speedup for every size and
then the size of the first win. -/
structure TableOf (text last : Str) (sizes : List Nat) (cpu gpu : Algo → Nat → Option ℚ)
    (row : Algo → List Str) : Prop where
  text : text = renderTable (algos.map row) (header sizes last) (align sizes)
  cells (a : Algo) : ∃ entry, row a = [a.label, klassLabel a.klass] ++
    (sizes.map fun m => fmtSpeedup (cpu a m) (gpu a m)) ++ [entry]
  last (a : Algo) : FirstWin (row a) sizes (cpu a) (gpu a)

theorem crossoverRow_cells (cpu gpu : Nat → Option ℚ) (sizes : List Nat) (a : Algo) :
    ∃ entry, crossoverRow cpu gpu sizes a = [a.label, klassLabel a.klass] ++
      (sizes.map fun m => fmtSpeedup (cpu m) (gpu m)) ++ [entry] := by
  refine ⟨(sizes.foldl (crossoverStep cpu gpu) ([], never)).2, ?_⟩
  rw [crossoverRow, foldl_crossoverStep_cells, List.nil_append]

theorem crossoverSection_table (warm : List (Cell × ℚ)) {sizes : List Nat}
    (ordered : sizes.Pairwise (· ≤ ·)) :
    TableOf (crossoverSection warm sizes) "GPU wins from".toList sizes
      (fun a => warmAt warm a .cpu) (fun a => warmAt warm a .gpu) (warmRow warm sizes) where
  text := rfl
  cells a := crossoverRow_cells _ _ sizes a
  last a := crossoverRow_last ordered a

theorem computeCrossoverSection_table (phases : List (Cell × List (Str × ℚ))) {sizes : List Nat}
    (ordered : sizes.Pairwise (· ≤ ·)) :
    TableOf (computeCrossoverSection phases sizes) "compute wins from".toList sizes
      (fun a => phaseAt phases a .cpu algorithmMs) (fun a => phaseAt phases a .gpu gpuComputeMs)
      (computeRow phases sizes) where
  text := rfl
  cells a := crossoverRow_cells _ _ sizes a
  last a := crossoverRow_last ordered a

/-- Ids are read back as they were built, every successful warm record counts for its own
cell only, and each row of the two sections ends in the size from which the second device is
ahead. -/
theorem crossover_attributed :
    (∀ (key label call : Str) (m : Nat) (device : Device), IsKey key →
      stepRe (algoStep m key label call device).id = some (key, m, device)) ∧
    (∀ (before after : List GraphRecord) (r : GraphRecord) (cell : Cell) (ms : ℚ),
      MeasuredFor r cell ms → AddsTo before after r cell ms) ∧
    ∀ lines : List GraphRecord, Attributed lines ∧
      TableOf (crossoverSection (loadDfRecords lines).warm (sizesOf (loadDfRecords lines)))
        "GPU wins from".toList (sizesOf (loadDfRecords lines))
        (fun a => warmAt (loadDfRecords lines).warm a .cpu)
        (fun a => warmAt (loadDfRecords lines).warm a .gpu)
        (warmRow (loadDfRecords lines).warm (sizesOf (loadDfRecords lines))) ∧
      TableOf (computeCrossoverSection (loadDfRecords lines).phases (sizesOf (loadDfRecords lines)))
        "compute wins from".toList (sizesOf (loadDfRecords lines))
        (fun a => phaseAt (loadDfRecords lines).phases a .cpu algorithmMs)
        (fun a => phaseAt (loadDfRecords lines).phases a .gpu gpuComputeMs)
        (computeRow (loadDfRecords lines).phases (sizesOf (loadDfRecords lines))) := by
  refine ⟨?_, fun before after r cell ms h => h.addsTo before after, ?_⟩
  · intro key label call m device hkey
    exact stepRe_stepIdOf hkey.1 hkey.2 m device
  · intro lines
    have ordered : (sizesOf (loadDfRecords lines)).Pairwise (· ≤ ·) :=
      Sorted.sorted_pairwise (loadDfRecords lines).sizes
    refine ⟨⟨get?_warm lines, get?_phases lines, fun m => ?_⟩,
      crossoverSection_table _ ordered, computeCrossoverSection_table _ ordered⟩
    exact Sorted.mem_sorted.trans (mem_sizes_runs lines m)

/-! ## A small file -/

/-- A warm run of a key that contains the separator. -/
def warmRun (m : Nat) (device : Device) (ms : ℚ) : GraphRecord where
  workload := some "graph_gpu_vs_cpu".toList
  stepId := some (algoStep m "a__1m__cpu".toList [] [] device).id
  wallMs := some ms
  engineReportedMs := none
  error := none
  cold := false
  extra := none

theorem crossover_attributed_separator :
    AddsTo [warmRun 10 .cpu 7, warmRun 5 .cpu 4] [] (warmRun 10 .gpu 3)
      ("a__1m__cpu".toList, 10, .gpu) 3 := by
  have hkey : IsKey "a__1m__cpu".toList := ⟨List.cons_ne_nil _ _, List.all_eq_true.mp rfl⟩
  exact crossover_attributed.2.1 _ _ _ ("a__1m__cpu".toList, 10, .gpu) 3
    ⟨hkey, ⟨[], [], rfl⟩, rfl, rfl, rfl⟩

end DeltaForgeBench.Reports.Crossover
