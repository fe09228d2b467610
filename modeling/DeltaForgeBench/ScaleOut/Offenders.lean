import DeltaForgeBench.Base.Binary64
import DeltaForgeBench.ScaleOut.Summary

/-! # The worst ratios

The last section of `curve.md` lists the rows whose stored ratio is over the
threshold. The stored ratio is rounded to three decimals and the verdict of the
row is not, so a row just over the threshold is neither flat nor listed. Just
over it is a matter of the last places, so here the rows are the machine's. -/
namespace DeltaForgeBench.ScaleOut.Offenders
open DeltaForgeBench.Base.Text DeltaForgeBench.Base.Dict DeltaForgeBench.Base.Sorted
open DeltaForgeBench.Base.Numeral DeltaForgeBench.Base.Binary64
open DeltaForgeBench.ScaleOut.Aggregate
open DeltaForgeBench.ScaleOut.Curve DeltaForgeBench.ScaleOut.Laws DeltaForgeBench.ScaleOut.Summary

/-! ## The section -/

/-- The filter of `offenders`. -/
def isOffender (r : Row) : Bool :=
  r.n > 1 ∧ ∃ x ∈ r.ratioP50VsN1, x > binary64 flatnessThreshold

/-- `offenders`: the worst ratio first, equal ones in the order of the rows. -/
def offenders (rows : List Row) : List Row :=
  (rows.filter isOffender).mergeSort fun a b =>
    b.ratioP50VsN1.getD 0 ≤ a.ratioP50VsN1.getD 0

def noneSentence : Str :=
  '_' :: "None: every query with samples at N > 1 stayed within 1.1x of its N=1 baseline._".toList

def offenderLine (r : Row) : Str :=
  '|' :: (" ".toList ++ r.queryId ++ " | ".toList ++ intText r.n ++ " | ".toList ++
    fixed false 1 (r.p50Ms.getD 0) ++ " | ".toList ++
    fixed false 1 (r.p50BaselineN1Ms.getD 0) ++ " | ".toList ++
    fixed false 3 (r.ratioP50VsN1.getD 0) ++ " | ".toList ++
    natText r.samples ++ "/".toList ++ intText r.streamsAttempted ++ " |".toList)

/-- The lines under `Worst per-query ratios`. -/
def offenderSection (rows : List Row) : List Str :=
  if offenders rows = [] then [noneSentence]
  else
    ('|' :: " query | N | p50@N (ms) | p50@N=1 (ms) | ratio | completion |".toList) ::
    ('|' :: "-------|--:|-----------:|-------------:|------:|-----------:|".toList) ::
    ((offenders rows).take 20).map offenderLine

/-- Among the rows above the baseline exactly those that are not flat are
candidates, and nothing but their absence is called none. -/
def Matches (rows : List Row) : Prop :=
  (∀ row ∈ rows, row.n > 1 → (row ∈ offenders rows ↔ row.flat = some false)) ∧
    (noneSentence ∈ offenderSection rows → ∀ row ∈ rows, row.n > 1 → row.flat ≠ some false)

/-! ## Around the threshold -/

theorem mem_offenders {rows : List Row} {row : Row} :
    row ∈ offenders rows ↔ row ∈ rows ∧ isOffender row = true := by
  rw [offenders, List.mem_mergeSort, List.mem_filter]

/-- The median of the samples as the machine computes it. -/
def p50At (samples : Samples) (q : Str) (n : Int) : Option ℚ :=
  percentileOn binary64 (samplesAt samples q n) 50

/-- The quotient of two medians that the verdict is read off. -/
def quotientAt (samples : Samples) (q : Str) (n : Int) : Option ℚ := do
  let p50 ← p50At samples q n
  let base ← p50At samples q 1
  if 0 < base then some (p50 / base) else none

theorem rowOn_verdict (samples : Samples) (q : Str) (n : Int) :
    (rowOn binary64 samples q n).ratioP50VsN1 =
        (quotientAt samples q n).map (fun x => binary64 (rounded 3 (binary64 x))) ∧
      (rowOn binary64 samples q n).flat =
        (quotientAt samples q n).map fun x =>
          decide (binary64 x ≤ binary64 flatnessThreshold) := by
  simp only [rowOn, quotientAt, p50At, samplesAt]
  cases percentileOn binary64 ((get? samples (q, n)).getD []) 50 with
  | none => exact ⟨rfl, rfl⟩
  | some p =>
    cases percentileOn binary64 ((get? samples (q, 1)).getD []) 50 with
    | none => exact ⟨rfl, rfl⟩
    | some b =>
      by_cases hb : 0 < b
      · simp [hb]
      · simp [hb]

/-- The numbers up to it are rounded to the threshold or below. -/
def overThreshold : ℚ := (4953959590107546 + 1 / 2) / 2 ^ 52

/-- The numbers up to it are rounded to one below 1.1005. -/
def overHalf : ℚ := (4956211389921230 + 1 / 2) / 2 ^ 52

theorem binary64_flatnessThreshold : binary64 flatnessThreshold = 4953959590107546 / 2 ^ 52 := by
  have place : exponent flatnessThreshold = -52 :=
    exponent_eq (by decide) (by norm_num [flatnessThreshold]) (by norm_num [flatnessThreshold])
  have floor : ⌊flatnessThreshold / 2 ^ (-52 : Int)⌋ = 4953959590107545 := by
    rw [Int.floor_eq_iff]
    norm_num [flatnessThreshold]
  have near : roundHalfEven (flatnessThreshold / 2 ^ (-52 : Int)) = 4953959590107546 := by
    simp only [roundHalfEven, floor]
    norm_num [flatnessThreshold]
  rw [binary64, place, near]
  norm_num

/-- A quotient is flat up to a number over the threshold as it is written. -/
theorem le_threshold_iff (x : ℚ) : binary64 x ≤ binary64 flatnessThreshold ↔ x ≤ overThreshold := by
  have h := binary64_le_iff (m := 4953959590107546) (e := -52) (r := 4953959590107546 / 2 ^ 52)
    (by decide) (by decide) (by decide) (by decide) (by norm_num) (by norm_num) x
  rw [binary64_flatnessThreshold, h, overThreshold]
  norm_num

theorem le_half_iff (x : ℚ) : binary64 x ≤ 11005 / 10000 ↔ x ≤ overHalf := by
  have h := binary64_le_iff (m := 4956211389921230) (e := -52) (r := 11005 / 10000)
    (by decide) (by decide) (by decide) (by decide) (by norm_num) (by norm_num) x
  rw [h, overHalf]
  norm_num

/-- The machine's 1.1005 is over it. -/
example : overHalf < 11005 / 10000 := by norm_num [overHalf]

/-- With three decimals a ratio is over the threshold only when it is over it by
more than half of the last one, and being stored does not change the decimals. -/
theorem stored_le_iff (x : ℚ) :
    binary64 (rounded 3 x) ≤ binary64 flatnessThreshold ↔ x ≤ 11005 / 10000 := by
  have hround := roundHalfEven_le_iff (n := 1100) rfl (x * 10 ^ 3)
  have hstored : rounded 3 x ≤ overThreshold ↔ roundHalfEven (x * 10 ^ 3) ≤ 1100 := by
    rw [rounded, overThreshold, div_le_iff₀ (by norm_num)]
    constructor
    · intro h
      have cast : (roundHalfEven (x * 10 ^ 3) : ℚ) < (1101 : Int) := h.trans_lt (by norm_num)
      exact Int.lt_add_one_iff.mp (Int.cast_lt.mp cast)
    · intro h
      have cast : (roundHalfEven (x * 10 ^ 3) : ℚ) ≤ (1100 : Int) := Int.cast_le.mpr h
      exact cast.trans (by norm_num)
  rw [le_threshold_iff, hstored, hround]
  constructor <;> intro h <;> push_cast at h ⊢ <;> linarith

/-- The medians of a query at a level and at the baseline are so close to the
threshold that rounding their ratio hides on which side it is. -/
def NearMiss (samples : Samples) (q : Str) (n : Int) : Prop :=
  ∃ p ∈ p50At samples q n, ∃ b ∈ p50At samples q 1,
    0 < b ∧ overThreshold * b < p ∧ p ≤ overHalf * b

theorem quotientAt_eq_some_iff {samples : Samples} {q : Str} {n : Int} {x : ℚ} :
    quotientAt samples q n = some x ↔ ∃ p b, p50At samples q n = some p ∧
      p50At samples q 1 = some b ∧ 0 < b ∧ p / b = x := by
  simp only [quotientAt, Option.bind_eq_bind, Option.bind_eq_some_iff,
    Option.ite_none_right_eq_some, Option.some.injEq]
  constructor
  · rintro ⟨p, hp, b, hb, hpos, hx⟩
    exact ⟨p, b, hp, hb, hpos, hx⟩
  · rintro ⟨p, b, hp, hb, hpos, hx⟩
    exact ⟨p, hp, b, hb, hpos, hx⟩

theorem nearMiss_iff {samples : Samples} {q : Str} {n : Int} :
    NearMiss samples q n ↔
      ∃ x ∈ quotientAt samples q n, overThreshold < x ∧ x ≤ overHalf := by
  constructor
  · rintro ⟨p, hp, b, hb, hpos, hlow, hhigh⟩
    exact ⟨p / b, quotientAt_eq_some_iff.mpr ⟨p, b, hp, hb, hpos, rfl⟩,
      (lt_div_iff₀ hpos).mpr hlow, (div_le_iff₀ hpos).mpr hhigh⟩
  · rintro ⟨x, hx, hlow, hhigh⟩
    obtain ⟨p, b, hp, hb, hpos, rfl⟩ := quotientAt_eq_some_iff.mp hx
    exact ⟨p, hp, b, hb, hpos, (lt_div_iff₀ hpos).mp hlow, (div_le_iff₀ hpos).mp hhigh⟩

theorem isOffender_rowOn {samples : Samples} {q : Str} {n : Int} (hn : n > 1) :
    isOffender (rowOn binary64 samples q n) = true ↔
      ∃ x ∈ quotientAt samples q n, overHalf < x := by
  have hlevel : (rowOn binary64 samples q n).n > 1 := hn
  rw [isOffender, decide_eq_true_iff, and_iff_right hlevel, (rowOn_verdict samples q n).1]
  simp only [Option.mem_def, Option.map_eq_some_iff, exists_exists_and_eq_and, gt_iff_lt,
    ← not_le, stored_le_iff, le_half_iff]

theorem flat_rowOn {samples : Samples} {q : Str} {n : Int} :
    (rowOn binary64 samples q n).flat = some false ↔
      ∃ x ∈ quotientAt samples q n, overThreshold < x := by
  rw [(rowOn_verdict samples q n).2]
  refine Option.map_eq_some_iff.trans (exists_congr fun x => and_congr_right fun _ => ?_)
  rw [decide_eq_false_iff_not, le_threshold_iff, not_le]

/-- A row is listed exactly when it is not flat, unless it is a near miss. -/
theorem listed_iff_not_flat {samples : Samples} {q : Str} {n : Int} (hn : n > 1) :
    (isOffender (rowOn binary64 samples q n) = true ↔
      (rowOn binary64 samples q n).flat = some false) ↔ ¬ NearMiss samples q n := by
  rw [isOffender_rowOn hn, flat_rowOn, nearMiss_iff]
  have wider : overThreshold < overHalf := by norm_num [overThreshold, overHalf]
  cases quotientAt samples q n with
  | none => simp
  | some x =>
    simp only [Option.mem_def, Option.some.injEq, exists_eq_left']
    constructor
    · intro h hgap
      exact absurd (h.mpr hgap.1) (not_lt.mpr hgap.2)
    · intro h
      refine ⟨fun hover => wider.trans hover, fun hover => ?_⟩
      by_contra hnot
      exact h ⟨hover, not_lt.mp hnot⟩

/-! ## The section against the verdicts -/

theorem noneSentence_mem {rows : List Row} :
    noneSentence ∈ offenderSection rows ↔ offenders rows = [] := by
  unfold offenderSection
  split
  · rename_i hnone
    exact ⟨fun _ => hnone, fun _ => List.mem_singleton_self _⟩
  · rename_i hsome
    refine ⟨fun h => ?_, fun h => absurd h hsome⟩
    -- a line of the table begins with a bar, the sentence does not
    have bar : ∀ rest : Str, noneSentence ≠ '|' :: rest := fun rest heq =>
      absurd (List.cons_eq_cons.mp heq).1 (by decide)
    rcases List.mem_cons.mp h with h | h
    · exact absurd h (bar _)
    · rcases List.mem_cons.mp h with h | h
      · exact absurd h (bar _)
      · obtain ⟨r, -, hr⟩ := List.mem_map.mp h
        exact absurd hr.symm (bar _)

theorem rowOn_mem {samples : Samples} {levels : List Int} {ids : List Str} {row : Row} :
    row ∈ aggregateOn binary64 samples levels ids ↔
      ∃ q ∈ ids, ∃ n ∈ levels, rowOn binary64 samples q n = row := by
  simp only [aggregateOn, List.mem_flatMap, List.mem_map, mem_sorted]

/-- **The section agrees with the verdicts** exactly when no row above the
baseline is a near miss. -/
theorem matches_iff (samples : Samples) (levels : List Int) (ids : List Str) :
    Matches (aggregateOn binary64 samples levels ids) ↔
      ∀ q ∈ ids, ∀ n ∈ levels, n > 1 → ¬ NearMiss samples q n := by
  constructor
  · intro h q hq n hn habove
    have hrow : rowOn binary64 samples q n ∈ aggregateOn binary64 samples levels ids :=
      rowOn_mem.mpr ⟨q, hq, n, hn, rfl⟩
    have hlisted := h.1 _ hrow habove
    rw [mem_offenders, and_iff_right hrow] at hlisted
    exact (listed_iff_not_flat habove).mp hlisted
  · intro h
    have listed : ∀ row ∈ aggregateOn binary64 samples levels ids, row.n > 1 →
        (row ∈ offenders (aggregateOn binary64 samples levels ids) ↔ row.flat = some false) := by
      intro row hrow habove
      obtain ⟨q, hq, n, hn, rfl⟩ := rowOn_mem.mp hrow
      rw [mem_offenders, and_iff_right hrow]
      exact (listed_iff_not_flat habove).mpr (h q hq n hn habove)
    refine ⟨listed, fun hsentence row hrow habove hflat => ?_⟩
    have hmem := (listed row hrow habove).mpr hflat
    rw [noneSentence_mem.mp hsentence] at hmem
    cases hmem

/-- Ten seconds at the baseline and three milliseconds over the threshold beside
a second stream. -/
def justOver : Samples := [(("q01".toList, 1), [10000]), (("q01".toList, 2), [11003])]

/-- The row is not flat, and the section says that every query stayed within. -/
theorem near_miss_not_listed :
    ¬ ∀ samples levels ids, Matches (aggregateOn binary64 samples levels ids) := by
  intro h
  have hrow : rowOn binary64 justOver "q01".toList 2 ∈
      aggregateOn binary64 justOver [1, 2] ["q01".toList] :=
    rowOn_mem.mpr ⟨_, List.mem_singleton_self _, 2, by simp, rfl⟩
  have hlisted := (h justOver [1, 2] ["q01".toList]).1 _ hrow (show (2 : Int) > 1 by decide)
  rw [mem_offenders, and_iff_right hrow, listed_iff_not_flat (by decide)] at hlisted
  exact hlisted ⟨11003, rfl, 10000, rfl, by norm_num, by norm_num [overThreshold],
    by norm_num [overHalf]⟩

end DeltaForgeBench.ScaleOut.Offenders
