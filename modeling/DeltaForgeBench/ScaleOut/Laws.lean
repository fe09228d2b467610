import DeltaForgeBench.Reports.Percentile
import DeltaForgeBench.ScaleOut.Curve

/-! # What a row of the curve depends on

A row is read off two lists, the samples of its query at its level and at the
baseline. The ratio of their medians decides the verdict before it is rounded. -/
namespace DeltaForgeBench.ScaleOut.Laws
open DeltaForgeBench.Base.Text DeltaForgeBench.Base.Dict DeltaForgeBench.Base.Sorted
open DeltaForgeBench.Base.Numeral DeltaForgeBench.Base.Quantile
open DeltaForgeBench.Reports.Percentile
open DeltaForgeBench.ScaleOut.Aggregate

/-! ## The exact ratio -/

/-- `samples.get((qid, n), [])`. -/
def samplesAt (samples : Samples) (q : Str) (n : Int) : List ℚ := (get? samples (q, n)).getD []

/-- `p50 / base` as it stands before it is rounded; `none` is the not-a-number. -/
def ratioAt (samples : Samples) (q : Str) (n : Int) : Option ℚ := do
  let p50 ← median (samplesAt samples q n)
  let base ← median (samplesAt samples q 1)
  if 0 < base then some (p50 / base) else none

theorem rowOf_verdict (samples : Samples) (q : Str) (n : Int) :
    (rowOf samples q n).ratioP50VsN1 = (ratioAt samples q n).map (rounded 3) ∧
      (rowOf samples q n).flat =
        (ratioAt samples q n).map fun x => decide (x ≤ flatnessThreshold) := by
  have hmedian : ∀ values, percentileOn id values 50 = median values := curve_isPercentile.halfway
  unfold rowOf rowOn ratioAt
  simp only [hmedian, samplesAt]
  cases median ((get? samples (q, n)).getD []) with
  | none => exact ⟨rfl, rfl⟩
  | some p =>
    cases median ((get? samples (q, 1)).getD []) with
    | none => exact ⟨rfl, rfl⟩
    | some b => exact ⟨rfl, rfl⟩

theorem rounded_intCast (k : Nat) (n : Int) : rounded k n = n := by
  have hscale : (n : ℚ) * 10 ^ k = (n * 10 ^ k : Int) := by push_cast; rfl
  rw [rounded, hscale, roundHalfEven_intCast]
  push_cast
  exact mul_div_cancel_right₀ _ (by positivity)

theorem ratioAt_eq_some_iff {samples : Samples} {q : Str} {n : Int} {x : ℚ} :
    ratioAt samples q n = some x ↔ ∃ p b, median (samplesAt samples q n) = some p ∧
      median (samplesAt samples q 1) = some b ∧ 0 < b ∧ p / b = x := by
  simp only [ratioAt, Option.bind_eq_bind, Option.bind_eq_some_iff, Option.ite_none_right_eq_some,
    Option.some.injEq]
  constructor
  · intro h
    obtain ⟨p, hp, b, hb, hpos, hx⟩ := h
    exact ⟨p, b, hp, hb, hpos, hx⟩
  · intro h
    obtain ⟨p, b, hp, hb, hpos, hx⟩ := h
    exact ⟨p, hp, b, hb, hpos, hx⟩

/-- The rows are the values of `rowOf` on the pairs of the curve. -/
theorem aggregate_eq_map (samples : Samples) (levels : List Int) (ids : List Str) :
    aggregate samples levels ids =
      ((sorted ids).product (sorted levels)).map fun k => rowOf samples k.1 k.2 := by
  simp only [aggregate, aggregateOn, List.product, List.map_flatMap, List.map_map]
  rfl

/-- Two sample maps whose lists are permutations of each other wherever a row
looks give that row alike. -/
theorem rowOf_congr {s s' : Samples} {q : Str} {n : Int}
    (hn : (samplesAt s q n).Perm (samplesAt s' q n))
    (hbase : (samplesAt s q 1).Perm (samplesAt s' q 1)) : rowOf s q n = rowOf s' q n := by
  have hcong : ∀ {l m : List ℚ}, l.Perm m → ∀ p, 0 ≤ p → p ≤ 100 →
      percentileOn id l p = percentileOn id m p := fun h p => curve_isPercentile.perm _ _ p h
  unfold samplesAt at hn hbase
  unfold rowOf rowOn
  simp only [hcong hn 50 (by norm_num) (by norm_num), hcong hn 95 (by norm_num) (by norm_num),
    hcong hbase 50 (by norm_num) (by norm_num), hn.length_eq]

/-! ## Positive timings -/

/-- Every timing of the map is positive. -/
def Positive (samples : Samples) : Prop := ∀ q n, ∀ x ∈ samplesAt samples q n, 0 < x

theorem median_pos {values : List ℚ} (hpos : ∀ x ∈ values, 0 < x) {m : ℚ}
    (h : median values = some m) : 0 < m := by
  have hne : values ≠ [] := by
    intro hnil
    rw [hnil, median_nil] at h
    cases h
  obtain ⟨a, ha, b, hb, ham, hmb⟩ := quantile_between hne (t := (1 / 2 : ℚ)) (by norm_num)
  obtain rfl := Option.some.inj ((median_eq_quantile hne).symm.trans h)
  exact (hpos a ha).trans_le ham

theorem positive_of_forall {samples : Samples} (h : ∀ s ∈ samples, ∀ x ∈ s.2, 0 < x) :
    Positive samples := by
  intro q n x hx
  rw [samplesAt] at hx
  cases hget : get? samples (q, n) with
  | none =>
    rw [hget] at hx
    exact absurd hx List.not_mem_nil
  | some values =>
    rw [hget] at hx
    exact h _ (mem_of_get? hget) x hx

/-- With positive timings the baseline of a query is one and the same number
above and below the line. -/
theorem ratioAt_baseline {samples : Samples} (hpos : Positive samples) {q : Str}
    (hne : samplesAt samples q 1 ≠ []) : ratioAt samples q 1 = some 1 := by
  obtain ⟨m, hm⟩ := Option.isSome_iff_exists.mp (median_isSome hne)
  have hmpos : 0 < m := median_pos (hpos q 1) hm
  exact ratioAt_eq_some_iff.mpr ⟨m, m, hm, hm, hmpos, div_self hmpos.ne'⟩

/-! ## A common factor -/

/-- Every timing multiplied by the factor. -/
def scale (c : ℚ) (samples : Samples) : Samples := samples.map fun s => (s.1, s.2.map (c * ·))

theorem samplesAt_scale (c : ℚ) (samples : Samples) (q : Str) (n : Int) :
    samplesAt (scale c samples) q n = (samplesAt samples q n).map (c * ·) := by
  rw [samplesAt, samplesAt, scale]
  induction samples with
  | nil => rfl
  | cons s rest ih =>
    rw [List.map_cons, get?_cons, get?_cons]
    split
    · rfl
    · exact ih

theorem median_mul {c : ℚ} (hc : 0 ≤ c) (values : List ℚ) :
    median (values.map (c * ·)) = (median values).map (c * ·) := by
  by_cases hne : values = []
  · subst hne
    rfl
  · have hne' : values.map (c * ·) ≠ [] := by simpa using hne
    rw [median_eq_quantile hne, median_eq_quantile hne', quantile_mul hne hc, Option.map_some]

/-- The factor cancels. -/
theorem ratioAt_scale {c : ℚ} (hc : 0 < c) (samples : Samples) (q : Str) (n : Int) :
    ratioAt (scale c samples) q n = ratioAt samples q n := by
  unfold ratioAt
  rw [samplesAt_scale, samplesAt_scale, median_mul hc.le, median_mul hc.le]
  cases median (samplesAt samples q n) with
  | none => rfl
  | some p =>
    cases median (samplesAt samples q 1) with
    | none => rfl
    | some b =>
      have hratio : c * p / (c * b) = p / b := mul_div_mul_left p b hc.ne'
      simp only [Option.map_some, Option.bind_eq_bind, Option.bind_some, hratio,
        mul_pos_iff_of_pos_left hc]

/-! ## The laws -/

/-- What the curve says of a query at a level. -/
def verdictOf (row : Row) : (Str × Int) × Option ℚ × Option Bool :=
  ((row.queryId, row.n), row.ratioP50VsN1, row.flat)

/-- The rows whose key is kept are alike when `rowOf` is, on every key kept. -/
theorem filter_aggregate_congr {s s' : Samples} (keep : Str × Int → Bool)
    (h : ∀ q n, keep (q, n) = true → rowOf s q n = rowOf s' q n) (levels : List Int)
    (ids : List Str) :
    (aggregate s levels ids).filter (fun r => keep (r.queryId, r.n)) =
      (aggregate s' levels ids).filter fun r => keep (r.queryId, r.n) := by
  rw [aggregate_eq_map, aggregate_eq_map, List.filter_map, List.filter_map]
  refine List.map_congr_left fun k hk => ?_
  exact h k.1 k.2 (List.mem_filter.mp hk).2

/-- The two maps hold the same samples at every other key. -/
def AgreeOff (s s' : Samples) (q : Str) (n : Int) : Prop :=
  ∀ q' n', (q', n') ≠ (q, n) → samplesAt s q' n' = samplesAt s' q' n'

theorem rowOf_agreeOff {s s' : Samples} {q q' : Str} {n n' : Int} (h : AgreeOff s s' q n)
    (hrow : (q', n') ≠ (q, n)) (hbase : (q', 1) ≠ (q, n)) : rowOf s q' n' = rowOf s' q' n' :=
  rowOf_congr (List.Perm.of_eq (h q' n' hrow)) (List.Perm.of_eq (h q' 1 hbase))

theorem flatness_laws (levels : List Int) (ids : List Str) :
    (∀ samples, Positive samples → ∀ row ∈ aggregate samples levels ids, row.n = 1 →
      0 < row.samples → ratioAt samples row.queryId row.n = some 1 ∧
        row.ratioP50VsN1 = some 1 ∧ row.flat = some true) ∧
    (∀ samples c, Positive samples → 0 < c →
      (∀ q n, ratioAt (scale c samples) q n = ratioAt samples q n) ∧
        (aggregate (scale c samples) levels ids).map verdictOf =
          (aggregate samples levels ids).map verdictOf) ∧
    (∀ s s', (∀ q n, (samplesAt s q n).Perm (samplesAt s' q n)) →
      aggregate s levels ids = aggregate s' levels ids) ∧
    (∀ s s' q n, AgreeOff s s' q n →
      (n ≠ 1 → (aggregate s levels ids).filter (fun r => (r.queryId, r.n) ≠ (q, n)) =
        (aggregate s' levels ids).filter fun r => (r.queryId, r.n) ≠ (q, n)) ∧
      (n = 1 → (aggregate s levels ids).filter (fun r => r.queryId ≠ q) =
        (aggregate s' levels ids).filter fun r => r.queryId ≠ q)) := by
  refine ⟨?_, ?_, ?_, ?_⟩
  · intro samples hpos row hrow hn hsome
    rw [aggregate_eq_map] at hrow
    obtain ⟨k, -, rfl⟩ := List.mem_map.mp hrow
    obtain ⟨q, n⟩ := k
    obtain rfl : n = 1 := hn
    have hne : samplesAt samples q 1 ≠ [] := List.length_pos_iff.mp hsome
    have hone := ratioAt_baseline hpos hne
    obtain ⟨hratio, hflat⟩ := rowOf_verdict samples q 1
    refine ⟨hone, ?_, ?_⟩
    · rw [hratio, hone, Option.map_some]
      exact congrArg some (by simpa using rounded_intCast 3 1)
    · rw [hflat, hone, flatnessThreshold]
      norm_num
  · intro samples c _ hc
    refine ⟨ratioAt_scale hc samples, ?_⟩
    rw [aggregate_eq_map, aggregate_eq_map, List.map_map, List.map_map]
    refine List.map_congr_left fun k _ => ?_
    obtain ⟨hratio, hflat⟩ := rowOf_verdict samples k.1 k.2
    obtain ⟨hratio', hflat'⟩ := rowOf_verdict (scale c samples) k.1 k.2
    rw [ratioAt_scale hc] at hratio' hflat'
    simp only [Function.comp_apply, verdictOf, hratio, hflat, hratio', hflat']
    rfl
  · intro s s' h
    rw [aggregate_eq_map, aggregate_eq_map]
    exact List.map_congr_left fun k _ => rowOf_congr (h k.1 k.2) (h k.1 1)
  · intro s s' q n h
    refine ⟨fun hn => ?_, fun hn => ?_⟩
    · refine filter_aggregate_congr (fun k => k ≠ (q, n)) ?_ levels ids
      intro q' n' hkeep
      exact rowOf_agreeOff h (of_decide_eq_true hkeep) (by simpa using fun _ => Ne.symm hn)
    · refine filter_aggregate_congr (fun k => k.1 ≠ q) ?_ levels ids
      intro q' n' hkeep
      have hq : q' ≠ q := by simpa using hkeep
      exact rowOf_agreeOff h (by simp [hq]) (by simp [hq])

/-- Two queries at two levels; what was measured of the second at level 2 varies. -/
def twoLevels (times : List ℚ) : Samples :=
  [(("q01".toList, 1), [100, 110]), (("q14".toList, 1), [70]),
   (("q01".toList, 2), [120, 130, 125]), (("q14".toList, 2), times)]

theorem twoLevels_positive : Positive (twoLevels [80, 75]) :=
  positive_of_forall (by simp [twoLevels])

theorem twoLevels_agreeOff (times times' : List ℚ) :
    AgreeOff (twoLevels times) (twoLevels times') "q14".toList 2 := by
  intro q n hne
  have hlast : (("q14".toList, 2) : Str × Int) ≠ (q, n) := hne.symm
  simp only [samplesAt, twoLevels, get?_cons, if_neg hlast]

theorem twoLevels_perm (q : Str) (n : Int) :
    (samplesAt (twoLevels [80, 75]) q n).Perm (samplesAt (twoLevels [75, 80]) q n) := by
  by_cases hlast : (q, n) = ("q14".toList, 2)
  · obtain ⟨rfl, rfl⟩ := Prod.mk.inj hlast
    exact List.Perm.swap 75 80 []
  · rw [twoLevels_agreeOff [80, 75] [75, 80] q n hlast]

/-- A baseline row, a common factor, the order of the samples, and a single entry. -/
theorem flatness_laws_twoLevels :
    (ratioAt (twoLevels [80, 75]) "q01".toList 1 = some 1 ∧
      (rowOf (twoLevels [80, 75]) "q01".toList 1).flat = some true) ∧
    (aggregate (scale 3 (twoLevels [80, 75])) [1, 2] ["q01".toList, "q14".toList]).map verdictOf =
      (aggregate (twoLevels [80, 75]) [1, 2] ["q01".toList, "q14".toList]).map verdictOf ∧
    aggregate (twoLevels [80, 75]) [1, 2] ["q01".toList, "q14".toList] =
      aggregate (twoLevels [75, 80]) [1, 2] ["q01".toList, "q14".toList] ∧
    (aggregate (twoLevels [80, 75]) [1, 2] ["q01".toList, "q14".toList]).filter
        (fun r => (r.queryId, r.n) ≠ ("q14".toList, 2)) =
      (aggregate (twoLevels [900]) [1, 2] ["q01".toList, "q14".toList]).filter
        fun r => (r.queryId, r.n) ≠ ("q14".toList, 2) := by
  obtain ⟨baseline, factor, order, entry⟩ :=
    flatness_laws [1, 2] ["q01".toList, "q14".toList]
  have hrow : rowOf (twoLevels [80, 75]) "q01".toList 1 ∈
      aggregate (twoLevels [80, 75]) [1, 2] ["q01".toList, "q14".toList] := by
    rw [aggregate_eq_map]
    refine List.mem_map.mpr ⟨("q01".toList, 1), List.mem_product.mpr ?_, rfl⟩
    exact ⟨mem_sorted.mpr (by simp), mem_sorted.mpr (by simp)⟩
  obtain ⟨hratio, -, hflat⟩ := baseline _ twoLevels_positive _ hrow rfl
    (show 0 < 2 by decide)
  exact ⟨⟨hratio, hflat⟩, (factor _ 3 twoLevels_positive (by norm_num)).2,
    order _ _ twoLevels_perm, (entry _ _ _ 2 (twoLevels_agreeOff _ _)).1 (by decide)⟩

end DeltaForgeBench.ScaleOut.Laws
