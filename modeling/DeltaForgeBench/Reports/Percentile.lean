import DeltaForgeBench.Base.Quantile
import DeltaForgeBench.Reports.GenerateReport
import DeltaForgeBench.ScaleOut.Aggregate

/-! # The two percentiles

The report and the scale-out curve each interpolate on their own, one between
the floor and the ceiling of the rank and the other from its truncation
upwards. Both read the same quantile. -/
namespace DeltaForgeBench.Reports.Percentile
open DeltaForgeBench.Base.Sorted DeltaForgeBench.Base.Numeral DeltaForgeBench.Base.Quantile
open DeltaForgeBench.Reports.GenerateReport DeltaForgeBench.ScaleOut

/-! ## What a percentile is -/

/-- What is asked of a percentile of `[0, 100]` on the lists that have one. -/
structure IsPercentile (f : List ℚ → ℚ → Option ℚ) : Prop where
  defined : ∀ values p, values ≠ [] → 0 ≤ p → p ≤ 100 → (f values p).isSome
  between : ∀ values p, 0 ≤ p → p ≤ 100 → ∀ v ∈ f values p, ∀ lo ∈ values.min?,
    ∀ hi ∈ values.max?, lo ≤ v ∧ v ≤ hi
  perm : ∀ values values' p, values.Perm values' → 0 ≤ p → p ≤ 100 → f values p = f values' p
  monotone : ∀ values p q, 0 ≤ p → p ≤ q → q ≤ 100 → ∀ v ∈ f values p, ∀ w ∈ f values q, v ≤ w
  monotone_samples : ∀ values values' p, List.Forall₂ (· ≤ ·) values values' → 0 ≤ p → p ≤ 100 →
    ∀ v ∈ f values p, ∀ w ∈ f values' p, v ≤ w
  halfway : ∀ values, f values 50 = median values

/-- Whatever reads the quantile of its list is a percentile. -/
theorem isPercentile_of_quantile {f : List ℚ → ℚ → Option ℚ} (hnil : ∀ p, f [] p = none)
    (h : ∀ values p, values ≠ [] → 0 ≤ p → p ≤ 100 → f values p = some (quantile values (p / 100))) :
    IsPercentile f := by
  have nonempty : ∀ {values p v}, v ∈ f values p → values ≠ [] := by
    intro values p v hv hempty
    rw [hempty, hnil] at hv
    cases hv
  have read : ∀ {values p v}, 0 ≤ p → p ≤ 100 → v ∈ f values p →
      quantile values (p / 100) = v := by
    intro values p v hp hp' hv
    exact Option.some.inj ((h values p (nonempty hv) hp hp').symm.trans hv)
  refine ⟨?_, ?_, ?_, ?_, ?_, ?_⟩
  · intro values p hne hp hp'
    rw [h values p hne hp hp']
    rfl
  · intro values p hp hp' v hv lo hlo hi hhi
    have hp100 : 0 ≤ p / 100 := div_nonneg hp (by norm_num)
    obtain ⟨a, ha, b, hb, hav, hvb⟩ := quantile_between (nonempty hv) hp100
    rw [read hp hp' hv] at hav hvb
    exact ⟨((List.min?_eq_some_iff.mp hlo).2 a ha).trans hav,
      hvb.trans ((List.max?_eq_some_iff.mp hhi).2 b hb)⟩
  · intro values values' p hperm hp hp'
    by_cases hne : values = []
    · subst hne
      rw [hperm.nil_eq]
    · have hne' : values' ≠ [] := fun hnil' => hne (by simpa [hnil'] using hperm)
      rw [h values p hne hp hp', h values' p hne' hp hp', quantile_congr hperm]
  · intro values p q hp hpq hq v hv w hw
    have hp' : p ≤ 100 := hpq.trans hq
    rw [← read hp hp' hv, ← read (hp.trans hpq) hq hw]
    exact quantile_mono (nonempty hv) (div_nonneg hp (by norm_num))
      (div_le_div_of_nonneg_right hpq (by norm_num))
  · intro values values' p hle hp hp' v hv w hw
    rw [← read hp hp' hv, ← read hp hp' hw]
    exact quantile_le_quantile hle (nonempty hv) (div_nonneg hp (by norm_num))
  · intro values
    by_cases hne : values = []
    · rw [hne, hnil, median_nil]
    · rw [h values 50 hne (by norm_num) (by norm_num), median_eq_quantile hne]
      norm_num

/-! ## The two computations -/

section Indices
variable {values : List ℚ} {p : ℚ}

theorem rank_bounds (hne : values ≠ []) (hp : 0 ≤ p) (hp' : p ≤ 100) :
    0 ≤ rank values.length (p / 100) ∧
      rank values.length (p / 100) ≤ (values.length - 1 : Nat) := by
  have hpos := List.length_pos_iff.mpr hne
  exact ⟨rank_nonneg hpos (div_nonneg hp (by norm_num)),
    rank_le hpos ((div_le_one (by norm_num)).mpr hp')⟩

/-- The floor of the rank, as both programs compute it, and the ceiling. -/
theorem indices (hne : values ≠ []) (hp : 0 ≤ p) (hp' : p ≤ 100) :
    ∃ lo : Nat, ⌊rank values.length (p / 100)⌋₊ = lo ∧ lo < values.length ∧
      ⌊rank values.length (p / 100)⌋ = lo ∧ truncate (rank values.length (p / 100)) = lo ∧
      (rank values.length (p / 100) = lo ∧ ⌈rank values.length (p / 100)⌉ = lo ∨
        lo + 1 < values.length ∧ ⌈rank values.length (p / 100)⌉ = (lo + 1 : Nat)) := by
  obtain ⟨hnonneg, hle⟩ := rank_bounds hne hp hp'
  have hpos := List.length_pos_iff.mpr hne
  generalize rank values.length (p / 100) = r at hnonneg hle
  have hfloor : (⌊r⌋₊ : Int) = ⌊r⌋ := Int.natCast_floor_eq_floor hnonneg
  have hlo : ⌊r⌋₊ ≤ values.length - 1 := Nat.floor_le_of_le hle
  refine ⟨⌊r⌋₊, rfl, by omega, hfloor.symm, ?_, ?_⟩
  · rw [truncate, if_neg (not_lt.mpr hnonneg), hfloor]
  · by_cases hint : r = ⌊r⌋₊
    · refine .inl ⟨hint, ?_⟩
      rw [hint]
      simp
    · have below : (⌊r⌋₊ : ℚ) < r := lt_of_le_of_ne (Nat.floor_le hnonneg) (Ne.symm hint)
      have above : r < ⌊r⌋₊ + 1 := Nat.lt_floor_add_one r
      have hlast : ⌊r⌋₊ < values.length - 1 := by exact_mod_cast below.trans_le hle
      refine .inr ⟨by omega, Int.ceil_eq_iff.mpr ⟨?_, ?_⟩⟩
      · push_cast
        linarith
      · push_cast
        exact above.le

end Indices

theorem item_sorted {values : List ℚ} {i : Nat} (hi : i < values.length) :
    item (sorted values) i = some (orderStat values i) := by
  rw [item, if_pos (Int.natCast_nonneg i), Int.toNat_natCast, getElem?_sorted hi]

theorem quantile_singleton (v : ℚ) (t : ℚ) : quantile [v] t = v := by
  have hrank : rank [v].length t = ((0 : Nat) : ℚ) := by simp [rank]
  rw [quantile, hrank, interpolate_natCast]
  exact List.mem_singleton.mp (orderStat_mem (by simp) 0)

theorem report_percentile {values : List ℚ} {p : ℚ} (hne : values ≠ []) (hp : 0 ≤ p)
    (hp' : p ≤ 100) : GenerateReport.percentile values p = some (quantile values (p / 100)) := by
  obtain ⟨lo, hnat, hlt, hfloor, -, hceil⟩ := indices hne hp hp'
  have hrank : p / 100 * ((values.length : ℚ) - 1) = rank values.length (p / 100) := rfl
  rw [GenerateReport.percentile, if_neg hne]
  simp only [length_sorted, hrank]
  split
  · rename_i hone
    obtain ⟨v, rfl⟩ := List.length_eq_one_iff.mp hone
    rw [quantile_singleton]
    rfl
  · rw [quantile, interpolate_of_floor hnat, hfloor]
    rcases hceil with ⟨hint, hceil⟩ | ⟨hlt', hceil⟩
    · rw [hceil, if_pos rfl, item_sorted hlt, hint]
      simp
    · rw [hceil, if_neg (by simp), item_sorted hlt, item_sorted hlt']
      rfl

theorem curve_percentile {values : List ℚ} {p : ℚ} (hne : values ≠ []) (hp : 0 ≤ p)
    (hp' : p ≤ 100) : Aggregate.percentile values p = some (quantile values (p / 100)) := by
  obtain ⟨lo, hnat, hlt, -, htrunc, hceil⟩ := indices hne hp hp'
  match values with
  | [] => exact absurd rfl hne
  | [v] => rw [quantile_singleton]; rfl
  | v :: w :: rest =>
    have hrank : ((v :: w :: rest).length - 1 : ℚ) * (p / 100) =
        rank (v :: w :: rest).length (p / 100) := mul_comm _ _
    simp only [Aggregate.percentile, Aggregate.percentileOn, id_eq, length_sorted, hrank, htrunc]
    rw [quantile, interpolate_of_floor hnat, Int.toNat_natCast, getElem?_sorted hlt]
    rcases hceil with ⟨hint, -⟩ | ⟨hlt', -⟩
    · have hlast : min (lo + 1) ((v :: w :: rest).length - 1) < (v :: w :: rest).length := by omega
      rw [getElem?_sorted hlast, hint]
      simp
    · have hnext : min (lo + 1) ((v :: w :: rest).length - 1) = lo + 1 := by omega
      rw [hnext, getElem?_sorted hlt']
      refine congrArg some ?_
      ring

theorem report_isPercentile : IsPercentile GenerateReport.percentile :=
  isPercentile_of_quantile (fun _ => rfl) fun _ _ => report_percentile

theorem curve_isPercentile : IsPercentile Aggregate.percentile :=
  isPercentile_of_quantile (fun _ => rfl) fun _ _ => curve_percentile

/-- Every index either program computes, for the rank of `p`, is one of the list. -/
def IndicesInRange (values : List ℚ) (p : ℚ) : Prop :=
  let rank := p / 100 * (values.length - 1)
  0 ≤ ⌊rank⌋ ∧ ⌈rank⌉ < values.length ∧ 0 ≤ truncate rank ∧ truncate rank < values.length

theorem indicesInRange {values : List ℚ} {p : ℚ} (hne : values ≠ []) (hp : 0 ≤ p)
    (hp' : p ≤ 100) : IndicesInRange values p := by
  obtain ⟨lo, -, hlt, hfloor, htrunc, hceil⟩ := indices hne hp hp'
  have hrank : p / 100 * ((values.length : ℚ) - 1) = rank values.length (p / 100) := rfl
  simp only [IndicesInRange, hrank, hfloor, htrunc]
  rcases hceil with ⟨-, hceil⟩ | ⟨hlt', hceil⟩ <;> omega

/-- The report and the curve compute one and the same percentile, on indices
that are in range. -/
theorem percentiles_agree :
    (∀ values p, values ≠ [] → 0 ≤ p → p ≤ 100 → IndicesInRange values p ∧
      GenerateReport.percentile values p = Aggregate.percentile values p) ∧
    IsPercentile GenerateReport.percentile ∧ IsPercentile Aggregate.percentile := by
  refine ⟨?_, report_isPercentile, curve_isPercentile⟩
  intro values p hne hp hp'
  rw [report_percentile hne hp hp', curve_percentile hne hp hp']
  exact ⟨indicesInRange hne hp hp', rfl⟩

/-- The 95th percentile of three times, in two orders, and two runs of which the second
was slower throughout. -/
theorem percentiles_agree_threeTimes :
    GenerateReport.percentile [120, 90, 100] 95 = Aggregate.percentile [120, 90, 100] 95 ∧
      GenerateReport.percentile [120, 90, 100] 95 = GenerateReport.percentile [90, 100, 120] 95 ∧
      ∀ v ∈ Aggregate.percentile [120, 90, 100] 95,
        ∀ w ∈ Aggregate.percentile [125, 90, 101] 95, v ≤ w := by
  obtain ⟨agree, report, curve⟩ := percentiles_agree
  refine ⟨(agree _ 95 (List.cons_ne_nil _ _) (by norm_num) (by norm_num)).2, ?_, ?_⟩
  · have rotated : List.Perm ([120] ++ [(90 : ℚ), 100]) ([90, 100] ++ [120]) :=
      List.perm_append_comm
    exact report.perm _ _ 95 rotated (by norm_num) (by norm_num)
  · have slower : List.Forall₂ (· ≤ ·) [(120 : ℚ), 90, 100] [125, 90, 101] := by
      norm_num
    exact curve.monotone_samples _ _ 95 slower (by norm_num) (by norm_num)

end DeltaForgeBench.Reports.Percentile
