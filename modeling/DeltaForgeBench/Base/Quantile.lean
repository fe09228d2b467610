import DeltaForgeBench.Base.Sorted
import Mathlib.Algebra.Order.Floor.Semiring
import Mathlib.Tactic.Linarith
import Mathlib.Tactic.Ring

/-! # Quantiles by linear interpolation

The order statistics of a list, and the broken line through them. A quantile
is read off that line, so what holds of it comes in two parts: how the line
depends on its points, and how the order statistics depend on the list. -/
namespace DeltaForgeBench.Base.Quantile
open DeltaForgeBench.Base.Sorted

/-! ## The broken line -/

section Interpolation
variable {K : Type*} [Field K] [LinearOrder K] [IsStrictOrderedRing K] [FloorSemiring K]
variable {f g : Nat → K} {x y : K}

/-- The broken line through the points `(i, f i)`. -/
def interpolate (f : Nat → K) (x : K) : K := f ⌊x⌋₊ + (f (⌊x⌋₊ + 1) - f ⌊x⌋₊) * (x - ⌊x⌋₊)

omit [IsStrictOrderedRing K] in
theorem interpolate_of_floor {n : Nat} (h : ⌊x⌋₊ = n) :
    interpolate f x = f n + (f (n + 1) - f n) * (x - n) := by
  rw [interpolate, h]

@[simp] theorem interpolate_natCast (f : Nat → K) (n : Nat) : interpolate f (n : K) = f n := by
  simp [interpolate_of_floor (Nat.floor_natCast n)]

omit [IsStrictOrderedRing K] in
theorem interpolate_mul (c : K) (f : Nat → K) (x : K) :
    interpolate (fun i => c * f i) x = c * interpolate f x := by
  unfold interpolate
  ring

theorem floor_rest (hx : 0 ≤ x) : 0 ≤ x - ⌊x⌋₊ ∧ x - ⌊x⌋₊ ≤ 1 := by
  have below : (⌊x⌋₊ : K) ≤ x := Nat.floor_le hx
  have above : x < ⌊x⌋₊ + 1 := Nat.lt_floor_add_one x
  constructor <;> linarith

/-- The line stays between the two points around it. -/
theorem interpolate_between (hf : Monotone f) (hx : 0 ≤ x) :
    f ⌊x⌋₊ ≤ interpolate f x ∧ interpolate f x ≤ f (⌊x⌋₊ + 1) := by
  obtain ⟨hrest, hrest'⟩ := floor_rest hx
  have hstep : 0 ≤ f (⌊x⌋₊ + 1) - f ⌊x⌋₊ := sub_nonneg.mpr (hf (Nat.le_succ _))
  have hpart : (f (⌊x⌋₊ + 1) - f ⌊x⌋₊) * (x - ⌊x⌋₊) ≤ f (⌊x⌋₊ + 1) - f ⌊x⌋₊ :=
    mul_le_of_le_one_right hstep hrest'
  have hpart' : 0 ≤ (f (⌊x⌋₊ + 1) - f ⌊x⌋₊) * (x - ⌊x⌋₊) := mul_nonneg hstep hrest
  unfold interpolate
  constructor <;> linarith

/-- Points that move up take the line with them. -/
theorem interpolate_le_interpolate (h : ∀ i, f i ≤ g i) (hx : 0 ≤ x) :
    interpolate f x ≤ interpolate g x := by
  obtain ⟨hrest, hrest'⟩ := floor_rest hx
  have weighted : ∀ k : Nat → K, interpolate k x =
      k ⌊x⌋₊ * (1 - (x - ⌊x⌋₊)) + k (⌊x⌋₊ + 1) * (x - ⌊x⌋₊) := by
    intro k
    unfold interpolate
    ring
  rw [weighted f, weighted g]
  exact add_le_add (mul_le_mul_of_nonneg_right (h _) (by linarith))
    (mul_le_mul_of_nonneg_right (h _) hrest)

/-- The line through increasing points increases, also across a point. -/
theorem interpolate_mono (hf : Monotone f) (hx : 0 ≤ x) (hxy : x ≤ y) :
    interpolate f x ≤ interpolate f y := by
  rcases (Nat.floor_mono hxy).eq_or_lt with hsame | hlater
  · have hstep : 0 ≤ f (⌊y⌋₊ + 1) - f ⌊y⌋₊ := sub_nonneg.mpr (hf (Nat.le_succ _))
    have hpart := mul_le_mul_of_nonneg_left (sub_le_sub_right hxy (⌊y⌋₊ : K)) hstep
    rw [interpolate_of_floor hsame, interpolate_of_floor (x := y) rfl]
    linarith
  · calc interpolate f x ≤ f (⌊x⌋₊ + 1) := (interpolate_between hf hx).2
      _ ≤ f ⌊y⌋₊ := hf hlater
      _ ≤ interpolate f y := (interpolate_between hf (hx.trans hxy)).1

end Interpolation

/-! ## Order statistics -/

section OrderStatistics
variable {K : Type*} [LinearOrder K]

theorem sorted_eq_of_le {a : K} {s : List K} (hs : (a :: s).Pairwise (· ≤ ·)) :
    s.orderedInsert (· ≤ ·) a = a :: s := by
  cases s with
  | nil => rfl
  | cons b rest => exact List.orderedInsert_cons_of_le _ _ (List.rel_of_pairwise_cons hs (by simp))

/-- Inserting a smaller element into smaller elements keeps the order between
the lists, position by position. -/
theorem forall₂_orderedInsert {a b : K} (hab : a ≤ b) {s t : List K}
    (h : List.Forall₂ (· ≤ ·) s t) (hs : s.Pairwise (· ≤ ·)) (ht : t.Pairwise (· ≤ ·)) :
    List.Forall₂ (· ≤ ·) (s.orderedInsert (· ≤ ·) a) (t.orderedInsert (· ≤ ·) b) := by
  induction h generalizing a b with
  | nil => simpa using hab
  | @cons x y s t hxy hrest ih =>
    have hs' := List.pairwise_cons.mp hs
    have ht' := List.pairwise_cons.mp ht
    rw [List.orderedInsert, List.orderedInsert]
    split
    · rename_i hax
      split
      · exact .cons hab (.cons hxy hrest)
      · rename_i hby
        have hyb : y ≤ b := (not_le.mp hby).le
        have shifted := ih (hxy.trans hyb) hs'.2 ht'.2
        rw [sorted_eq_of_le hs] at shifted
        exact .cons (hax.trans hxy) shifted
    · rename_i hax
      have hxa : x ≤ a := (not_le.mp hax).le
      split
      · rename_i hby
        have shifted := ih (hab.trans hby) hs'.2 ht'.2
        rw [sorted_eq_of_le ht] at shifted
        exact .cons (hxa.trans hab) shifted
      · exact .cons hxy (ih hab hs'.2 ht'.2)

/-- Lists that are ordered element by element stay so when both are sorted. -/
theorem forall₂_sorted {l m : List K} (h : List.Forall₂ (· ≤ ·) l m) :
    List.Forall₂ (· ≤ ·) (sorted l) (sorted m) := by
  induction h with
  | nil => exact .nil
  | cons hab hrest ih => exact forall₂_orderedInsert hab ih (sorted_pairwise _) (sorted_pairwise _)

theorem clamped_lt {l : List K} (hne : l ≠ []) (i : Nat) :
    min i (l.length - 1) < (sorted l).length := by
  have hpos : 0 < l.length := List.length_pos_iff.mpr hne
  rw [length_sorted]
  omega

variable [Zero K]

/-- The `i`-th smallest element, counted from zero; past the end it is the largest. -/
def orderStat (l : List K) (i : Nat) : K := ((sorted l)[min i (l.length - 1)]?).getD 0

theorem orderStat_eq {l : List K} {i : Nat} (h : min i (l.length - 1) < (sorted l).length) :
    orderStat l i = (sorted l)[min i (l.length - 1)] := by
  rw [orderStat, List.getElem?_eq_getElem h, Option.getD_some]

theorem getElem?_sorted {l : List K} {i : Nat} (hi : i < l.length) :
    (sorted l)[i]? = some (orderStat l i) := by
  have hmin : min i (l.length - 1) = i := by omega
  have hlen : i < (sorted l).length := by simpa using hi
  rw [orderStat, hmin, List.getElem?_eq_getElem hlen, Option.getD_some]

theorem orderStat_mem {l : List K} (hne : l ≠ []) (i : Nat) : orderStat l i ∈ l := by
  rw [orderStat_eq (clamped_lt hne i)]
  exact mem_sorted.mp (List.getElem_mem _)

theorem orderStat_congr {l m : List K} (h : l.Perm m) : orderStat l = orderStat m := by
  funext i
  rw [orderStat, orderStat, sorted_congr h, h.length_eq]

omit [Zero K] in
theorem sorted_map {f : K → K} (hf : Monotone f) (l : List K) :
    sorted (l.map f) = (sorted l).map f :=
  sorted_eq_of_pairwise ((sorted_perm l).map f)
    (List.pairwise_map.mpr ((sorted_pairwise l).imp fun h => hf h))

theorem orderStat_map {f : K → K} (hf : Monotone f) {l : List K} (hne : l ≠ []) (i : Nat) :
    orderStat (l.map f) i = f (orderStat l i) := by
  rw [orderStat_eq (clamped_lt hne i), orderStat, sorted_map hf, List.length_map,
    List.getElem?_map, List.getElem?_eq_getElem (clamped_lt hne i)]
  rfl

theorem orderStat_mono (l : List K) : Monotone (orderStat l) := by
  intro i j hij
  by_cases hne : l = []
  · subst hne
    exact le_refl _
  · rw [orderStat_eq (clamped_lt hne i), orderStat_eq (clamped_lt hne j)]
    exact (sorted_pairwise l).sortedLE.getElem_le_getElem_of_le (min_le_min_right _ hij)

/-- Every element lies between the smallest and the largest. -/
theorem mem_between {l : List K} {a : K} (ha : a ∈ l) :
    orderStat l 0 ≤ a ∧ a ≤ orderStat l (l.length - 1) := by
  obtain ⟨i, hi, rfl⟩ := List.getElem_of_mem (mem_sorted.mpr ha)
  have hlen : i < l.length := by simpa using hi
  have hstat : orderStat l i = (sorted l)[i] := by
    rw [orderStat, Nat.min_eq_left (by omega), List.getElem?_eq_getElem hi, Option.getD_some]
  rw [← hstat]
  exact ⟨orderStat_mono l (Nat.zero_le i), orderStat_mono l (by omega)⟩

theorem orderStat_le_orderStat {l m : List K} (h : List.Forall₂ (· ≤ ·) l m) (i : Nat) :
    orderStat l i ≤ orderStat m i := by
  by_cases hne : l = []
  · subst hne
    cases h
    exact le_refl _
  · have hne' : m ≠ [] := fun hm => hne (List.length_eq_zero_iff.mp (by simp [h.length_eq, hm]))
    rw [orderStat_eq (clamped_lt hne i), orderStat_eq (clamped_lt hne' i)]
    have hlen : min i (l.length - 1) = min i (m.length - 1) := by rw [h.length_eq]
    simp only [hlen]
    exact (forall₂_sorted h).get _ _

omit [Zero K] in
/-- The elements up to a value come first in an ordered list. -/
theorem lt_countP_iff {s : List K} (hs : s.Pairwise (· ≤ ·)) {i : Nat} (hi : i < s.length) (v : K) :
    i < s.countP (· ≤ v) ↔ s[i] ≤ v := by
  induction s generalizing i with
  | nil => cases hi
  | cons a s ih =>
    obtain ⟨hbelow, hs'⟩ := List.pairwise_cons.mp hs
    by_cases hav : a ≤ v
    · rw [List.countP_cons_of_pos (by simpa using hav)]
      cases i with
      | zero => simpa using hav
      | succ i => simpa using ih hs' (Nat.lt_of_succ_lt_succ hi)
    · have none_left : s.countP (· ≤ v) = 0 := by
        refine List.countP_eq_zero.mpr fun b hb => ?_
        simpa using lt_of_lt_of_le (not_le.mp hav) (hbelow b hb)
      have hia : ¬ (a :: s)[i] ≤ v := by
        refine not_le.mpr (lt_of_lt_of_le (not_le.mp hav) ?_)
        cases i with
        | zero => exact le_refl a
        | succ i => exact hbelow _ (List.getElem_mem _)
      rw [List.countP_cons_of_neg (by simpa using hav), none_left]
      exact ⟨fun h => absurd h (Nat.not_lt_zero i), fun h => absurd h hia⟩

theorem lt_countP_iff_orderStat_le {l : List K} {i : Nat} (hi : i < l.length) (v : K) :
    i < l.countP (· ≤ v) ↔ orderStat l i ≤ v := by
  have hlen : i < (sorted l).length := by simpa using hi
  have hget : (sorted l)[i] = orderStat l i := by
    have hsome := getElem?_sorted hi
    rw [List.getElem?_eq_getElem hlen] at hsome
    exact Option.some.inj hsome
  rw [← (sorted_perm l).countP_eq, lt_countP_iff (sorted_pairwise l) hlen, hget]

end OrderStatistics

/-! ## Quantiles -/

section Quantiles
variable {K : Type*} [Field K] [LinearOrder K] [IsStrictOrderedRing K] [FloorSemiring K]

/-- The place of the quantile `t` among the order statistics of `n` elements. -/
def rank (n : Nat) (t : K) : K := t * (n - 1)

def quantile (l : List K) (t : K) : K := interpolate (orderStat l) (rank l.length t)

section Rank
variable {n : Nat} {t : K}

theorem rank_nonneg (hn : 0 < n) (ht : 0 ≤ t) : 0 ≤ rank n t := by
  have hone : (1 : K) ≤ n := by exact_mod_cast hn
  exact mul_nonneg ht (sub_nonneg.mpr hone)

theorem rank_le (hn : 0 < n) (ht : t ≤ 1) : rank n t ≤ (n - 1 : Nat) := by
  have hone : (1 : K) ≤ n := by exact_mod_cast hn
  rw [rank, Nat.cast_sub hn, Nat.cast_one]
  exact mul_le_of_le_one_left (sub_nonneg.mpr hone) ht

theorem rank_mono (hn : 0 < n) {u : K} (h : t ≤ u) : rank n t ≤ rank n u := by
  have hone : (1 : K) ≤ n := by exact_mod_cast hn
  exact mul_le_mul_of_nonneg_right h (sub_nonneg.mpr hone)

end Rank

omit [IsStrictOrderedRing K] in
theorem quantile_congr {l m : List K} (h : l.Perm m) (t : K) : quantile l t = quantile m t := by
  rw [quantile, quantile, orderStat_congr h, h.length_eq]

/-- A quantile lies between two elements of the list. -/
theorem quantile_between {l : List K} (hne : l ≠ []) {t : K} (ht : 0 ≤ t) :
    ∃ a ∈ l, ∃ b ∈ l, a ≤ quantile l t ∧ quantile l t ≤ b :=
  ⟨_, orderStat_mem hne _, _, orderStat_mem hne _,
    interpolate_between (orderStat_mono l) (rank_nonneg (List.length_pos_iff.mpr hne) ht)⟩

theorem quantile_mono {l : List K} (hne : l ≠ []) {t u : K} (ht : 0 ≤ t) (h : t ≤ u) :
    quantile l t ≤ quantile l u :=
  have hpos := List.length_pos_iff.mpr hne
  interpolate_mono (orderStat_mono l) (rank_nonneg hpos ht) (rank_mono hpos h)

theorem quantile_le_quantile {l m : List K} (h : List.Forall₂ (· ≤ ·) l m) (hne : l ≠ [])
    {t : K} (ht : 0 ≤ t) : quantile l t ≤ quantile m t := by
  rw [quantile, quantile, ← h.length_eq]
  exact interpolate_le_interpolate (orderStat_le_orderStat h)
    (rank_nonneg (List.length_pos_iff.mpr hne) ht)

theorem quantile_mul {l : List K} (hne : l ≠ []) {c : K} (hc : 0 ≤ c) (t : K) :
    quantile (l.map (c * ·)) t = c * quantile l t := by
  have scaled : orderStat (l.map (c * ·)) = fun i => c * orderStat l i :=
    funext (orderStat_map (fun _ _ h => mul_le_mul_of_nonneg_left h hc) hne)
  rw [quantile, scaled, interpolate_mul, List.length_map, quantile]

/-- The median is the quantile halfway. -/
theorem median_eq_quantile {l : List K} (hne : l ≠ []) :
    median l = some (quantile l (1 / 2)) := by
  have hpos := List.length_pos_iff.mpr hne
  unfold median quantile
  simp only
  split
  · rename_i hodd
    have hrank : rank l.length (1 / 2 : K) = (l.length / 2 : Nat) := by
      obtain ⟨k, hk⟩ : ∃ k, l.length = 2 * k + 1 := ⟨l.length / 2, by omega⟩
      have hhalf : l.length / 2 = k := by omega
      rw [hhalf, hk, rank]
      push_cast
      ring
    rw [hrank, interpolate_natCast]
    exact getElem?_sorted (by omega)
  · rename_i heven
    obtain ⟨k, hk⟩ : ∃ k, l.length = 2 * (k + 1) := ⟨l.length / 2 - 1, by omega⟩
    have hrank : rank l.length (1 / 2 : K) = k + 1 / 2 := by
      rw [hk, rank]
      push_cast
      ring
    have hfloor : ⌊(k + 1 / 2 : K)⌋₊ = k := by
      refine (Nat.floor_eq_iff (by positivity)).mpr ⟨?_, ?_⟩ <;> linarith
    have hlow : l.length / 2 - 1 = k := by omega
    have hhigh : l.length / 2 = k + 1 := by omega
    rw [hlow, hhigh, getElem?_sorted (by omega), getElem?_sorted (by omega), hrank,
      interpolate_of_floor hfloor]
    refine congrArg some ?_
    ring

/-! ## Upper tails -/

/-- An element of the list that at least the share `t` of it does not exceed, from the
median up. -/
structure UpperTail (t : K) (l : List K) (v : K) : Prop where
  mem : v ∈ l
  share : t * l.length ≤ l.countP (· ≤ v)
  median_le : ∀ m ∈ median l, m ≤ v
  le_max : ∀ b ∈ l.max?, v ≤ b

theorem median_le_orderStat {l : List K} (hne : l ≠ []) {i : Nat} (h : l.length ≤ 2 * i + 1)
    {m : K} (hm : m ∈ median l) : m ≤ orderStat l i := by
  have hpos := List.length_pos_iff.mpr hne
  have hrank : rank l.length (1 / 2 : K) ≤ (i : Nat) := by
    have hcast : (l.length : K) ≤ 2 * i + 1 := by exact_mod_cast h
    rw [rank]
    linarith
  have hbelow := interpolate_mono (orderStat_mono l)
    (rank_nonneg hpos (by norm_num : (0 : K) ≤ 1 / 2)) hrank
  rw [median_eq_quantile hne] at hm
  rw [← Option.some.inj hm]
  rwa [interpolate_natCast] at hbelow

/-- An order statistic is an upper tail when it has reached the one at the share. -/
theorem upperTail_orderStat_iff {l : List K} (hne : l ≠ []) {t : K} (ht : 1 / 2 < t) (ht' : t ≤ 1)
    (i : Nat) : UpperTail t l (orderStat l i) ↔
      orderStat l (⌈t * l.length⌉₊ - 1) ≤ orderStat l i := by
  have hpos := List.length_pos_iff.mpr hne
  have hcast : (1 : K) ≤ l.length := by exact_mod_cast hpos
  have hle : t * l.length ≤ l.length := mul_le_of_le_one_left (by linarith) ht'
  have hceil : ⌈t * (l.length : K)⌉₊ ≤ l.length := Nat.ceil_le.mpr hle
  have hhalf : l.length < 2 * ⌈t * (l.length : K)⌉₊ := by
    have habove := Nat.le_ceil (t * (l.length : K))
    have hmore : 1 / 2 * (l.length : K) < t * l.length := mul_lt_mul_of_pos_right ht (by linarith)
    have hdouble : (l.length : K) < 2 * ⌈t * (l.length : K)⌉₊ := by linarith
    exact_mod_cast hdouble
  have hcount := lt_countP_iff_orderStat_le (l := l) (i := ⌈t * (l.length : K)⌉₊ - 1) (by omega)
    (orderStat l i)
  constructor
  · intro tail
    refine hcount.mp ?_
    have hreached := Nat.ceil_le.mpr tail.share
    omega
  · intro h
    refine ⟨orderStat_mem hne i, Nat.ceil_le.mp ?_, ?_, ?_⟩
    · have hreached := hcount.mpr h
      omega
    · intro m hm
      exact (median_le_orderStat hne (by omega) hm).trans h
    · intro b hb
      exact (List.max?_eq_some_iff.mp hb).2 _ (orderStat_mem hne i)

theorem ceil_div_natCast (a : Nat) {b : Nat} (hb : 0 < b) :
    ⌈(a : K) / b⌉₊ = if b ∣ a then a / b else a / b + 1 := by
  have hb' : (0 : K) < b := by exact_mod_cast hb
  have hsplit := Nat.div_add_mod' a b
  split
  · rename_i hdvd
    obtain ⟨c, rfl⟩ := hdvd
    rw [Nat.mul_div_cancel_left c hb, Nat.cast_mul, mul_div_cancel_left₀ _ hb'.ne', Nat.ceil_natCast]
  · rename_i hnot
    have hmod : 0 < a % b := Nat.pos_of_ne_zero fun h => hnot (Nat.dvd_of_mod_eq_zero h)
    have hlt := Nat.mod_lt a hb
    have below : a / b * b < a := by omega
    have above : a ≤ (a / b + 1) * b := by
      rw [Nat.succ_mul]
      omega
    have hsucc : a / b + 1 ≠ 0 := Nat.succ_ne_zero _
    refine (Nat.ceil_eq_iff hsucc).mpr ⟨?_, ?_⟩
    · rw [Nat.add_sub_cancel, lt_div_iff₀ hb']
      exact_mod_cast below
    · rw [div_le_iff₀ hb']
      exact_mod_cast above

/-- What the `⌊t * n⌋`-th smallest of `n` elements is short of: an upper tail takes the
next one, unless `t * n` is whole or the two are equal. -/
theorem upperTail_floor_iff {l : List K} (hne : l ≠ []) {num den : Nat} (hden : 0 < den)
    (hhalf : den < 2 * num) (hone : num ≤ den) :
    UpperTail ((num : K) / den) l (orderStat l (num * l.length / den - 1)) ↔
      den ∣ num * l.length ∨
        orderStat l (num * l.length / den - 1) = orderStat l (num * l.length / den) := by
  have hden' : (0 : K) < den := by exact_mod_cast hden
  have ht : (1 / 2 : K) < num / den := by
    rw [div_lt_div_iff₀ (by norm_num) hden']
    exact_mod_cast (by omega : 1 * den < num * 2)
  have ht' : (num / den : K) ≤ 1 := (div_le_one hden').mpr (by exact_mod_cast hone)
  have hmul : (num / den : K) * l.length = ((num * l.length : Nat) : K) / den := by
    push_cast
    ring
  rw [upperTail_orderStat_iff hne ht ht', hmul, ceil_div_natCast _ hden]
  split
  · rename_i hdvd
    exact ⟨fun _ => .inl hdvd, fun _ => le_refl _⟩
  · rename_i hnot
    rw [Nat.add_sub_cancel]
    have hmono := orderStat_mono l (Nat.sub_le (num * l.length / den) 1)
    exact ⟨fun h => .inr (le_antisymm hmono h), fun h => (h.resolve_left hnot).ge⟩

end Quantiles

end DeltaForgeBench.Base.Quantile
