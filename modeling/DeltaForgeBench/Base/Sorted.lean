import Mathlib.Data.List.Sort
import Mathlib.Algebra.Order.Field.Basic

/-! # Sorted lists and the median

`sorted` over a linear order depends on the multiset of its argument alone:
two lists sort alike exactly when one is a permutation of the other. The
median of `statistics` is read off the sorted list, so it inherits that. -/
namespace DeltaForgeBench.Base.Sorted

/-! ## `sorted` -/

section Order
variable {α : Type*} [LinearOrder α]

def sorted (l : List α) : List α := l.insertionSort (· ≤ ·)

theorem sorted_perm (l : List α) : (sorted l).Perm l := List.perm_insertionSort _ l

@[simp] theorem length_sorted (l : List α) : (sorted l).length = l.length :=
  (sorted_perm l).length_eq

@[simp] theorem mem_sorted {l : List α} {a : α} : a ∈ sorted l ↔ a ∈ l := (sorted_perm l).mem_iff

theorem sorted_pairwise (l : List α) : (sorted l).Pairwise (· ≤ ·) :=
  List.pairwise_insertionSort _ l

/-- An ordered permutation of a list is its sorted form. -/
theorem sorted_eq_of_pairwise {l s : List α} (hp : s.Perm l) (hs : s.Pairwise (· ≤ ·)) :
    sorted l = s :=
  List.Perm.eq_of_pairwise (fun _ _ _ _ hab hba => le_antisymm hab hba) (sorted_pairwise l) hs
    ((sorted_perm l).trans hp.symm)

theorem sorted_congr {l m : List α} (h : l.Perm m) : sorted l = sorted m :=
  sorted_eq_of_pairwise ((sorted_perm m).trans h.symm) (sorted_pairwise m)

/-- The first hit in an ordered list is the least. -/
theorem find?_eq_some_iff_isLeast {l : List α} (hl : l.Pairwise (· ≤ ·)) {p : α → Bool} {a : α} :
    l.find? p = some a ↔ IsLeast {b | b ∈ l ∧ p b = true} a := by
  induction l with
  | nil => simp [IsLeast]
  | cons b l ih =>
    obtain ⟨hb, htail⟩ := List.pairwise_cons.mp hl
    cases hp : p b with
    | true =>
      rw [List.find?_cons_of_pos hp, Option.some_inj]
      constructor
      · rintro rfl
        refine ⟨⟨List.mem_cons_self, hp⟩, ?_⟩
        rintro c ⟨hc, -⟩
        exact (List.mem_cons.mp hc).elim (fun h => h ▸ le_rfl) (hb c)
      · rintro ⟨⟨ha, -⟩, hleast⟩
        have hle : a ≤ b := hleast ⟨List.mem_cons_self, hp⟩
        exact (List.mem_cons.mp ha).elim Eq.symm fun h => le_antisymm (hb a h) hle
    | false =>
      have same : {c | c ∈ b :: l ∧ p c = true} = {c | c ∈ l ∧ p c = true} := by
        ext c
        simp only [Set.mem_ofPred_eq, List.mem_cons]
        constructor
        · rintro ⟨rfl | hc, hpc⟩
          · rw [hp] at hpc
            cases hpc
          · exact ⟨hc, hpc⟩
        · rintro ⟨hc, hpc⟩
          exact ⟨.inr hc, hpc⟩
      rw [List.find?_cons_of_neg (by simp [hp]), ih htail, same]

/-! ## `sorted` with a key -/

variable {β : Type*}

/-- `sorted(l, key=key)`. -/
def sortedBy (key : β → α) (l : List β) : List β := l.insertionSort fun a b => key a ≤ key b

theorem sortedBy_perm (key : β → α) (l : List β) : (sortedBy key l).Perm l :=
  List.perm_insertionSort _ l

theorem sortedBy_pairwise (key : β → α) (l : List β) :
    (sortedBy key l).Pairwise fun a b => key a ≤ key b := by
  have total : Std.Total fun a b : β => key a ≤ key b := ⟨fun a b => le_total (key a) (key b)⟩
  have transitive : IsTrans β fun a b => key a ≤ key b := ⟨fun _ _ _ h => le_trans h⟩
  exact List.pairwise_insertionSort _ l

/-- Elements with distinct keys are sorted alike from any order. -/
theorem sortedBy_congr {key : β → α} {l m : List β} (h : l.Perm m)
    (hkey : ∀ a ∈ l, ∀ b ∈ l, key a = key b → a = b) : sortedBy key l = sortedBy key m := by
  have hlm := (sortedBy_perm key l).trans (h.trans (sortedBy_perm key m).symm)
  refine List.Perm.eq_of_pairwise ?_ (sortedBy_pairwise key l) (sortedBy_pairwise key m) hlm
  intro a b ha hb hab hba
  exact hkey a ((sortedBy_perm key l).mem_iff.mp ha) b
    (h.mem_iff.mpr ((sortedBy_perm key m).mem_iff.mp hb)) (le_antisymm hab hba)

end Order

/-- A map that is injective on the elements at hand reflects permutation. -/
theorem perm_of_map_perm {α β : Type*} {f : α → β} : ∀ {l m : List α},
    (∀ a ∈ l, ∀ b ∈ m, f a = f b → a = b) → (l.map f).Perm (m.map f) → l.Perm m
  | [], m, _, h => by
    have hm : m = [] := by simpa using h.length_eq.symm
    rw [hm]
  | a :: l, m, hinj, h => by
    classical
    have hmem : f a ∈ m.map f := h.mem_iff.mp (by simp)
    obtain ⟨b, hb, hab⟩ := List.mem_map.mp hmem
    obtain rfl := hinj a (by simp) b hb hab.symm
    have hsplit : m.Perm (a :: m.erase a) := List.perm_cons_erase hb
    have htail : (l.map f).Perm ((m.erase a).map f) :=
      (List.perm_cons (f a)).mp (h.trans (hsplit.map f))
    have hrec := perm_of_map_perm (fun x hx y hy => hinj x (by simp [hx]) y (List.mem_of_mem_erase hy))
      htail
    exact (hrec.cons a).trans hsplit.symm

/-! ## `statistics.median` -/

section Median
variable {K : Type*} [Field K] [LinearOrder K]

/-- The middle of the sorted values, or the mean of the two middle ones;
`none` is the `StatisticsError` of an empty list. -/
def median (l : List K) : Option K :=
  let s := sorted l
  if l.length % 2 = 1 then s[l.length / 2]?
  else do
    let a ← s[l.length / 2 - 1]?
    let b ← s[l.length / 2]?
    return (a + b) / 2

@[simp] theorem median_nil : median ([] : List K) = none := rfl

theorem median_isSome {l : List K} (h : l ≠ []) : (median l).isSome := by
  have hlen : (sorted l).length = l.length := length_sorted l
  have hpos : 0 < l.length := List.length_pos_iff.mpr h
  unfold median
  simp only
  split
  · rw [List.getElem?_eq_getElem (by omega)]
    rfl
  · rw [List.getElem?_eq_getElem (by omega), List.getElem?_eq_getElem (by omega)]
    rfl

end Median

end DeltaForgeBench.Base.Sorted
