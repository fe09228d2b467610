import DeltaForgeBench.Base.Dict
import Mathlib.Data.Int.ConditionallyCompleteOrder

/-! # Thresholds from a table

What a level asks for, looked up in a table of some levels, with a formula for
the others or without one. A demand that is not met at a level is met at a
higher one only where the table is left: its own entries never ask for less. -/
namespace DeltaForgeBench.Base.Thresholds
open DeltaForgeBench.Base.Dict

section Demand

variable {κ α : Type*} [DecidableEq κ]

/-- `table.get(s, fallback(s))`. -/
def demand (table : List (κ × α)) (fallback : κ → α) (s : κ) : α :=
  (get? table s).getD (fallback s)

theorem demand_of_some {table : List (κ × α)} {s : κ} {n : α} (h : get? table s = some n)
    (fallback : κ → α) : demand table fallback s = n := by
  rw [demand, h, Option.getD_some]

theorem demand_of_none {table : List (κ × α)} {s : κ} (h : get? table s = none)
    (fallback : κ → α) : demand table fallback s = fallback s := by
  rw [demand, h, Option.getD_none]

end Demand

variable {κ α : Type*} [LinearOrder κ] [Preorder α]

/-- Higher levels ask for no less. -/
def Ascending (table : List (κ × α)) : Prop :=
  table.Pairwise fun p q => p.1 < q.1 ∧ p.2 ≤ q.2

instance [DecidableLE α] (table : List (κ × α)) : Decidable (Ascending table) :=
  inferInstanceAs (Decidable (table.Pairwise fun p q => p.1 < q.1 ∧ p.2 ≤ q.2))

theorem Ascending.le {table : List (κ × α)} (h : Ascending table) {s s' : κ} (hs : s ≤ s')
    {n n' : α} (hn : get? table s = some n) (hn' : get? table s' = some n') : n ≤ n' := by
  have hmem := mem_of_get? hn
  have hmem' := mem_of_get? hn'
  clear hn hn'
  induction table with
  | nil => cases hmem
  | cons head rest ih =>
    obtain ⟨hhead, hrest⟩ := List.pairwise_cons.mp h
    rcases List.mem_cons.mp hmem with rfl | hin
    · rcases List.mem_cons.mp hmem' with heq | hin'
      · exact (congrArg Prod.snd heq).ge
      · exact (hhead _ hin').2
    · rcases List.mem_cons.mp hmem' with rfl | hin'
      · exact (not_lt_of_ge hs (hhead _ hin).1).elim
      · exact ih hrest hin hin'

section Unmet

variable {unmet : α → Prop} {table : List (κ × α)} {s s' : κ}

/-- Without a formula, a demand that is not met is lost outside the table. -/
theorem unmet_imp_iff (hunmet : Monotone unmet) (htable : Ascending table) (hs : s ≤ s') :
    ((∃ n ∈ get? table s, unmet n) → ∃ n ∈ get? table s', unmet n) ↔
      ¬ (get? table s' = none ∧ ∃ n ∈ get? table s, unmet n) := by
  cases hn' : get? table s' with
  | none => simp
  | some n' =>
    have kept : (∃ n ∈ get? table s, unmet n) → unmet n' := by
      rintro ⟨n, hn, h⟩
      exact hunmet (htable.le hs hn hn') h
    simpa using kept

/-- With one, it is lost where the formula asks for less than the table does at
a lower level. -/
theorem unmet_demand_imp_iff (hunmet : Monotone unmet) (htable : Ascending table)
    {fallback : κ → α} (hfallback : Monotone fallback)
    (hbelow : ∀ n', get? table s' = some n' → fallback s' ≤ n') (hs : s ≤ s') :
    (unmet (demand table fallback s) → unmet (demand table fallback s')) ↔
      ¬ (get? table s' = none ∧ ∃ n ∈ get? table s, unmet n ∧ ¬ unmet (fallback s')) := by
  cases hn' : get? table s' with
  | some n' =>
    have more : unmet (demand table fallback s) → unmet n' := by
      cases hn : get? table s with
      | none =>
        rw [demand_of_none hn]
        exact fun h => hunmet ((hfallback hs).trans (hbelow n' hn')) h
      | some n =>
        rw [demand_of_some hn]
        exact fun h => hunmet (htable.le hs hn hn') h
    simpa [demand_of_some hn'] using more
  | none =>
    rw [demand_of_none hn']
    cases hn : get? table s with
    | none =>
      rw [demand_of_none hn]
      simpa using fun h => hunmet (hfallback hs) h
    | some n =>
      rw [demand_of_some hn]
      simp

end Unmet

end DeltaForgeBench.Base.Thresholds
