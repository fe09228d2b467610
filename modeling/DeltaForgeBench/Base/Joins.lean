import Mathlib.Data.List.Basic
import Mathlib.Data.List.Forall2
import Mathlib.Data.List.Perm.Basic
import Mathlib.Data.List.ProdSigma

/-! # Joins

Inner joins of lists of rows, written with `JOIN .. ON` and with a list of
tables and a condition. Where each row of one side has exactly one partner on
the other, a join neither multiplies its rows nor loses one. -/
namespace DeltaForgeBench.Base.Joins

section
variable {α β γ : Type*}

/-! ## `JOIN .. ON` -/

/-- `l JOIN r ON on`. -/
def innerJoin (on : α → β → Bool) (l : List α) (r : List β) : List (α × β) :=
  l.flatMap fun a => (r.filter (on a)).map fun b => (a, b)

theorem mem_innerJoin {on : α → β → Bool} {l : List α} {r : List β} {a : α} {b : β} :
    (a, b) ∈ innerJoin on l r ↔ a ∈ l ∧ b ∈ r ∧ on a b = true := by
  simp only [innerJoin, List.mem_flatMap, List.mem_map, List.mem_filter, Prod.mk.injEq]
  constructor
  · intro h
    obtain ⟨a', ha, b', hb, rfl, rfl⟩ := h
    exact ⟨ha, hb⟩
  · intro h
    exact ⟨a, h.1, b, h.2, rfl, rfl⟩

/-- The row has exactly one partner. -/
def OnePartner (p : β → Bool) (r : List β) : Prop := ∃ b, r.filter p = [b]

/-- A join on which every row has exactly one partner goes through its rows
once, each next to that partner. -/
theorem map_fst_innerJoin {on : α → β → Bool} {l : List α} {r : List β}
    (h : ∀ a ∈ l, OnePartner (on a) r) : (innerJoin on l r).map Prod.fst = l := by
  induction l with
  | nil => rfl
  | cons a rest ih =>
    obtain ⟨b, hb⟩ := h a (List.mem_cons_self ..)
    have htail := ih fun a' ha' => h a' (List.mem_cons_of_mem _ ha')
    rw [innerJoin, List.flatMap_cons, hb, List.map_append, ← innerJoin, htail]
    rfl

/-- What is made of each joined row, next to the rows it goes through. -/
theorem forall₂_map_of_map_eq {R : α → β → Prop} {joined : List γ} {f : γ → α} {g : γ → β}
    {l : List α} (hl : joined.map f = l) (h : ∀ x ∈ joined, R (f x) (g x)) :
    List.Forall₂ R l (joined.map g) := by
  rw [← hl, List.forall₂_map_left_iff, List.forall₂_map_right_iff, List.forall₂_same]
  exact h

/-! ## Keys -/

/-- A key that is present and unique has exactly one partner. -/
theorem onePartner_of_key {κ : Type*} [DecidableEq κ] {key : β → κ} {r : List β}
    (hunique : (r.map key).Nodup) {k : κ} (hpresent : k ∈ r.map key) :
    OnePartner (fun b => k = key b) r := by
  induction r with
  | nil => cases hpresent
  | cons b rest ih =>
    obtain ⟨hnot, hrest⟩ := List.nodup_cons.mp hunique
    by_cases hkey : k = key b
    · refine ⟨b, ?_⟩
      have others : rest.filter (fun b => k = key b) = [] := by
        refine List.filter_eq_nil_iff.mpr fun b' hb' => ?_
        simpa using fun heq : k = key b' => hnot (hkey ▸ heq ▸ List.mem_map_of_mem hb')
      rw [List.filter_cons_of_pos (by simpa using hkey), others]
    · have htail : k ∈ rest.map key := (List.mem_cons.mp hpresent).resolve_left hkey
      rw [OnePartner, List.filter_cons_of_neg (by simpa using hkey)]
      exact ih hrest htail

theorem OnePartner.congr {p q : β → Bool} {r : List β} (h : OnePartner p r)
    (hpq : ∀ b ∈ r, p b = q b) : OnePartner q r := by
  obtain ⟨b, hb⟩ := h
  exact ⟨b, (List.filter_congr hpq).symm.trans hb⟩

theorem OnePartner.map {f : γ → β} {p : β → Bool} {r : List γ}
    (h : OnePartner (fun c => p (f c)) r) : OnePartner p (r.map f) := by
  obtain ⟨c, hc⟩ := h
  refine ⟨f c, ?_⟩
  rw [List.filter_map]
  exact congrArg (List.map f) hc

/-! ## `FROM l, r WHERE` -/

theorem filter_product (p : α → Bool) (q : β → Bool) (l : List α) (r : List β) :
    (l ×ˢ r).filter (fun x => p x.1 && q x.2) = l.filter p ×ˢ r.filter q := by
  induction l with
  | nil => rfl
  | cons a rest ih =>
    rw [List.product_cons, List.filter_append, ih, List.filter_map]
    cases ha : p a with
    | false =>
      have hnone : r.filter ((fun x : α × β => p x.1 && q x.2) ∘ fun b => (a, b)) = [] :=
        List.filter_eq_nil_iff.mpr fun b _ => by simp [ha]
      rw [hnone, List.filter_cons_of_neg (by simp [ha])]
      rfl
    | true =>
      have hsome : ((fun x : α × β => p x.1 && q x.2) ∘ fun b => (a, b)) = q := by
        funext b
        simp [ha]
      rw [hsome, List.filter_cons_of_pos ha, List.product_cons]

/-- One partner in each of two tables makes one in their product. -/
theorem OnePartner.product {p : α → Bool} {q : β → Bool} {l : List α} {r : List β}
    (hp : OnePartner p l) (hq : OnePartner q r) :
    OnePartner (fun x : α × β => p x.1 && q x.2) (l ×ˢ r) := by
  obtain ⟨a, ha⟩ := hp
  obtain ⟨b, hb⟩ := hq
  refine ⟨(a, b), ?_⟩
  rw [filter_product, ha, hb]
  rfl

theorem product_cons_perm (l : List α) (b : β) (r : List β) :
    (l ×ˢ (b :: r)).Perm (l.map (fun a => (a, b)) ++ l ×ˢ r) := by
  exact (List.map_append_flatMap_perm l (fun a => (a, b)) fun a => r.map (Prod.mk a)).symm

/-- Facts that each have exactly one partner among the dimensions appear once
each in the join, although the dimensions are listed first. -/
theorem facts_of_onePartner {on : α × β → Bool} {dims : List α} {facts : List β}
    (h : ∀ f ∈ facts, OnePartner (fun d => on (d, f)) dims) :
    (((dims ×ˢ facts).filter on).map Prod.snd).Perm facts := by
  induction facts with
  | nil => simp
  | cons f rest ih =>
    have htail := ih fun f' hf' => h f' (List.mem_cons_of_mem _ hf')
    obtain ⟨d, hd⟩ := h f (List.mem_cons_self ..)
    have hhead : ((dims.map fun a => (a, f)).filter on).map Prod.snd = [f] := by
      have hfilter : dims.filter (on ∘ fun a => (a, f)) = [d] := hd
      rw [List.filter_map, hfilter]
      rfl
    have hsplit := ((product_cons_perm dims f rest).filter on).map Prod.snd
    rw [List.filter_append, List.map_append, hhead] at hsplit
    exact hsplit.trans (htail.cons f)

end

end DeltaForgeBench.Base.Joins
