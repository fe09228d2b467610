import DeltaForgeBench.Base.Tables
import Mathlib.Data.List.Basic

/-! # Statements that decide row by row

`UPDATE`, `DELETE`, and a `MERGE` that inserts nothing look at one row at a time:
a row is rewritten or goes, whatever the other rows are. What a run of such
statements makes of a table is then what it makes of each row. -/
namespace DeltaForgeBench.Base.RowWise
open DeltaForgeBench.Base.Tables

section Runs
variable {ρ σ : Type*}

/-- What becomes of each row; `none` is a row that goes. -/
def onRows (f : ρ → Option ρ) (rows : List ρ) : List ρ := rows.filterMap f

/-- The fate of one row under statements in a row. -/
def fate (f : σ → ρ → Option ρ) (steps : List σ) (r : ρ) : Option ρ :=
  steps.foldlM (fun r s => f s r) r

theorem updateWhere_eq (p : ρ → Bool) (f : ρ → ρ) (rows : List ρ) :
    updateWhere p f rows = onRows (fun r => some (if p r then f r else r)) rows := by
  rw [updateWhere, onRows, ← List.filterMap_eq_map]
  rfl

theorem deleteWhere_eq (p : ρ → Bool) (rows : List ρ) :
    deleteWhere p rows = onRows (fun r => if p r then none else some r) rows := by
  rw [deleteWhere, onRows, ← List.filterMap_eq_filter]
  refine List.filterMap_congr fun r _ => ?_
  cases h : p r <;> simp [Option.guard, h]

theorem onRows_onRows (f g : ρ → Option ρ) (rows : List ρ) :
    onRows g (onRows f rows) = onRows (fun r => (f r).bind g) rows := List.filterMap_filterMap

/-- A run of statements works row by row as well. -/
theorem foldl_onRows (f : σ → ρ → Option ρ) (steps : List σ) (rows : List ρ) :
    steps.foldl (fun rows s => onRows (f s) rows) rows = onRows (fate f steps) rows := by
  induction steps generalizing rows with
  | nil => exact (List.filterMap_some).symm
  | cons s steps ih =>
    rw [List.foldl_cons, ih, onRows_onRows]
    rfl

end Runs

/-! ## `MERGE` without insertion -/

section Merge
variable {ρ σ κ : Type*} [DecidableEq κ] (key : ρ → κ) (sourceKey : σ → κ)

/-- What `MERGE` does to a row: nothing, or what the row of the source says. -/
def actedRow (whenMatched : σ → ρ → Option ρ) (source : List σ) (r : ρ) : Option ρ :=
  (matchesOf key sourceKey source r).head?.elim (some r) fun s => whenMatched s r

/-- `MERGE INTO rows USING source ON` equality of the keys, where a matched row is
rewritten or deleted; `none` is the error of a row that matches twice. -/
def mergeMatched (whenMatched : σ → ρ → Option ρ) (source : List σ) (rows : List ρ) :
    Option (List ρ) :=
  if AtMostOne key sourceKey source rows then
    some (onRows (actedRow key sourceKey whenMatched source) rows)
  else none

/-- The same `MERGE` so many times. -/
def mergeTimes (whenMatched : σ → ρ → Option ρ) (source : List σ) : Nat → List ρ → Option (List ρ)
  | 0, rows => some rows
  | n + 1, rows => (mergeMatched key sourceKey whenMatched source rows).bind
      (mergeTimes whenMatched source n)

variable {key sourceKey} {whenMatched : σ → ρ → Option ρ} {source : List σ}

theorem mergeMatched_eq (h : UniqueKey sourceKey source) (rows : List ρ) :
    mergeMatched key sourceKey whenMatched source rows =
      some (onRows (actedRow key sourceKey whenMatched source) rows) :=
  if_pos (atMostOne h rows)

/-- A row is left alone when the source has no row with its key, and otherwise one
row of the source with its key says what becomes of it. -/
theorem actedRow_cases (key : ρ → κ) (sourceKey : σ → κ) (whenMatched : σ → ρ → Option ρ)
    (source : List σ) (r : ρ) :
    (actedRow key sourceKey whenMatched source r = some r ∧ ∀ s ∈ source, sourceKey s ≠ key r) ∨
      ∃ s ∈ source, sourceKey s = key r ∧
        actedRow key sourceKey whenMatched source r = whenMatched s r := by
  have hmem : ∀ s, s ∈ matchesOf key sourceKey source r ↔ s ∈ source ∧ sourceKey s = key r := by
    intro s
    rw [matchesOf, List.mem_filter, decide_eq_true_iff]
  unfold actedRow
  cases hmatches : matchesOf key sourceKey source r with
  | nil =>
    refine .inl ⟨rfl, fun s hs heq => ?_⟩
    have := (hmem s).mpr ⟨hs, heq⟩
    rw [hmatches] at this
    cases this
  | cons s rest =>
    obtain ⟨hs, hkey⟩ := (hmem s).mp (hmatches ▸ List.mem_cons_self ..)
    exact .inr ⟨s, hs, hkey, rfl⟩

theorem matchesOf_congr {r r' : ρ} (h : key r' = key r) :
    matchesOf key sourceKey source r' = matchesOf key sourceKey source r := by
  simp only [matchesOf, h]

/-- A row that was acted on is left alone by the same source, when acting keeps the
key and acting twice is acting once. -/
theorem actedRow_again (hkeep : ∀ s r r', whenMatched s r = some r' → key r' = key r)
    (hagain : ∀ s r r', whenMatched s r = some r' → whenMatched s r' = some r') (r : ρ) :
    (actedRow key sourceKey whenMatched source r).bind (actedRow key sourceKey whenMatched source) =
      actedRow key sourceKey whenMatched source r := by
  have hnone : ∀ {r : ρ}, (matchesOf key sourceKey source r).head? = none →
      actedRow key sourceKey whenMatched source r = some r := fun h => by rw [actedRow, h]; rfl
  have hsome : ∀ {r : ρ} {s : σ}, (matchesOf key sourceKey source r).head? = some s →
      actedRow key sourceKey whenMatched source r = whenMatched s r := fun h => by
    rw [actedRow, h]
    rfl
  cases hs : (matchesOf key sourceKey source r).head? with
  | none => rw [hnone hs, Option.bind_some, hnone hs]
  | some s =>
    rw [hsome hs]
    cases hr : whenMatched s r with
    | none => rfl
    | some r' =>
      have hs' : (matchesOf key sourceKey source r').head? = some s := by
        rw [matchesOf_congr (hkeep s r r' hr), hs]
      rw [Option.bind_some, hsome hs', hagain s r r' hr]

/-- **Repeating such a `MERGE` changes nothing**: any number of times from one on
does what the first time does. -/
theorem mergeTimes_succ (hsource : UniqueKey sourceKey source)
    (hkeep : ∀ s r r', whenMatched s r = some r' → key r' = key r)
    (hagain : ∀ s r r', whenMatched s r = some r' → whenMatched s r' = some r')
    (n : Nat) (rows : List ρ) :
    mergeTimes key sourceKey whenMatched source (n + 1) rows =
      some (onRows (actedRow key sourceKey whenMatched source) rows) := by
  induction n generalizing rows with
  | zero =>
    rw [mergeTimes, mergeMatched_eq hsource]
    rfl
  | succ n ih =>
    rw [mergeTimes, mergeMatched_eq hsource, Option.bind_some, ih, onRows_onRows]
    exact congrArg (fun f => some (onRows f rows)) (funext (actedRow_again hkeep hagain))

end Merge

end DeltaForgeBench.Base.RowWise
