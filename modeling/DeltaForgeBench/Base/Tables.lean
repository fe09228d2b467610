import Mathlib.Data.List.Nodup

/-! # Tables with a key

A table is a list of rows, with a column that is meant to be unique. What the
statements of SQL that write a table do to that column: `UPDATE` and `DELETE`
keep it unique, an insertion does when the new keys are fresh, and `MERGE`
does when the keys of its source are unique as well. -/
namespace DeltaForgeBench.Base.Tables

/-! ## Unique keys -/

section Keys
variable {ρ κ : Type*} {key : ρ → κ} {rows more : List ρ}

/-- No two rows carry the same key. -/
def UniqueKey (key : ρ → κ) (rows : List ρ) : Prop := (rows.map key).Nodup

theorem UniqueKey.eq_of_key (h : UniqueKey key rows) {a b : ρ} (ha : a ∈ rows) (hb : b ∈ rows)
    (hkey : key a = key b) : a = b := List.inj_on_of_nodup_map h ha hb hkey

theorem UniqueKey.filter (h : UniqueKey key rows) (p : ρ → Bool) : UniqueKey key (rows.filter p) :=
  List.Nodup.sublist (List.filter_sublist.map key) h

theorem uniqueKey_append : UniqueKey key (rows ++ more) ↔
    UniqueKey key rows ∧ UniqueKey key more ∧ ∀ a ∈ rows, ∀ b ∈ more, key a ≠ key b := by
  simp only [UniqueKey, List.map_append, List.nodup_append, List.mem_map, forall_exists_index,
    and_imp, forall_apply_eq_imp_iff₂]

/-- Rewriting rows so that their new keys are an injective image of the old
ones keeps the keys unique. -/
theorem UniqueKey.map {σ : Type*} {newKey : σ → κ} {f : ρ → σ} {g : κ → κ} (hg : g.Injective)
    (hf : ∀ r ∈ rows, newKey (f r) = g (key r)) (h : UniqueKey key rows) :
    UniqueKey newKey (rows.map f) := by
  have hkeys : (rows.map f).map newKey = (rows.map key).map g := by
    rw [List.map_map, List.map_map]
    exact List.map_congr_left hf
  rw [UniqueKey, hkeys]
  exact List.Nodup.map hg h

/-- Rows made from rows with unique keys, each keeping its key, if made at all. -/
theorem UniqueKey.filterMap {σ : Type*} {sourceKey : σ → κ} {f : σ → Option ρ}
    (hf : ∀ s r, f s = some r → key r = sourceKey s) {source : List σ}
    (h : UniqueKey sourceKey source) : UniqueKey key (source.filterMap f) := by
  induction source with
  | nil => exact List.nodup_nil
  | cons s rest ih =>
    obtain ⟨hnot, hrest⟩ := List.nodup_cons.mp h
    cases hs : f s with
    | none =>
      rw [List.filterMap_cons_none hs]
      exact ih hrest
    | some r =>
      rw [List.filterMap_cons_some hs]
      refine List.nodup_cons.mpr ⟨fun hmem => hnot ?_, ih hrest⟩
      obtain ⟨r', hr', hkey⟩ := List.mem_map.mp hmem
      obtain ⟨s', hs', hmade⟩ := List.mem_filterMap.mp hr'
      rw [← hf s r hs, ← hkey, hf s' r' hmade]
      exact List.mem_map_of_mem hs'

end Keys

/-! ## `UPDATE` and `DELETE` -/

section Statements
variable {ρ κ : Type*} {key : ρ → κ} {rows : List ρ}

/-- `UPDATE rows SET .. WHERE p`. -/
def updateWhere (p : ρ → Bool) (f : ρ → ρ) (rows : List ρ) : List ρ :=
  rows.map fun r => if p r then f r else r

/-- `DELETE FROM rows WHERE p`. -/
def deleteWhere (p : ρ → Bool) (rows : List ρ) : List ρ := rows.filter fun r => !p r

theorem mem_updateWhere {p : ρ → Bool} {f : ρ → ρ} {r : ρ} :
    r ∈ updateWhere p f rows ↔ ∃ old ∈ rows, (if p old then f old else old) = r := List.mem_map

theorem mem_of_mem_deleteWhere {p : ρ → Bool} {r : ρ} (h : r ∈ deleteWhere p rows) : r ∈ rows :=
  (List.mem_filter.mp h).1

theorem UniqueKey.updateWhere {p : ρ → Bool} {f : ρ → ρ} (hf : ∀ r, key (f r) = key r)
    (h : UniqueKey key rows) : UniqueKey key (updateWhere p f rows) := by
  refine h.map (g := id) Function.injective_id fun r _ => ?_
  split
  · exact hf r
  · rfl

theorem UniqueKey.deleteWhere (p : ρ → Bool) (h : UniqueKey key rows) :
    UniqueKey key (deleteWhere p rows) := h.filter _

end Statements

/-! ## `MERGE` -/

section Merge
variable {ρ σ κ : Type*} [DecidableEq κ] (key : ρ → κ) (sourceKey : σ → κ)

/-- The rows of the source that match a row. -/
def matchesOf (source : List σ) (r : ρ) : List σ := source.filter fun s => sourceKey s = key r

/-- No row matches two rows of the source. -/
def AtMostOne (source : List σ) (rows : List ρ) : Prop :=
  ∀ r ∈ rows, (matchesOf key sourceKey source r).length ≤ 1

instance (source : List σ) (rows : List ρ) : Decidable (AtMostOne key sourceKey source rows) :=
  inferInstanceAs (Decidable (∀ r ∈ rows, _))

/-- What `MERGE` makes of a row of its target. -/
def mergedRow (whenMatched : σ → ρ → ρ) (source : List σ) (r : ρ) : ρ :=
  (matchesOf key sourceKey source r).head?.elim r fun s => whenMatched s r

/-- The rows of the source that match no row. -/
def unmatched (source : List σ) (rows : List ρ) : List σ :=
  source.filter fun s => ∀ r ∈ rows, sourceKey s ≠ key r

/-- `MERGE INTO rows USING source ON` equality of the keys, with what is done to
a matched row and the row that is inserted for an unmatched one, if any;
`none` is the error of a row that matches twice. -/
def mergeInto (whenMatched : σ → ρ → ρ) (whenNotMatched : σ → Option ρ) (source : List σ)
    (rows : List ρ) : Option (List ρ) :=
  if AtMostOne key sourceKey source rows then
    some (rows.map (mergedRow key sourceKey whenMatched source) ++
      (unmatched key sourceKey source rows).filterMap whenNotMatched)
  else none

variable {key sourceKey}

/-- A source with unique keys matches every row at most once. -/
theorem atMostOne {source : List σ} (h : UniqueKey sourceKey source) (rows : List ρ) :
    AtMostOne key sourceKey source rows := by
  intro r _
  have hfilter : (matchesOf key sourceKey source r).map sourceKey =
      List.replicate (matchesOf key sourceKey source r).length (key r) := by
    refine List.eq_replicate_iff.mpr ⟨List.length_map _, fun k hk => ?_⟩
    obtain ⟨s, hs, rfl⟩ := List.mem_map.mp hk
    exact of_decide_eq_true (List.mem_filter.mp hs).2
  have hnodup : ((matchesOf key sourceKey source r).map sourceKey).Nodup := h.filter _
  rw [hfilter, List.nodup_replicate] at hnodup
  exact hnodup

theorem mergeInto_eq {whenMatched : σ → ρ → ρ} {whenNotMatched : σ → Option ρ}
    {source : List σ} (h : UniqueKey sourceKey source) (rows : List ρ) :
    mergeInto key sourceKey whenMatched whenNotMatched source rows =
      some (rows.map (mergedRow key sourceKey whenMatched source) ++
        (unmatched key sourceKey source rows).filterMap whenNotMatched) :=
  if_pos (atMostOne h rows)

/-- What becomes of a row: it stays, or the one source row with its key is applied. -/
theorem mergedRow_cases (key : ρ → κ) (sourceKey : σ → κ) (whenMatched : σ → ρ → ρ)
    (source : List σ) (r : ρ) :
    (mergedRow key sourceKey whenMatched source r = r ∧ ∀ s ∈ source, sourceKey s ≠ key r) ∨
      ∃ s ∈ source, sourceKey s = key r ∧
        mergedRow key sourceKey whenMatched source r = whenMatched s r := by
  unfold mergedRow
  cases hmatches : matchesOf key sourceKey source r with
  | nil =>
    refine .inl ⟨rfl, fun s hs heq => ?_⟩
    have hmem : s ∈ matchesOf key sourceKey source r :=
      List.mem_filter.mpr ⟨hs, decide_eq_true heq⟩
    rw [hmatches] at hmem
    cases hmem
  | cons s rest =>
    have hmem : s ∈ matchesOf key sourceKey source r := hmatches ▸ List.mem_cons_self ..
    obtain ⟨hs, hkey⟩ := List.mem_filter.mp hmem
    exact .inr ⟨s, hs, of_decide_eq_true hkey, rfl⟩

theorem key_mergedRow {whenMatched : σ → ρ → ρ} (hkeep : ∀ s r, key (whenMatched s r) = key r)
    (source : List σ) (r : ρ) : key (mergedRow key sourceKey whenMatched source r) = key r := by
  rcases mergedRow_cases key sourceKey whenMatched source r with
    ⟨heq, -⟩ | ⟨s, -, -, heq⟩
  · rw [heq]
  · rw [heq, hkeep]

theorem mem_unmatched {source : List σ} {rows : List ρ} {s : σ} :
    s ∈ unmatched key sourceKey source rows ↔ s ∈ source ∧ ∀ r ∈ rows, sourceKey s ≠ key r := by
  rw [unmatched, List.mem_filter, decide_eq_true_iff]

/-- **`MERGE` keeps the keys unique** when its source has unique keys. -/
theorem uniqueKey_merge {whenMatched : σ → ρ → ρ} {whenNotMatched : σ → Option ρ} {source : List σ}
    {rows : List ρ} (hkeep : ∀ s r, key (whenMatched s r) = key r)
    (hinsert : ∀ s r, whenNotMatched s = some r → key r = sourceKey s)
    (hsource : UniqueKey sourceKey source) (h : UniqueKey key rows) :
    UniqueKey key (rows.map (mergedRow key sourceKey whenMatched source) ++
      (unmatched key sourceKey source rows).filterMap whenNotMatched) := by
  refine uniqueKey_append.mpr ⟨?_, ?_, ?_⟩
  · exact h.map (g := id) Function.injective_id fun r _ => key_mergedRow hkeep source r
  · exact UniqueKey.filterMap hinsert (hsource.filter _)
  · intro a ha b hb
    obtain ⟨old, hold, rfl⟩ := List.mem_map.mp ha
    obtain ⟨s, hs, hb⟩ := List.mem_filterMap.mp hb
    rw [key_mergedRow hkeep, hinsert s b hb]
    exact ((mem_unmatched.mp hs).2 old hold).symm

end Merge

end DeltaForgeBench.Base.Tables
