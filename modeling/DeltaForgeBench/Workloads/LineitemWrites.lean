import DeltaForgeBench.Base.RowWise
import DeltaForgeBench.Base.Text
import Mathlib.Data.Rat.Defs
import Mathlib.Tactic.Ring

/-! # The workloads that write `lineitem`

`update_delete` runs five statements of growing selectivity, `merge_cdc` one
`MERGE` from a feed it has built before. Which rows they touch is a function of
the row's key, by a hash that is a parameter here, so what a table ends up as can
be said row by row, for whatever runs the schedule makes. -/
namespace DeltaForgeBench.Workloads.LineitemWrites
open DeltaForgeBench.Base.Tables DeltaForgeBench.Base.RowWise

/-- A row of `lineitem`; the columns no statement looks at are together. -/
structure Lineitem (β : Type) where
  orderkey : Int
  linenumber : Int
  quantity : Option ℚ
  others : β
  deriving DecidableEq

variable {β : Type}

def Lineitem.key (r : Lineitem β) : Int × Int := (r.orderkey, r.linenumber)

/-- `MOD(ABS(HASH(l_orderkey, l_linenumber)), m)` as the engine evaluates it;
`none` is `NULL`. -/
abbrev ModAbsHash := Nat → Int × Int → Option Int

/-- `MOD(ABS(HASH(..)), m) < bound`. A comparison with `NULL` selects nothing. -/
def inBuckets (hash : ModAbsHash) (m : Nat) (bound : Int) (key : Int × Int) : Bool :=
  (hash m key).any (· < bound)

/-! ## `update_delete` -/

/-- `_update_step(pct)` and `_delete_step(pct)`. -/
inductive Step
  | update (pct : Int)
  | delete (pct : Int)
  deriving DecidableEq

def Step.exec (hash : ModAbsHash) (rows : List (Lineitem β)) : Step → List (Lineitem β)
  | .update pct => updateWhere (fun r => inBuckets hash 100 pct r.key)
      (fun r => { r with quantity := r.quantity.map (· + 1) }) rows
  | .delete pct => deleteWhere (fun r => inBuckets hash 1000 (pct * 10) r.key) rows

/-- `measured_steps`. -/
def measuredSteps : List Step := [.update 1, .update 10, .update 50, .delete 1, .delete 10]

def run (hash : ModAbsHash) (steps : List Step) (rows : List (Lineitem β)) : List (Lineitem β) :=
  steps.foldl (Step.exec hash) rows

/-- The rows a step updates, by their keys. -/
def Step.updates (hash : ModAbsHash) (key : Int × Int) : Step → Bool
  | .update pct => inBuckets hash 100 pct key
  | .delete _ => false

def Step.deletes (hash : ModAbsHash) (key : Int × Int) : Step → Bool
  | .update _ => false
  | .delete pct => inBuckets hash 1000 (pct * 10) key

/-- What a step does to a row. -/
def Step.onRow (hash : ModAbsHash) (s : Step) (r : Lineitem β) : Option (Lineitem β) :=
  if s.deletes hash r.key then none
  else some { r with quantity := r.quantity.map (· + if s.updates hash r.key then 1 else 0) }

theorem exec_eq (hash : ModAbsHash) (rows : List (Lineitem β)) (s : Step) :
    s.exec hash rows = onRows (s.onRow hash) rows := by
  cases s with
  | update pct =>
    rw [Step.exec, updateWhere_eq]
    refine List.filterMap_congr fun r _ => ?_
    cases h : inBuckets hash 100 pct r.key <;> simp [Step.onRow, Step.deletes, Step.updates, h]
  | delete pct =>
    rw [Step.exec, deleteWhere_eq]
    refine List.filterMap_congr fun r _ => ?_
    cases h : inBuckets hash 1000 (pct * 10) r.key <;>
      simp [Step.onRow, Step.deletes, Step.updates, h]

theorem run_eq (hash : ModAbsHash) (steps : List Step) (rows : List (Lineitem β)) :
    run hash steps rows = onRows (fate (Step.onRow hash) steps) rows := by
  rw [← foldl_onRows, run]
  exact congrArg (fun f => steps.foldl f rows) (funext fun rows => funext fun s => exec_eq hash rows s)

/-- What becomes of a row when steps have run: it is gone when one of them deletes
it, and counts the updates that select it otherwise. -/
def finalRow (hash : ModAbsHash) (steps : List Step) (r : Lineitem β) : Option (Lineitem β) :=
  if steps.any (·.deletes hash r.key) then none
  else some { r with quantity := r.quantity.map (· + (steps.countP (·.updates hash r.key) : ℚ)) }

theorem onRow_cases (hash : ModAbsHash) (s : Step) (r : Lineitem β) :
    (s.deletes hash r.key = true ∧ s.onRow hash r = none) ∨
      (s.deletes hash r.key = false ∧ ∃ r', s.onRow hash r = some r' ∧ r'.key = r.key ∧
        r' = { r with quantity := r.quantity.map (· + if s.updates hash r.key then 1 else 0) }) := by
  cases h : s.deletes hash r.key with
  | true => exact .inl ⟨rfl, if_pos h⟩
  | false => exact .inr ⟨rfl, _, if_neg (by simp [h]), rfl, rfl⟩

theorem fate_eq (hash : ModAbsHash) (steps : List Step) (r : Lineitem β) :
    fate (Step.onRow hash) steps r = finalRow hash steps r := by
  induction steps generalizing r with
  | nil => simp [fate, finalRow]
  | cons s steps ih =>
    show (s.onRow hash r).bind (fate (Step.onRow hash) steps) = _
    rcases onRow_cases hash s r with ⟨hdel, hnone⟩ | ⟨hdel, r', hsome, hkey, hr'⟩
    · rw [hnone]
      simp [finalRow, hdel]
    · rw [hsome, Option.bind_some, ih, finalRow, finalRow, hkey, List.any_cons, hdel, Bool.false_or,
        List.countP_cons, hr']
      congr 2
      cases hq : r.quantity with
      | none => rfl
      | some q =>
        simp only [Option.map_some]
        split <;> push_cast <;> ring_nf

/-- **The order of the steps does not matter**, nor how they are spread over runs:
after any of them a row is gone when one of them deleted it, and otherwise has
its quantity raised once for each update that selects it. -/
theorem run_in_any_order (hash : ModAbsHash) (steps : List Step) (rows : List (Lineitem β)) :
    run hash steps rows = rows.filterMap (finalRow hash steps) ∧
      ∀ steps', steps'.Perm steps → run hash steps' rows = run hash steps rows := by
  have closed : ∀ steps, run hash steps rows = rows.filterMap (finalRow hash steps) := by
    intro steps
    rw [run_eq]
    exact List.filterMap_congr fun r _ => fate_eq hash steps r
  refine ⟨closed steps, fun steps' hperm => ?_⟩
  rw [closed, closed]
  refine List.filterMap_congr fun r _ => ?_
  have hany : steps'.any (·.deletes hash r.key) = steps.any (·.deletes hash r.key) := hperm.any_eq
  rw [finalRow, finalRow, hany, hperm.countP_eq]

/-- Three lines of one order, in the buckets 0, 1 and 2. -/
def threeLines : List (Lineitem Unit) :=
  [⟨1, 1, some 5, ()⟩, ⟨1, 2, some 7, ()⟩, ⟨1, 3, none, ()⟩]

def byLine : ModAbsHash := fun m key => some (if m = 1000 then 500 else key.2 - 1)

example : run byLine measuredSteps threeLines =
    [⟨1, 1, some 8, ()⟩, ⟨1, 2, some 9, ()⟩, ⟨1, 3, none, ()⟩] := by
  decide +kernel

/-! ## `merge_cdc` -/

inductive FeedOp
  | U | D
  deriving DecidableEq

/-- A row of `cdc_changes`. -/
structure Change where
  orderkey : Int
  linenumber : Int
  quantityNew : Option ℚ
  op : Option FeedOp
  deriving DecidableEq

def Change.key (s : Change) : Int × Int := (s.orderkey, s.linenumber)

/-- The `CASE` of the feed. -/
def opOf (hash : ModAbsHash) (key : Int × Int) : Option FeedOp :=
  if inBuckets hash 100 1 key then some .U
  else if inBuckets hash 100 2 key then some .D
  else none

def changeOf (hash : ModAbsHash) (r : Lineitem β) : Change where
  orderkey := r.orderkey
  linenumber := r.linenumber
  quantityNew := r.quantity.map (· + 1)
  op := opOf hash r.key

/-- `PREPARE_CHANGES_SQL`. -/
def prepareChanges (hash : ModAbsHash) (rows : List (Lineitem β)) : List Change :=
  (rows.filter fun r => inBuckets hash 100 2 r.key).map (changeOf hash)

/-- The two `WHEN MATCHED` clauses. -/
def whenMatched (s : Change) (r : Lineitem β) : Option (Lineitem β) :=
  if s.op = some .U then some { r with quantity := s.quantityNew }
  else if s.op = some .D then none
  else some r

/-- `MERGE_SQL`, so many times on the feed that the setup has built. -/
def mergeApply (feed : List Change) : Nat → List (Lineitem β) → Option (List (Lineitem β)) :=
  mergeTimes Lineitem.key Change.key whenMatched feed

/-- What the workload means a row to become. -/
def mergedRow (hash : ModAbsHash) (r : Lineitem β) : Option (Lineitem β) :=
  match opOf hash r.key with
  | some .U => some { r with quantity := r.quantity.map (· + 1) }
  | some .D => none
  | none => some r

theorem whenMatched_keeps (s : Change) (r r' : Lineitem β) (h : whenMatched s r = some r') :
    r'.key = r.key := by
  unfold whenMatched at h
  split_ifs at h <;> obtain rfl := Option.some.inj h <;> rfl

theorem whenMatched_again (s : Change) (r r' : Lineitem β) (h : whenMatched s r = some r') :
    whenMatched s r' = some r' := by
  unfold whenMatched at h ⊢
  split_ifs at h ⊢ with hU hD
  · obtain rfl := Option.some.inj h
    rfl
  · rfl

theorem prepareChanges_unique (hash : ModAbsHash) {rows : List (Lineitem β)}
    (h : UniqueKey Lineitem.key rows) : UniqueKey Change.key (prepareChanges hash rows) :=
  (h.filter _).map (g := id) Function.injective_id fun _ _ => rfl

theorem inBuckets_mono {hash : ModAbsHash} {m : Nat} {a b : Int} (hab : a ≤ b) {key : Int × Int}
    (h : inBuckets hash m a key = true) : inBuckets hash m b key = true := by
  unfold inBuckets at h ⊢
  cases hk : hash m key with
  | none =>
    rw [hk] at h
    cases h
  | some x =>
    rw [hk] at h
    simp only [Option.any_some, decide_eq_true_eq] at h ⊢
    omega

/-- A row outside the feed's buckets has no operation. -/
theorem opOf_none {hash : ModAbsHash} {key : Int × Int} (h : inBuckets hash 100 2 key = false) :
    opOf hash key = none := by
  have hfirst : ¬ inBuckets hash 100 1 key = true := fun hone => by
    rw [inBuckets_mono (by decide) hone] at h
    cases h
  rw [opOf, if_neg hfirst, if_neg (by simp [h])]

theorem whenMatched_own (hash : ModAbsHash) (r : Lineitem β) :
    whenMatched (changeOf hash r) r = mergedRow hash r := by
  have hop : (changeOf hash r).op = opOf hash r.key := rfl
  unfold whenMatched mergedRow
  rw [hop]
  cases opOf hash r.key with
  | none => rfl
  | some op => cases op <;> rfl

/-- On a row of the table it was built from, the feed does what it is meant to. -/
theorem actedRow_feed (hash : ModAbsHash) {rows : List (Lineitem β)}
    (h : UniqueKey Lineitem.key rows) {r : Lineitem β} (hr : r ∈ rows) :
    actedRow Lineitem.key Change.key whenMatched (prepareChanges hash rows) r = mergedRow hash r := by
  rcases actedRow_cases Lineitem.key Change.key whenMatched (prepareChanges hash rows) r with
    ⟨hkeep, hnone⟩ | ⟨s, hs, hkey, hacted⟩
  · have hout : inBuckets hash 100 2 r.key = false := by
      cases hin : inBuckets hash 100 2 r.key with
      | false => rfl
      | true => exact absurd rfl (hnone _ (List.mem_map_of_mem (List.mem_filter.mpr ⟨hr, hin⟩)))
    rw [hkeep, mergedRow, opOf_none hout]
  · obtain ⟨old, hold, rfl⟩ := List.mem_map.mp hs
    obtain rfl : old = r := h.eq_of_key (List.mem_filter.mp hold).1 hr hkey
    rw [hacted, whenMatched_own]

/-- **The feed is applied once, however often it is merged**: its updates raise a
quantity by one over the table the feed was built from, not over the last merge. -/
theorem merge_any_times (hash : ModAbsHash) {rows : List (Lineitem β)}
    (h : UniqueKey Lineitem.key rows) (n : Nat) :
    mergeApply (prepareChanges hash rows) (n + 1) rows = some (rows.filterMap (mergedRow hash)) := by
  rw [mergeApply, mergeTimes_succ (prepareChanges_unique hash h) whenMatched_keeps whenMatched_again]
  exact congrArg some (List.filterMap_congr fun r hr => actedRow_feed hash h hr)

theorem merge_any_times_three :
    mergeApply (prepareChanges byLine threeLines) 3 threeLines =
      some [⟨1, 1, some (5 + 1), ()⟩, ⟨1, 3, none, ()⟩] :=
  merge_any_times byLine (List.nodup_iff_pairwise_ne.mpr (by simp [threeLines, Lineitem.key])) 2

end DeltaForgeBench.Workloads.LineitemWrites
