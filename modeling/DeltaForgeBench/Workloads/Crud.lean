import DeltaForgeBench.Base.Tables
import DeltaForgeBench.Base.Text
import Mathlib.Data.Rat.Floor

/-! # The CRUD workload

Four statements write the `orders` table, and a staging table `cdc_feed` is
built from it once, before them. The rows each statement touches are picked by
a hash of the key, which is a parameter here, and so is what the price column
stores of a value that it cannot hold exactly. -/
namespace DeltaForgeBench.Workloads.Crud
open DeltaForgeBench.Base.Text DeltaForgeBench.Base.Tables

/-! ## The tables -/

/-- A value of `DECIMAL(15,2)`. -/
structure Price where
  cents : Int
  fits : cents.natAbs < 10 ^ 15
  deriving DecidableEq

def Price.value (p : Price) : ℚ := p.cents / 100

/-- What the column stores of a value, and nothing when the value is out of its
range. Its own values it stores as they are. -/
structure PriceColumn where
  store : ℚ → Option Price
  store_value : ∀ p : Price, store p.value = some p

/-- The columns of `orders`; `none` is `NULL`. The prices of the feed are exact. -/
structure OrderRow (π : Type) where
  orderkey : Int
  custkey : Option Int
  orderstatus : Option Str
  totalprice : Option π
  orderdate : Option Str
  orderpriority : Option Str
  clerk : Option Str
  shippriority : Option Int
  comment : Option Str
  deriving DecidableEq

/-- A row of `orders`. -/
abbrev Order := OrderRow Price

def OrderRow.mapPrice {π π' : Type} (f : Option π → Option π') (o : OrderRow π) : OrderRow π' :=
  { o with totalprice := f o.totalprice }

/-- The row with its price as a number. -/
def exact (o : Order) : OrderRow ℚ := o.mapPrice (·.map Price.value)

/-- The column `_op`. -/
inductive FeedOp
  | I | U
  deriving DecidableEq

/-- A row of `cdc_feed`. -/
structure FeedRow extends OrderRow ℚ where
  op : FeedOp
  deriving DecidableEq

/-- `MOD(ABS(HASH(o_orderkey)), m)`. -/
def bucket (hash : Int → Int) (m : Nat) (o : Order) : Nat := (hash o.orderkey).natAbs % m

/-- `MAX(o_orderkey) + offset`. The maximum of an empty table is `NULL`, but the
statements that read it select no row of an empty table. -/
def maxKeyPlus (offset : Int) (orders : List Order) : Int :=
  (orders.map (·.orderkey)).max?.getD 0 + offset

/-- An `'I'` row of the feed. -/
def newRow (orders : List Order) (o : Order) : FeedRow :=
  { exact o with
    orderkey := o.orderkey + maxKeyPlus 100000 orders
    orderstatus := some "F".toList
    totalprice := o.totalprice.map (·.value * (105 / 100))
    comment := o.comment.map ("new:".toList ++ ·)
    op := .I }

/-- A `'U'` row of the feed. -/
def changedRow (o : Order) : FeedRow := { exact o with orderstatus := some "X".toList, op := .U }

/-- `_SPARK_CDC_FEED`, and `_DF_CDC_FEED` alike. -/
def cdcFeed (hash : Int → Int) (orders : List Order) : List FeedRow :=
  (orders.filter fun o => bucket hash 500 o = 0).map (newRow orders) ++
    (orders.filter fun o => bucket hash 100 o = 7).map changedRow

/-! ## The statements -/

/-- `_INSERT_SQL`. -/
def insertBatch (hash : Int → Int) (orders : List Order) : List Order :=
  orders ++ (orders.filter fun o => bucket hash 30 o = 0).map fun o =>
    { o with
      orderkey := o.orderkey + maxKeyPlus 200000 orders
      orderstatus := some "N".toList }

/-- `_UPDATE_SQL`. -/
def update1pct (hash : Int → Int) (orders : List Order) : List Order :=
  updateWhere (fun o => bucket hash 100 o = 3)
    (fun o => { o with orderstatus := some "P".toList }) orders

/-- `_DELETE_SQL`. -/
def delete1pct (hash : Int → Int) (orders : List Order) : List Order :=
  deleteWhere (fun o => bucket hash 100 o = 17) orders

section Merge
variable (column : PriceColumn)

/-- `WHEN MATCHED AND s._op = 'U' THEN UPDATE SET`. -/
def whenMatched (s : FeedRow) (t : Order) : Order :=
  if s.op = .U then
    { t with orderstatus := s.orderstatus, totalprice := s.totalprice.bind column.store }
  else t

/-- `WHEN NOT MATCHED AND s._op = 'I' THEN INSERT`. -/
def whenNotMatched (s : FeedRow) : Option Order :=
  if s.op = .I then some (s.toOrderRow.mapPrice (·.bind column.store)) else none

/-- The clause of the merge that takes the feed row writes a price out of range. -/
def OutOfRange (orders : List Order) (s : FeedRow) : Prop :=
  (s.op = .U ↔ s.orderkey ∈ orders.map (·.orderkey)) ∧ s.totalprice.any (column.store · = none)

instance (orders : List Order) (s : FeedRow) : Decidable (OutOfRange column orders s) :=
  inferInstanceAs (Decidable (_ ∧ _))

/-- `_SPARK_MERGE_SQL`; `none` is the error of a row that matches twice. A price
out of range fails the statement as well, and the table stays as it is. -/
def mergeCdc (feed : List FeedRow) (orders : List Order) : Option (List Order) :=
  (mergeInto OrderRow.orderkey (fun s : FeedRow => s.orderkey) (whenMatched column)
    (whenNotMatched column) feed orders).map fun after =>
      if ∃ s ∈ feed, OutOfRange column orders s then orders else after

/-- The measured steps of `WORKLOAD`. -/
inductive Step
  | insertBatch | update1pct | delete1pct | mergeCdc
  deriving DecidableEq

def Step.exec (hash : Int → Int) (feed : List FeedRow) (orders : List Order) :
    Step → Option (List Order)
  | .insertBatch => some (Crud.insertBatch hash orders)
  | .update1pct => some (Crud.update1pct hash orders)
  | .delete1pct => some (Crud.delete1pct hash orders)
  | .mergeCdc => Crud.mergeCdc column feed orders

/-- A run of the steps, on the feed that the setup left. -/
def run (hash : Int → Int) (feed : List FeedRow) (steps : List Step) (orders : List Order) :
    Option (List Order) := steps.foldlM (Step.exec column hash feed) orders

end Merge

/-! ## Keys -/

/-- The keys of `orders`: its own for each row, and positive. -/
structure Keyed (orders : List Order) : Prop where
  unique : UniqueKey OrderRow.orderkey orders
  positive : ∀ o ∈ orders, 0 < o.orderkey

/-- What is asked of the keys of the feed. -/
structure FeedKeyed (feed : List FeedRow) : Prop where
  unique : UniqueKey (fun s : FeedRow => s.orderkey) feed
  positive : ∀ s ∈ feed, 0 < s.orderkey

/-- A shifted key is beyond every key of the table it was shifted by. -/
theorem lt_shifted {orders : List Order} (h : Keyed orders) {offset : Int} (hoffset : 0 ≤ offset)
    {o o' : Order} (ho : o ∈ orders) (ho' : o' ∈ orders) :
    o.orderkey < o'.orderkey + maxKeyPlus offset orders := by
  have hmem : o.orderkey ∈ orders.map (·.orderkey) := List.mem_map_of_mem ho
  obtain ⟨m, hm⟩ := Option.isSome_iff_exists.mp (List.isSome_max?_of_mem hmem)
  have hle : o.orderkey ≤ m := (List.max?_eq_some_iff.mp hm).2 _ hmem
  have hpos := h.positive o' ho'
  rw [maxKeyPlus, hm, Option.getD_some]
  omega

theorem add_injective (c : Int) : Function.Injective fun k : Int => k + c :=
  fun a b h => by simpa using h

/-- The feed's new keys are beyond the maximum, its other keys are the table's. -/
theorem cdcFeed_keyed (hash : Int → Int) {orders : List Order} (h : Keyed orders) :
    FeedKeyed (cdcFeed hash orders) := by
  constructor
  · refine uniqueKey_append.mpr ⟨?_, ?_, ?_⟩
    · exact (h.unique.filter _).map (add_injective _) fun _ _ => rfl
    · exact (h.unique.filter _).map (g := id) Function.injective_id fun _ _ => rfl
    · intro a ha b hb
      obtain ⟨o, ho, rfl⟩ := List.mem_map.mp ha
      obtain ⟨o', ho', rfl⟩ := List.mem_map.mp hb
      exact (lt_shifted h (by decide) (List.mem_filter.mp ho').1 (List.mem_filter.mp ho).1).ne'
  · intro s hs
    rcases List.mem_append.mp hs with hs | hs
    · obtain ⟨o, ho, rfl⟩ := List.mem_map.mp hs
      have hmem := (List.mem_filter.mp ho).1
      exact (h.positive o hmem).trans (lt_shifted h (by decide) hmem hmem)
    · obtain ⟨o, ho, rfl⟩ := List.mem_map.mp hs
      exact h.positive o (List.mem_filter.mp ho).1

theorem Keyed.insertBatch (hash : Int → Int) {orders : List Order} (h : Keyed orders) :
    Keyed (insertBatch hash orders) := by
  constructor
  · refine uniqueKey_append.mpr ⟨h.unique, ?_, ?_⟩
    · exact (h.unique.filter _).map (add_injective _) fun _ _ => rfl
    · intro a ha b hb
      obtain ⟨o, ho, rfl⟩ := List.mem_map.mp hb
      exact (lt_shifted h (by decide) ha (List.mem_filter.mp ho).1).ne
  · intro o ho
    rcases List.mem_append.mp ho with ho | ho
    · exact h.positive o ho
    · obtain ⟨old, hold, rfl⟩ := List.mem_map.mp ho
      have hmem := (List.mem_filter.mp hold).1
      exact (h.positive old hmem).trans (lt_shifted h (by decide) hmem hmem)

theorem Keyed.update1pct (hash : Int → Int) {orders : List Order} (h : Keyed orders) :
    Keyed (update1pct hash orders) := by
  refine ⟨h.unique.updateWhere fun _ => rfl, fun o ho => ?_⟩
  obtain ⟨old, hold, rfl⟩ := mem_updateWhere.mp ho
  have hpos := h.positive old hold
  split <;> exact hpos

theorem Keyed.delete1pct (hash : Int → Int) {orders : List Order} (h : Keyed orders) :
    Keyed (delete1pct hash orders) :=
  ⟨h.unique.deleteWhere _, fun o ho => h.positive o (mem_of_mem_deleteWhere ho)⟩

section Merge
variable {column : PriceColumn} {feed : List FeedRow} {orders : List Order}

@[simp] theorem whenMatched_orderkey (s : FeedRow) (t : Order) :
    (whenMatched column s t).orderkey = t.orderkey := by
  unfold whenMatched
  split <;> rfl

theorem whenNotMatched_eq_some {s : FeedRow} {o : Order} :
    whenNotMatched column s = some o ↔ s.op = .I ∧ s.toOrderRow.mapPrice (·.bind column.store) = o := by
  rw [whenNotMatched, Option.ite_none_right_eq_some, Option.some.injEq]

/-- The table after a merge whose feed has unique keys, and that does not fail. -/
def merged (column : PriceColumn) (feed : List FeedRow) (orders : List Order) : List Order :=
  orders.map (mergedRow OrderRow.orderkey (fun s : FeedRow => s.orderkey) (whenMatched column) feed) ++
    (unmatched OrderRow.orderkey (fun s : FeedRow => s.orderkey) feed orders).filterMap
      (whenNotMatched column)

theorem mergeCdc_eq (hfeed : FeedKeyed feed) (orders : List Order) :
    mergeCdc column feed orders = some
      (if ∃ s ∈ feed, OutOfRange column orders s then orders else merged column feed orders) := by
  rw [mergeCdc, mergeInto_eq hfeed.unique orders]
  rfl

theorem Keyed.merged (hfeed : FeedKeyed feed) (h : Keyed orders) : Keyed (merged column feed orders) := by
  constructor
  · refine uniqueKey_merge whenMatched_orderkey (fun s o hs => ?_) hfeed.unique h.unique
    rw [← (whenNotMatched_eq_some.mp hs).2]
    rfl
  · intro o ho
    rcases List.mem_append.mp ho with ho | ho
    · obtain ⟨old, hold, rfl⟩ := List.mem_map.mp ho
      rw [key_mergedRow whenMatched_orderkey]
      exact h.positive old hold
    · obtain ⟨s, hs, ho⟩ := List.mem_filterMap.mp ho
      obtain ⟨-, rfl⟩ := whenNotMatched_eq_some.mp ho
      exact hfeed.positive s (mem_unmatched.mp hs).1

theorem Keyed.mergeCdc (hfeed : FeedKeyed feed) (h : Keyed orders) :
    ∃ after, mergeCdc column feed orders = some after ∧ Keyed after := by
  refine ⟨_, mergeCdc_eq hfeed orders, ?_⟩
  split
  · exact h
  · exact h.merged hfeed

/-- One step of any kind. -/
theorem Step.exec_keyed (hash : Int → Int) (hfeed : FeedKeyed feed) (h : Keyed orders)
    (step : Step) : ∃ after, step.exec column hash feed orders = some after ∧ Keyed after := by
  cases step with
  | insertBatch => exact ⟨_, rfl, h.insertBatch hash⟩
  | update1pct => exact ⟨_, rfl, h.update1pct hash⟩
  | delete1pct => exact ⟨_, rfl, h.delete1pct hash⟩
  | mergeCdc => exact h.mergeCdc hfeed

theorem run_keyed (hash : Int → Int) (hfeed : FeedKeyed feed) (h : Keyed orders)
    (steps : List Step) : ∃ after, run column hash feed steps orders = some after ∧ Keyed after := by
  induction steps generalizing orders with
  | nil => exact ⟨orders, rfl, h⟩
  | cons step rest ih =>
    obtain ⟨next, hnext, hkeyed⟩ := step.exec_keyed hash hfeed h
    obtain ⟨after, hafter, hkeyed'⟩ := ih hkeyed
    refine ⟨after, ?_, hkeyed'⟩
    rw [run, List.foldlM_cons, hnext]
    exact hafter

end Merge

/-- **The keys stay unique** and positive over any run of the steps, and in each
state that a run reaches a merge matches at most one feed row a row. -/
theorem keys_stay_unique (column : PriceColumn) (hash : Int → Int) {orders : List Order}
    (h : Keyed orders) (steps : List Step) :
    ∃ after, run column hash (cdcFeed hash orders) steps orders = some after ∧ Keyed after ∧
      AtMostOne OrderRow.orderkey (fun s : FeedRow => s.orderkey) (cdcFeed hash orders) after := by
  have hfeed := cdcFeed_keyed hash h
  obtain ⟨after, hafter, hkeyed⟩ := run_keyed hash hfeed h steps
  exact ⟨after, hafter, hkeyed, atMostOne hfeed.unique after⟩

/-! ## A column that rounds -/

theorem floor_cents (n : Nat) : ⌊(n : ℚ) + 1 / 2⌋ = n := by
  rw [Int.floor_eq_iff]
  constructor <;> push_cast <;> linarith

/-- A column that stores the next cent, halves away from zero. -/
def halfUp : PriceColumn where
  store x :=
    let cents : Int := (if x < 0 then -1 else 1) * ⌊|x| * 100 + 1 / 2⌋
    if h : cents.natAbs < 10 ^ 15 then some ⟨cents, h⟩ else none
  store_value p := by
    have scaled : |p.value| * 100 = (p.cents.natAbs : ℚ) := by
      rw [Price.value, abs_div, Nat.cast_natAbs, Int.cast_abs, abs_of_pos (show (0 : ℚ) < 100 by norm_num)]
      exact div_mul_cancel₀ _ (by norm_num)
    have negative : p.value < 0 ↔ p.cents < 0 := by
      rw [Price.value, div_lt_iff₀ (by norm_num), zero_mul, Int.cast_lt_zero]
    have sign : (if p.value < 0 then -1 else 1) * (p.cents.natAbs : Int) = p.cents := by
      simp only [negative]
      split <;> omega
    have fits := p.fits
    simp only [scaled, floor_cents, sign, fits, dite_true]

/-- The price of the new row for an order at 100.01. -/
example : (halfUp.store (10001 / 100 * (105 / 100))).map Price.cents = some 10501 := by
  decide +kernel

/-- An order with nothing known of it but its key. -/
def bareOrder (orderkey : Int) : Order :=
  ⟨orderkey, none, none, none, none, none, none, none, none⟩

theorem keys_stay_unique_two : ∃ after,
    run halfUp (fun k => k) (cdcFeed (fun k => k) [bareOrder 7, bareOrder 500])
      [.mergeCdc, .insertBatch, .mergeCdc, .delete1pct, .update1pct, .insertBatch]
      [bareOrder 7, bareOrder 500] = some after ∧ Keyed after ∧
        AtMostOne OrderRow.orderkey (fun s : FeedRow => s.orderkey)
          (cdcFeed (fun k => k) [bareOrder 7, bareOrder 500]) after := by
  have keyed : Keyed [bareOrder 7, bareOrder 500] :=
    ⟨show List.Nodup [(7 : Int), 500] by decide, by decide⟩
  exact keys_stay_unique halfUp _ keyed _

end DeltaForgeBench.Workloads.Crud
