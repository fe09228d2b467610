import DeltaForgeBench.Workloads.Crud

/-! # The first merge of the feed

The feed's new keys were drawn from the maximum that `orders` had at setup, and
`insert_batch` draws its own from the maximum it finds. The two ranges overlap,
and a feed row whose key was taken counts as matched: nothing is inserted. A new
row's price is a product with four decimals, of which the column stores two. -/
namespace DeltaForgeBench.Workloads.CdcMerge
open DeltaForgeBench.Base.Text DeltaForgeBench.Base.Tables DeltaForgeBench.Workloads.Crud

/-! ## The promise -/

/-- The steps before the first merge, each any number of times. -/
def beforeMerge (a b c : Nat) : List Step :=
  List.replicate a .insertBatch ++ List.replicate b .update1pct ++ List.replicate c .delete1pct

/-- Every new row of the feed is in the table with all its values, and every
changed row that is still there has the feed's status and price. -/
def Applied (feed : List FeedRow) (after : List Order) : Prop :=
  (∀ s ∈ feed, s.op = .I → ∃ o ∈ after, exact o = s.toOrderRow) ∧
    ∀ s ∈ feed, s.op = .U → ∀ o ∈ after, o.orderkey = s.orderkey →
      o.orderstatus = s.orderstatus ∧ o.totalprice.map Price.value = s.totalprice

/-- No row of the table carries the key of a new row of the feed. -/
def KeysFree (feed : List FeedRow) (before : List Order) : Prop :=
  ∀ s ∈ feed, s.op = .I → ∀ o ∈ before, o.orderkey ≠ s.orderkey

/-- The column can hold 1.05 times the price of every order in the feed's bucket. -/
def PricesFit (hash : Int → Int) (orders : List Order) : Prop :=
  ∀ o ∈ orders, bucket hash 500 o = 0 → ∀ p ∈ o.totalprice, ∃ q : Price,
    q.value = p.value * (105 / 100)

/-! ## Where a row comes from -/

/-- A row with a key of the setup's table, or one that `insert_batch` added. -/
def Sourced (orders : List Order) (o : Order) : Prop :=
  (∃ old ∈ orders, o.orderkey = old.orderkey) ∨
    o.orderstatus = some "N".toList ∨ o.orderstatus = some "P".toList

theorem Step.exec_sourced (column : PriceColumn) (hash : Int → Int) (feed : List FeedRow)
    {orders before : List Order}
    (h : ∀ o ∈ before, Sourced orders o) {step : Step} (hstep : step ≠ .mergeCdc)
    {after : List Order} (hexec : step.exec column hash feed before = some after) :
    ∀ o ∈ after, Sourced orders o := by
  intro o ho
  cases step with
  | insertBatch =>
    obtain rfl := Option.some.inj hexec
    rcases List.mem_append.mp ho with ho | ho
    · exact h o ho
    · obtain ⟨old, -, rfl⟩ := List.mem_map.mp ho
      exact .inr (.inl rfl)
  | update1pct =>
    obtain rfl := Option.some.inj hexec
    obtain ⟨old, hold, rfl⟩ := mem_updateWhere.mp ho
    split
    · exact .inr (.inr rfl)
    · exact h old hold
  | delete1pct =>
    obtain rfl := Option.some.inj hexec
    exact h o (mem_of_mem_deleteWhere ho)
  | mergeCdc => exact absurd rfl hstep

theorem run_sourced (column : PriceColumn) (hash : Int → Int) (feed : List FeedRow)
    {orders before : List Order}
    (h : ∀ o ∈ before, Sourced orders o) {steps : List Step} (hsteps : .mergeCdc ∉ steps)
    {after : List Order} (hrun : run column hash feed steps before = some after) :
    ∀ o ∈ after, Sourced orders o := by
  induction steps generalizing before with
  | nil =>
    obtain rfl := Option.some.inj hrun
    exact h
  | cons step rest ih =>
    rw [run, List.foldlM_cons] at hrun
    obtain ⟨next, hnext, hrest⟩ := Option.bind_eq_some_iff.mp hrun
    have hhead : step ≠ .mergeCdc := fun heq => hsteps (heq ▸ List.mem_cons_self ..)
    have htail : .mergeCdc ∉ rest := fun hmem => hsteps (List.mem_cons_of_mem _ hmem)
    exact ih (Step.exec_sourced column hash feed h hhead hnext) htail hrest

theorem mergeCdc_not_mem_beforeMerge (a b c : Nat) : Step.mergeCdc ∉ beforeMerge a b c := by
  simp [beforeMerge, List.mem_replicate]

/-! ## The rows of the feed -/

section Feed
variable {hash : Int → Int} {orders : List Order}

theorem cdcFeed_new {s : FeedRow} (hs : s ∈ cdcFeed hash orders) (hop : s.op = .I) :
    ∃ o ∈ orders, bucket hash 500 o = 0 ∧ s = newRow orders o := by
  rcases List.mem_append.mp hs with hs | hs
  · obtain ⟨o, ho, rfl⟩ := List.mem_map.mp hs
    obtain ⟨hmem, hbucket⟩ := List.mem_filter.mp ho
    exact ⟨o, hmem, of_decide_eq_true hbucket, rfl⟩
  · obtain ⟨o, -, rfl⟩ := List.mem_map.mp hs
    cases hop

theorem newRow_mem_cdcFeed {o : Order} (ho : o ∈ orders) (hbucket : bucket hash 500 o = 0) :
    newRow orders o ∈ cdcFeed hash orders :=
  List.mem_append_left _ (List.mem_map_of_mem (List.mem_filter.mpr ⟨ho, decide_eq_true hbucket⟩))

/-- A row of the setup's table or of an insertion is no new row of the feed. -/
theorem new_ne_sourced (h : Keyed orders) {s : FeedRow} (hs : s ∈ cdcFeed hash orders)
    (hop : s.op = .I) {o : Order} (ho : Sourced orders o) : exact o ≠ s.toOrderRow := by
  obtain ⟨old, hold, -, rfl⟩ := cdcFeed_new hs hop
  intro hsame
  have hkey : o.orderkey = old.orderkey + maxKeyPlus 100000 orders := congrArg OrderRow.orderkey hsame
  have hstatus : o.orderstatus = some "F".toList := congrArg OrderRow.orderstatus hsame
  rcases ho with ⟨old', hold', heq⟩ | hN | hP
  · exact absurd (heq.symm.trans hkey) (lt_shifted h (by decide) hold' hold).ne
  · exact absurd (hstatus.symm.trans hN) (by decide)
  · exact absurd (hstatus.symm.trans hP) (by decide)

/-- The column stores every price of the feed as it is. -/
theorem stored {column : PriceColumn} (hfit : PricesFit hash orders) {s : FeedRow}
    (hs : s ∈ cdcFeed hash orders) :
    ∀ x ∈ s.totalprice, ∃ q : Price, q.value = x ∧ column.store x = some q := by
  have known : ∀ {x : ℚ} {q : Price}, q.value = x → column.store x = some q := fun hq =>
    hq ▸ column.store_value _
  rcases List.mem_append.mp hs with hs | hs
  · obtain ⟨o, ho, rfl⟩ := List.mem_map.mp hs
    obtain ⟨hmem, hbucket⟩ := List.mem_filter.mp ho
    intro x hx
    obtain ⟨p, hp, rfl⟩ := Option.map_eq_some_iff.mp hx
    obtain ⟨q, hq⟩ := hfit o hmem (of_decide_eq_true hbucket) p hp
    exact ⟨q, hq, known hq⟩
  · obtain ⟨o, -, rfl⟩ := List.mem_map.mp hs
    intro x hx
    obtain ⟨p, -, rfl⟩ := Option.map_eq_some_iff.mp hx
    exact ⟨p, rfl, known rfl⟩

end Feed

/-! ## The merge -/

section Merge
variable {column : PriceColumn} {feed : List FeedRow} {before : List Order}

/-- A price that is stored as it is comes back. -/
theorem value_stored {price : Option ℚ}
    (h : ∀ x ∈ price, ∃ q : Price, q.value = x ∧ column.store x = some q) :
    (price.bind column.store).map Price.value = price := by
  cases price with
  | none => rfl
  | some x =>
    obtain ⟨q, hvalue, hstore⟩ := h x rfl
    rw [Option.bind_some, hstore, Option.map_some, hvalue]

theorem new_mem_merged {s : FeedRow} (hs : s ∈ feed) (hop : s.op = .I)
    (hfree : ∀ o ∈ before, o.orderkey ≠ s.orderkey) :
    s.toOrderRow.mapPrice (·.bind column.store) ∈ merged column feed before :=
  List.mem_append_right _ (List.mem_filterMap.mpr
    ⟨s, mem_unmatched.mpr ⟨hs, fun o ho => (hfree o ho).symm⟩,
      whenNotMatched_eq_some.mpr ⟨hop, rfl⟩⟩)

/-- A row whose key belongs to a new feed row is left as it is. -/
theorem taken_mem_merged (hfeed : FeedKeyed feed) {s : FeedRow} (hs : s ∈ feed) (hop : s.op = .I)
    {o : Order} (ho : o ∈ before) (hkey : o.orderkey = s.orderkey) : o ∈ merged column feed before := by
  refine List.mem_append_left _ (List.mem_map.mpr ⟨o, ho, ?_⟩)
  rcases mergedRow_cases OrderRow.orderkey (fun s : FeedRow => s.orderkey)
    (whenMatched column) feed o with ⟨heq, -⟩ | ⟨s', hs', hkey', heq⟩
  · exact heq
  · obtain rfl : s' = s := hfeed.unique.eq_of_key hs' hs (hkey'.trans hkey)
    rw [heq, whenMatched, hop]
    rfl

/-- A row with the key of a changed feed row has its status and price. -/
theorem changed_of_mem_merged (hfeed : FeedKeyed feed) {s : FeedRow} (hs : s ∈ feed)
    (hop : s.op = .U) {o : Order} (ho : o ∈ merged column feed before)
    (hkey : o.orderkey = s.orderkey) :
    o.orderstatus = s.orderstatus ∧ o.totalprice = s.totalprice.bind column.store := by
  rcases List.mem_append.mp ho with ho | ho
  · obtain ⟨old, -, rfl⟩ := List.mem_map.mp ho
    rw [key_mergedRow whenMatched_orderkey] at hkey
    rcases mergedRow_cases OrderRow.orderkey (fun s : FeedRow => s.orderkey)
      (whenMatched column) feed old with ⟨-, hnone⟩ | ⟨s', hs', hkey', heq⟩
    · exact absurd hkey.symm (hnone s hs)
    · obtain rfl : s' = s := hfeed.unique.eq_of_key hs' hs (hkey'.trans hkey)
      rw [heq, whenMatched, if_pos hop]
      exact ⟨rfl, rfl⟩
  · obtain ⟨s', hs', ho⟩ := List.mem_filterMap.mp ho
    obtain ⟨hop', rfl⟩ := whenNotMatched_eq_some.mp ho
    obtain rfl : s' = s := hfeed.unique.eq_of_key (mem_unmatched.mp hs').1 hs hkey
    rw [hop] at hop'
    cases hop'

end Merge

section Applied
variable {column : PriceColumn} {hash : Int → Int} {orders before after : List Order}

/-- A merge applies a feed to a table of sourced rows when its new keys are free
and its prices fit their column. -/
theorem applied_iff (h : Keyed orders) (hbefore : Keyed before)
    (hsourced : ∀ o ∈ before, Sourced orders o)
    (hmerge : mergeCdc column (cdcFeed hash orders) before = some after) :
    Applied (cdcFeed hash orders) after ↔
      KeysFree (cdcFeed hash orders) before ∧ PricesFit hash orders := by
  have hfeed := cdcFeed_keyed hash h
  rw [mergeCdc_eq hfeed] at hmerge
  constructor
  · intro happlied
    constructor
    · intro s hs hop o ho hkey
      obtain ⟨new, hnew, hsame⟩ := happlied.1 s hs hop
      have foreign : ¬ Sourced orders new := fun hnew => new_ne_sourced h hs hop hnew hsame
      split at hmerge <;> obtain rfl := Option.some.inj hmerge
      · exact foreign (hsourced new hnew)
      · have there : o ∈ merged column (cdcFeed hash orders) before :=
          taken_mem_merged hfeed hs hop ho hkey
        have hkeys : new.orderkey = o.orderkey :=
          (congrArg OrderRow.orderkey hsame).trans hkey.symm
        obtain rfl := (hbefore.merged hfeed).unique.eq_of_key hnew there hkeys
        exact foreign (hsourced new ho)
    · intro o ho hbucket p hp
      obtain ⟨new, -, hsame⟩ := happlied.1 _ (newRow_mem_cdcFeed ho hbucket) rfl
      have hprice : new.totalprice.map Price.value = o.totalprice.map (·.value * (105 / 100)) :=
        congrArg OrderRow.totalprice hsame
      rw [Option.mem_def.mp hp] at hprice
      obtain ⟨q, -, hq⟩ := Option.map_eq_some_iff.mp hprice
      exact ⟨q, hq⟩
  · rintro ⟨hfree, hfit⟩
    have inRange : ¬ ∃ s ∈ cdcFeed hash orders, OutOfRange column before s := by
      rintro ⟨s, hs, -, hout⟩
      cases hprice : s.totalprice with
      | none =>
        rw [hprice] at hout
        cases hout
      | some x =>
        obtain ⟨q, -, hq⟩ : ∃ q : Price, q.value = x ∧ column.store x = some q :=
          stored hfit hs x hprice
        simp [hprice, hq] at hout
    rw [if_neg inRange] at hmerge
    obtain rfl := Option.some.inj hmerge
    constructor
    · intro s hs hop
      refine ⟨_, new_mem_merged hs hop (hfree s hs hop), ?_⟩
      show (s.toOrderRow.mapPrice (·.bind column.store)).mapPrice (·.map Price.value) = s.toOrderRow
      have hprice : (s.totalprice.bind column.store).map Price.value = s.totalprice :=
        value_stored (stored hfit hs)
      rw [OrderRow.mapPrice, OrderRow.mapPrice, hprice]
    · intro s hs hop o ho hkey
      obtain ⟨hstatus, hprice⟩ := changed_of_mem_merged hfeed hs hop ho hkey
      exact ⟨hstatus, by rw [hprice]; exact value_stored (stored hfit hs)⟩

end Applied

theorem run_snoc {column : PriceColumn} {hash : Int → Int} {feed : List FeedRow}
    {steps : List Step} {orders before : List Order} (step : Step)
    (h : run column hash feed steps orders = some before) :
    run column hash feed (steps ++ [step]) orders = step.exec column hash feed before := by
  rw [run] at h
  rw [run, List.foldlM_append, h]
  simp

/-- **The first merge applies the whole feed** exactly when no row that is there
right before it carries the key of a new row of the feed, and the price column
can hold the price of each new row. -/
theorem feed_applied_iff (column : PriceColumn) (hash : Int → Int) {orders : List Order}
    (h : Keyed orders) (a b c : Nat) :
    ∃ before after,
      run column hash (cdcFeed hash orders) (beforeMerge a b c) orders = some before ∧
      run column hash (cdcFeed hash orders) (beforeMerge a b c ++ [.mergeCdc]) orders =
        some after ∧
      (Applied (cdcFeed hash orders) after ↔
        KeysFree (cdcFeed hash orders) before ∧ PricesFit hash orders) := by
  have hfeed := cdcFeed_keyed hash h
  obtain ⟨before, hbefore, hkeyed⟩ := run_keyed hash hfeed h (beforeMerge a b c)
  obtain ⟨after, hafter, -⟩ := hkeyed.mergeCdc hfeed
  have hsourced := run_sourced column hash (cdcFeed hash orders)
    (fun o ho => .inl ⟨o, ho, rfl⟩) (mergeCdc_not_mem_beforeMerge a b c) hbefore
  refine ⟨before, after, hbefore, ?_, applied_iff h hkeyed hsourced hafter⟩
  rw [run_snoc .mergeCdc hbefore]
  exact hafter

/-! ## A feed row that is lost -/

/-- Two orders whose keys differ by the difference of the two offsets. -/
def twoOrders : List Order := [bareOrder 1, bareOrder 100001]

theorem twoOrders_keyed : Keyed twoOrders :=
  ⟨show List.Nodup [(1 : Int), 100001] by decide, by decide⟩

theorem feed_applied_iff_twoOrders : ∃ before after,
    run halfUp (fun _ => 0) (cdcFeed (fun _ => 0) twoOrders) (beforeMerge 1 1 1) twoOrders =
      some before ∧
    run halfUp (fun _ => 0) (cdcFeed (fun _ => 0) twoOrders) (beforeMerge 1 1 1 ++ [.mergeCdc])
      twoOrders = some after ∧
    (Applied (cdcFeed (fun _ => 0) twoOrders) after ↔
      KeysFree (cdcFeed (fun _ => 0) twoOrders) before ∧ PricesFit (fun _ => 0) twoOrders) :=
  feed_applied_iff halfUp _ twoOrders_keyed 1 1 1

/-- After one batch the first order's copy holds the key of the second one's
feed row, which the merge then drops. -/
theorem feed_row_lost : ¬ ∀ (column : PriceColumn) (hash : Int → Int) (orders : List Order),
    Keyed orders → ∀ a b c after,
      run column hash (cdcFeed hash orders) (beforeMerge a b c ++ [.mergeCdc]) orders =
        some after → Applied (cdcFeed hash orders) after := by
  intro h
  have hkeyed := twoOrders_keyed
  have hbatch : run halfUp (fun _ => 0) (cdcFeed (fun _ => 0) twoOrders) (beforeMerge 1 0 0)
      twoOrders = some (insertBatch (fun _ => 0) twoOrders) := rfl
  have hsourced := run_sourced _ _ _ (fun o ho => .inl ⟨o, ho, rfl⟩)
    (mergeCdc_not_mem_beforeMerge 1 0 0) hbatch
  obtain ⟨after, hafter, -⟩ : ∃ after, mergeCdc halfUp (cdcFeed (fun _ => 0) twoOrders)
      (insertBatch (fun _ => 0) twoOrders) = some after ∧ Keyed after :=
    (hkeyed.insertBatch _).mergeCdc (cdcFeed_keyed _ hkeyed)
  have happlied := h halfUp _ twoOrders hkeyed 1 0 0 after ((run_snoc .mergeCdc hbatch).trans hafter)
  have hfree := ((applied_iff hkeyed (hkeyed.insertBatch _) hsourced hafter).mp happlied).1
  have hcopy : { bareOrder 300002 with orderstatus := some "N".toList } ∈
      insertBatch (fun _ => 0) twoOrders := by decide
  exact hfree (newRow twoOrders (bareOrder 100001)) (by decide) rfl _ hcopy (by decide)

end DeltaForgeBench.Workloads.CdcMerge
