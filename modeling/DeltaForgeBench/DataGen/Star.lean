import DeltaForgeBench.DataGen.SsbDelta

/-! # The star keeps the facts

Every join of the derivation and of the queries runs from a row to a key that
is unique and present. So the fact table has one row for each line item, and
the join with the dimensions has one row for each fact. -/
namespace DeltaForgeBench.DataGen.Star
open DeltaForgeBench.Base.Text
open DeltaForgeBench.Base.Calendar DeltaForgeBench.Base.Joins DeltaForgeBench.DataGen.SsbDelta

/-! ## The source's constraints -/

/-- Primary keys are unique, foreign keys hold, and orders are of the years
that the date dimension covers. -/
structure Wellformed (db : Tpch) : Prop where
  orders_key : (db.orders.map (·.orderkey)).Nodup
  partsupp_key : (db.partsupp.map fun ps => (ps.partkey, ps.suppkey)).Nodup
  part_key : (db.part.map (·.partkey)).Nodup
  supplier_key : (db.supplier.map (·.suppkey)).Nodup
  customer_key : (db.customer.map (·.custkey)).Nodup
  nation_key : (db.nation.map (·.nationkey)).Nodup
  region_key : (db.region.map (·.regionkey)).Nodup
  lineitem_orders : ∀ l ∈ db.lineitem, l.orderkey ∈ db.orders.map (·.orderkey)
  lineitem_partsupp : ∀ l ∈ db.lineitem,
    (l.partkey, l.suppkey) ∈ db.partsupp.map fun ps => (ps.partkey, ps.suppkey)
  partsupp_part : ∀ ps ∈ db.partsupp, ps.partkey ∈ db.part.map (·.partkey)
  partsupp_supplier : ∀ ps ∈ db.partsupp, ps.suppkey ∈ db.supplier.map (·.suppkey)
  orders_customer : ∀ o ∈ db.orders, o.custkey ∈ db.customer.map (·.custkey)
  supplier_nation : ∀ s ∈ db.supplier, s.nationkey ∈ db.nation.map (·.nationkey)
  customer_nation : ∀ c ∈ db.customer, c.nationkey ∈ db.nation.map (·.nationkey)
  nation_region : ∀ n ∈ db.nation, n.regionkey ∈ db.region.map (·.regionkey)
  orderdate : ∀ o ∈ db.orders, 1992 ≤ o.orderdate.year ∧ o.orderdate.year ≤ 1998

/-! ## The derivation -/

section Derivation
variable {db : Tpch} (h : Wellformed db)
include h

/-- Chained joins with nation and region go through the rows once. -/
theorem map_nation_region {α : Type} {rows : List α} {nationkey : α → Int}
    (hfk : ∀ a ∈ rows, nationkey a ∈ db.nation.map (·.nationkey)) :
    (innerJoin (fun an r => an.2.regionkey = r.regionkey)
      (innerJoin (fun a n => nationkey a = n.nationkey) rows db.nation) db.region).map
        (fun anr => anr.1.1) = rows := by
  have hnation : (innerJoin (fun a n => nationkey a = n.nationkey) rows db.nation).map Prod.fst =
      rows := map_fst_innerJoin fun a ha => onePartner_of_key h.nation_key (hfk a ha)
  have hregion : (innerJoin (fun an r => an.2.regionkey = r.regionkey)
      (innerJoin (fun a n => nationkey a = n.nationkey) rows db.nation) db.region).map Prod.fst =
      innerJoin (fun a n => nationkey a = n.nationkey) rows db.nation :=
    map_fst_innerJoin fun an han =>
      onePartner_of_key h.region_key (h.nation_region _ (mem_innerJoin.mp han).2.1)
  have hcompose := congrArg (List.map Prod.fst) hregion
  rw [List.map_map, hnation] at hcompose
  exact hcompose

theorem supplier_keys : (supplier db).map (·.suppkey) = db.supplier.map (·.suppkey) := by
  have hrows := congrArg (List.map (·.suppkey)) (map_nation_region h h.supplier_nation)
  rw [List.map_map] at hrows
  rw [supplier, List.map_map]
  exact hrows

theorem customer_keys : (customer db).map (·.custkey) = db.customer.map (·.custkey) := by
  have hrows := congrArg (List.map (·.custkey)) (map_nation_region h h.customer_nation)
  rw [List.map_map] at hrows
  rw [customer, List.map_map]
  exact hrows

omit h in
theorem part_keys : (part db).map (·.partkey) = db.part.map (·.partkey) := by
  rw [part, List.map_map]
  rfl

/-- The fact row of a line item, made with its order and its supply. -/
def FromLineitem (db : Tpch) (l : Lineitem) (lo : Lineorder) : Prop :=
  ∃ o ∈ db.orders, ∃ ps ∈ db.partsupp, l.orderkey = o.orderkey ∧
    (l.partkey = ps.partkey ∧ l.suppkey = ps.suppkey) ∧ lo = lineorderRow l o ps

omit h in
theorem fromLineitem_of_mem {lops : (Lineitem × Order) × Partsupp}
    (hmem : lops ∈ lineorderFrom db) :
    FromLineitem db lops.1.1 (lineorderRow lops.1.1 lops.1.2 lops.2) := by
  obtain ⟨hlo, hps, hon⟩ := mem_innerJoin.mp hmem
  obtain ⟨-, ho, hkey⟩ := mem_innerJoin.mp hlo
  exact ⟨_, ho, _, hps, of_decide_eq_true hkey, of_decide_eq_true hon, rfl⟩

/-- The joins of the derivation go through the line items once. -/
theorem map_lineorderFrom : (lineorderFrom db).map (fun lops => lops.1.1) = db.lineitem := by
  have horders : (innerJoin (fun l o => l.orderkey = o.orderkey) db.lineitem db.orders).map
      Prod.fst = db.lineitem :=
    map_fst_innerJoin fun l hl => onePartner_of_key h.orders_key (h.lineitem_orders l hl)
  have hpartsupp : (lineorderFrom db).map Prod.fst =
      innerJoin (fun l o => l.orderkey = o.orderkey) db.lineitem db.orders := by
    refine map_fst_innerJoin fun lo hlo => ?_
    have hkey := h.lineitem_partsupp lo.1 (mem_innerJoin.mp hlo).1
    refine (onePartner_of_key h.partsupp_key hkey).congr fun ps _ => ?_
    simp only [Prod.mk.injEq]
  have hrows := congrArg (List.map Prod.fst) hpartsupp
  rw [List.map_map, horders] at hrows
  exact hrows

theorem lineorder_forall₂ : List.Forall₂ (FromLineitem db) db.lineitem (lineorder db) :=
  forall₂_map_of_map_eq (map_lineorderFrom h) fun _ hmem => fromLineitem_of_mem hmem

end Derivation

/-! ## The star -/

/-- A fact beside its row of each dimension. -/
abbrev StarRow := (((DateRow × Customer) × Supplier) × Part) × Lineorder

/-- The join conditions that the queries share. -/
def starOn (row : StarRow) : Bool :=
  let ((((d, c), s), p), lo) := row
  lo.custkey = c.custkey ∧ lo.suppkey = s.suppkey ∧ lo.partkey = p.partkey ∧
    lo.orderdate = d.datekey

/-- `FROM date, customer, supplier, part, lineorder` under those conditions. -/
def starJoin (db : Tpch) : List StarRow :=
  ((((date ×ˢ customer db) ×ˢ supplier db) ×ˢ part db) ×ˢ lineorder db).filter starOn

theorem daysBeforeYear_mono : Monotone daysBeforeYear := start_mono fun _ => rfl

/-- The date dimension goes through the years from 1992 to 1998. -/
theorem mem_days {d : Date} (hyear : 1992 ≤ d.year ∧ d.year ≤ 1998) :
    d ∈ Date.sequence firstDay lastDay := by
  have hjanuary : firstDay.dayOfYear = 1 := rfl
  have hdecember : lastDay.dayOfYear = daysInYear 1998 := rfl
  have hfirst : firstDay.ordinal = daysBeforeYear firstDay.year + 1 := by
    rw [Date.ordinal, hjanuary]
  have hlast := Date.ordinal_of_last hdecember
  have hlow : daysBeforeYear firstDay.year ≤ daysBeforeYear d.year := daysBeforeYear_mono hyear.1
  have hhigh : daysBeforeYear (d.year + 1) ≤ daysBeforeYear (lastDay.year + 1) :=
    daysBeforeYear_mono (Nat.succ_le_succ hyear.2)
  have hbounds := d.ordinal_bounds
  rw [Date.mem_sequence, hfirst, hlast]
  omega

theorem onePartner_date {d : Date} (hyear : 1992 ≤ d.year ∧ d.year ≤ 1998) :
    OnePartner (fun row : DateRow => dateKey d = row.datekey) date := by
  have hkeys : date.map (·.datekey) = (Date.sequence firstDay lastDay).map dateKey := by
    rw [date, List.map_map]
    rfl
  refine onePartner_of_key ?_ ?_
  · rw [hkeys]
    exact (Date.nodup_sequence firstDay lastDay).map dateKey_injective
  · rw [hkeys]
    exact List.mem_map_of_mem (mem_days hyear)

/-- **One row for each line item**: in the fact table, which keeps their order,
and in the join of the facts with the dimensions. -/
theorem star_keeps_facts {db : Tpch} (h : Wellformed db) :
    List.Forall₂ (FromLineitem db) db.lineitem (lineorder db) ∧
      ((starJoin db).map Prod.snd).Perm (lineorder db) := by
  refine ⟨lineorder_forall₂ h, facts_of_onePartner fun lo hlo => ?_⟩
  obtain ⟨lops, hmem, rfl⟩ := List.mem_map.mp hlo
  obtain ⟨o, ho, ps, hps, -, ⟨hpart, hsupp⟩, heq⟩ := fromLineitem_of_mem hmem
  rw [heq]
  have hcustomer : OnePartner (fun c => o.custkey = c.custkey) (customer db) :=
    onePartner_of_key ((customer_keys h).symm ▸ h.customer_key)
      ((customer_keys h).symm ▸ h.orders_customer o ho)
  have hsupplier : OnePartner (fun s => ps.suppkey = s.suppkey) (supplier db) :=
    onePartner_of_key ((supplier_keys h).symm ▸ h.supplier_key)
      ((supplier_keys h).symm ▸ h.partsupp_supplier ps hps)
  have hparts : OnePartner (fun p => ps.partkey = p.partkey) (part db) :=
    onePartner_of_key (part_keys.symm ▸ h.part_key) (part_keys.symm ▸ h.partsupp_part ps hps)
  have hdate := onePartner_date (h.orderdate o ho)
  refine (((hdate.product hcustomer).product hsupplier).product hparts).congr ?_
  intro dims _
  obtain ⟨⟨⟨d, c⟩, s⟩, p⟩ := dims
  simp only [starOn, lineorderRow, hpart, hsupp, Bool.decide_and]
  grind

/-- One line item, with one row in each table around it. -/
def oneLine (day : Date) (nation region type mfgr brand : Str) (quantity discount : ℚ) : Tpch where
  lineitem := [⟨1, 1, 1, 1, quantity, 100, discount, 0, day, []⟩]
  orders := [⟨1, 1, day, [], 0⟩]
  partsupp := [⟨1, 1, 10⟩]
  part := [⟨1, [], mfgr, brand, type, 1, []⟩]
  supplier := [⟨1, [], [], 1, []⟩]
  customer := [⟨1, [], [], 1, [], []⟩]
  nation := [⟨1, nation, 1⟩]
  region := [⟨1, region⟩]

theorem oneLine_wellformed {day : Date} (hyear : 1992 ≤ day.year ∧ day.year ≤ 1998)
    (nation region type mfgr brand : Str) (quantity discount : ℚ) :
    Wellformed (oneLine day nation region type mfgr brand quantity discount) := by
  constructor <;> simp [oneLine, hyear]

/-- Two orders with three line items, of two parts that two suppliers from different
regions both supply. -/
def twoSuppliers : Tpch where
  lineitem :=
    [⟨1, 1, 1, 1, 17, 100, 0.04, 0.02, lastDay, "MAIL".toList⟩,
     ⟨1, 2, 1, 2, 36, 250, 0.09, 0.06, lastDay, "AIR".toList⟩,
     ⟨2, 1, 2, 2, 8, 80, 0, 0.05, firstDay, "MAIL".toList⟩]
  orders := [⟨1, 1, lastDay, "5-LOW".toList, 0⟩, ⟨2, 2, firstDay, "1-URGENT".toList, 0⟩]
  partsupp := [⟨1, 1, 10⟩, ⟨1, 2, 12⟩, ⟨2, 1, 3⟩, ⟨2, 2, 4⟩]
  part := [⟨1, [], [], [], [], 7, []⟩, ⟨2, [], [], [], [], 1, []⟩]
  supplier := [⟨1, [], [], 17, []⟩, ⟨2, [], [], 5, []⟩]
  customer := [⟨1, [], [], 5, [], []⟩, ⟨2, [], [], 17, [], []⟩]
  nation := [⟨5, "ETHIOPIA".toList, 0⟩, ⟨17, "PERU".toList, 1⟩]
  region := [⟨0, "AFRICA".toList⟩, ⟨1, "AMERICA".toList⟩]

theorem twoSuppliers_wellformed : Wellformed twoSuppliers := by
  constructor <;> simp [twoSuppliers, firstDay, lastDay, Date.newYear]

theorem star_keeps_facts_twoSuppliers :
    List.Forall₂ (FromLineitem twoSuppliers) twoSuppliers.lineitem (lineorder twoSuppliers) ∧
      ((starJoin twoSuppliers).map Prod.snd).Perm (lineorder twoSuppliers) :=
  star_keeps_facts twoSuppliers_wellformed

end DeltaForgeBench.DataGen.Star
