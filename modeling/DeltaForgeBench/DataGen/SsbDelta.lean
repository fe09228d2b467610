import DeltaForgeBench.Base.Calendar
import DeltaForgeBench.Base.Joins
import DeltaForgeBench.Base.Numeral

/-! # The star schema fixture

The five tables of the star schema, each derived by one statement from the
TPC-H tables: a fact table `lineorder` and the dimensions around it. -/
namespace DeltaForgeBench.DataGen.SsbDelta
open DeltaForgeBench.Base.Text DeltaForgeBench.Base.Numeral
open DeltaForgeBench.Base.Calendar DeltaForgeBench.Base.Joins

/-! ## The source -/

structure Lineitem where
  orderkey : Int
  linenumber : Int
  partkey : Int
  suppkey : Int
  quantity : ℚ
  extendedprice : ℚ
  discount : ℚ
  tax : ℚ
  commitdate : Date
  shipmode : Str

structure Order where
  orderkey : Int
  custkey : Int
  orderdate : Date
  orderpriority : Str
  shippriority : Int

structure Partsupp where
  partkey : Int
  suppkey : Int
  supplycost : ℚ

structure TpchPart where
  partkey : Int
  name : Str
  mfgr : Str
  brand : Str
  type : Str
  size : Int
  container : Str

structure TpchSupplier where
  suppkey : Int
  name : Str
  address : Str
  nationkey : Int
  phone : Str

structure TpchCustomer where
  custkey : Int
  name : Str
  address : Str
  nationkey : Int
  phone : Str
  mktsegment : Str

structure Nation where
  nationkey : Int
  name : Str
  regionkey : Int

structure Region where
  regionkey : Int
  name : Str

/-- The TPC-H tables, as far as the derivation reads them. -/
structure Tpch where
  lineitem : List Lineitem
  orders : List Order
  partsupp : List Partsupp
  part : List TpchPart
  supplier : List TpchSupplier
  customer : List TpchCustomer
  nation : List Nation
  region : List Region

/-! ## Dates as numbers and words -/

/-- The number in at least that many digits. -/
def padded (width n : Nat) : Str :=
  List.replicate (width - n.repr.toList.length) '0' ++ n.repr.toList

/-- `cast(date_format(d, 'yyyyMMdd') as int)`. -/
def dateKey (d : Date) : Int :=
  digitsValue (padded 4 d.year ++ padded 2 d.month ++ padded 2 d.day)

/-- `date_format(d, 'MMMM')`. -/
def monthName (d : Date) : Str :=
  (["January", "February", "March", "April", "May", "June", "July", "August", "September",
    "October", "November", "December"].getD (d.month - 1) "").toList

/-- `date_format(d, 'EEEE')`. -/
def dayName (d : Date) : Str :=
  (["Sunday", "Monday", "Tuesday", "Wednesday", "Thursday", "Friday", "Saturday"].getD
    (d.dayOfWeek - 1) "").toList

/-- `quarter(d)`. -/
def quarter (d : Date) : Nat := (d.month + 2) / 3

/-- `cast(condition as int)`. -/
def flag (b : Bool) : Int := if b then 1 else 0

/-! ## The dimensions -/

structure DateRow where
  datekey : Int
  date : Str
  dayofweek : Str
  month : Str
  year : Int
  yearmonthnum : Int
  yearmonth : Int
  daynuminyear : Int
  daynuminmonth : Int
  daynuminweek : Int
  weeknuminyear : Int
  sellingseason : Str
  lastdayinweekfl : Int
  lastdayinmonthfl : Int
  holidayfl : Int
  weekdayfl : Int

def dateRow (d : Date) : DateRow where
  datekey := dateKey d
  date := monthName d ++ " ".toList ++ d.day.repr.toList ++ ", ".toList ++ padded 4 d.year
  dayofweek := dayName d
  month := monthName d
  year := d.year
  yearmonthnum := d.year * 10 + quarter d
  yearmonth := d.year * 100 + d.month
  daynuminyear := d.dayOfYear
  daynuminmonth := d.day
  daynuminweek := d.weekOfYear
  weeknuminyear := d.weekOfYear
  sellingseason := "Spring".toList
  lastdayinweekfl := flag (d.dayOfWeek > 1 && d.dayOfWeek < 7)
  lastdayinmonthfl := flag (d.day = daysInMonth d.year d.month)
  holidayfl := flag (d.dayOfWeek = 1 || d.dayOfWeek = 7)
  weekdayfl := flag (d.dayOfWeek > 1 && d.dayOfWeek < 7)

/-- `date '1992-01-01'`. -/
def firstDay : Date := .newYear 1992

/-- `date '1998-12-31'`. -/
def lastDay : Date := ⟨1998, 12, 31, by decide, by decide⟩

/-- `_DDL["date"]`. -/
def date : List DateRow := (Date.sequence firstDay lastDay).map dateRow

structure Part where
  partkey : Int
  name : Str
  mfgr : Str
  category : Str
  brand : Str
  color : Str
  type : Str
  size : Int
  container : Str

/-- `_DDL["part"]`. -/
def part (db : Tpch) : List Part := db.part.map fun p =>
  { partkey := p.partkey
    name := p.name
    mfgr := p.mfgr
    category := (splitOnChar ' ' p.type).headD []
    brand := p.brand
    color := (splitOnChar ' ' p.type).getLastD []
    type := p.type
    size := p.size
    container := p.container }

structure Supplier where
  suppkey : Int
  name : Str
  address : Str
  city : Str
  nation : Str
  region : Str
  phone : Str

/-- `_DDL["supplier"]`. -/
def supplier (db : Tpch) : List Supplier :=
  (innerJoin (fun sn r => sn.2.regionkey = r.regionkey)
    (innerJoin (fun s n => s.nationkey = n.nationkey) db.supplier db.nation) db.region).map
  fun snr =>
    { suppkey := snr.1.1.suppkey
      name := snr.1.1.name
      address := snr.1.1.address
      city := snr.1.2.name.take 9
      nation := snr.1.2.name
      region := snr.2.name
      phone := snr.1.1.phone }

structure Customer where
  custkey : Int
  name : Str
  address : Str
  city : Str
  nation : Str
  region : Str
  phone : Str
  mktsegment : Str

/-- `_DDL["customer"]`. -/
def customer (db : Tpch) : List Customer :=
  (innerJoin (fun cn r => cn.2.regionkey = r.regionkey)
    (innerJoin (fun c n => c.nationkey = n.nationkey) db.customer db.nation) db.region).map
  fun cnr =>
    { custkey := cnr.1.1.custkey
      name := cnr.1.1.name
      address := cnr.1.1.address
      city := cnr.1.2.name.take 9
      nation := cnr.1.2.name
      region := cnr.2.name
      phone := cnr.1.1.phone
      mktsegment := cnr.1.1.mktsegment }

/-! ## The facts -/

structure Lineorder where
  orderkey : Int
  linenumber : Int
  custkey : Int
  partkey : Int
  suppkey : Int
  orderdate : Int
  orderpriority : Str
  shippriority : Int
  quantity : Int
  extendedprice : Int
  ordtotalprice : Int
  discount : Int
  revenue : Int
  supplycost : Int
  tax : Int
  commitdate : Int
  shipmode : Str

def lineorderRow (l : Lineitem) (o : Order) (ps : Partsupp) : Lineorder where
  orderkey := l.orderkey
  linenumber := l.linenumber
  custkey := o.custkey
  partkey := l.partkey
  suppkey := l.suppkey
  orderdate := dateKey o.orderdate
  orderpriority := o.orderpriority
  shippriority := o.shippriority
  quantity := truncate l.quantity
  extendedprice := truncate l.extendedprice
  ordtotalprice := truncate (l.extendedprice * l.quantity)
  discount := truncate (l.discount * 100)
  revenue := truncate (l.extendedprice * (1 - l.discount))
  supplycost := truncate (l.extendedprice * (1 - l.discount) - ps.supplycost * l.quantity)
  tax := truncate (l.tax * 100)
  commitdate := dateKey l.commitdate
  shipmode := l.shipmode

/-- `FROM tpch_lineitem JOIN tpch_orders JOIN tpch_partsupp`. -/
def lineorderFrom (db : Tpch) : List ((Lineitem × Order) × Partsupp) :=
  innerJoin (fun lo ps => lo.1.partkey = ps.partkey ∧ lo.1.suppkey = ps.suppkey)
    (innerJoin (fun l o => l.orderkey = o.orderkey) db.lineitem db.orders) db.partsupp

/-- `_DDL["lineorder"]`. -/
def lineorder (db : Tpch) : List Lineorder :=
  (lineorderFrom db).map fun lops => lineorderRow lops.1.1 lops.1.2 lops.2

/-! ## The keys of the dates -/

theorem digitsValue_append (a b : Str) :
    digitsValue (a ++ b) = digitsValue a * 10 ^ b.length + digitsValue b := by
  have happend := Nat.ofDigitChars_append (b := 10) (l := a) (m := b) 0
  rw [Nat.ofDigitChars_eq_ofDigitChars_zero (l := b)] at happend
  rw [mul_comm]
  exact happend

theorem digitsValue_padded (width n : Nat) : digitsValue (padded width n) = n := by
  have hzeros : digitsValue (List.replicate (width - n.repr.toList.length) '0') = 0 :=
    Nat.ofDigitChars_replicate_zero
  rw [padded, digitsValue_append, hzeros, digitsValue_repr]
  omega

theorem length_padded_two {n : Nat} (h : n < 100) : (padded 2 n).length = 2 := by
  have hle : n.repr.toList.length ≤ 2 := by
    rw [Nat.toList_repr]
    exact (Nat.length_toDigits_le_iff (by decide) (by decide)).mpr h
  rw [padded, List.length_append, List.length_replicate]
  omega

theorem daysInMonth_le (year month : Nat) : daysInMonth year month ≤ 31 := by
  unfold daysInMonth
  split <;> (try split) <;> decide

theorem dateKey_eq (d : Date) : dateKey d = (d.year * 10000 + d.month * 100 + d.day : Nat) := by
  have hmonth := d.month_range
  have hday := d.day_range.2.trans (daysInMonth_le _ _)
  rw [dateKey, digitsValue_append, digitsValue_append, digitsValue_padded, digitsValue_padded,
    digitsValue_padded, length_padded_two (by omega), length_padded_two (by omega)]
  congr 1
  omega

theorem dateKey_injective : Function.Injective dateKey := by
  intro d e h
  rw [dateKey_eq, dateKey_eq, Int.natCast_inj] at h
  have hd := d.day_range.2.trans (daysInMonth_le _ _)
  have he := e.day_range.2.trans (daysInMonth_le _ _)
  have hdm := d.month_range
  have hem := e.month_range
  refine Date.ext ?_ ?_ ?_ <;> omega

end DeltaForgeBench.DataGen.SsbDelta
