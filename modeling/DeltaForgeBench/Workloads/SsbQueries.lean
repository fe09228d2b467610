import DeltaForgeBench.Base.Dict
import DeltaForgeBench.DataGen.Star

/-! # The queries of the star schema

Four flights of queries, each a join of the facts with some dimensions under
conditions of its own. A query is vacuous when no source database gives it a
joined row: its answer is then empty, or a sum over nothing, at any speed. -/
namespace DeltaForgeBench.Workloads.SsbQueries
open DeltaForgeBench.Base.Text DeltaForgeBench.Base.Dict DeltaForgeBench.Base.Calendar
open DeltaForgeBench.Base.Numeral DeltaForgeBench.DataGen.SsbDelta DeltaForgeBench.DataGen.Star

/-! ## Answers -/

inductive Value
  | int (n : Int)
  | text (t : Str)
  deriving DecidableEq

def Value.le : Value → Value → Bool
  | .int m, .int n => m ≤ n
  | .text s, .text t => s ≤ t
  | .int _, .text _ => true
  | .text _, .int _ => false

/-- The grouping columns of an answer's row, and its sum; `none` is `NULL`. -/
structure AnswerRow where
  keys : List Value
  sum : Option Int

/-- `SELECT sum(..)` without groups: one row, also over nothing. -/
def ungrouped (summands : List Int) : List AnswerRow :=
  [⟨[], if summands = [] then none else some summands.sum⟩]

/-- `GROUP BY` the keys, then `ORDER BY`. -/
def grouped (le : AnswerRow → AnswerRow → Bool) (rows : List (List Value × Int)) :
    List AnswerRow :=
  ((groupBy Prod.fst rows).map fun g => ⟨g.1, some (g.2.map Prod.snd).sum⟩).mergeSort le

/-- `ORDER BY` the grouping columns. -/
def byKeys (a b : AnswerRow) : Bool := lexLe a.keys b.keys
where
  lexLe : List Value → List Value → Bool
    | [], _ => true
    | _ :: _, [] => false
    | v :: vs, w :: ws => if v = w then lexLe vs ws else v.le w

/-- `ORDER BY d_year ASC, revenue DESC`, the year being the last of the keys. -/
def byYearRevenue (a b : AnswerRow) : Bool :=
  let year (r : AnswerRow) := r.keys.getLastD (.int 0)
  if year a = year b then b.sum.getD 0 ≤ a.sum.getD 0 else (year a).le (year b)

/-! ## Flights -/

/-- `FROM lineorder, date`. -/
def flight1 (p : Lineorder → DateRow → Bool) (db : Tpch) : List AnswerRow :=
  let rows := (lineorder db ×ˢ date).filter fun x =>
    x.1.orderdate = x.2.datekey && p x.1 x.2
  ungrouped (rows.map fun x => x.1.extendedprice * x.1.discount)

/-- `FROM lineorder, date, part, supplier`, by year and brand. -/
def flight2 (p : Part → Supplier → Bool) (db : Tpch) : List AnswerRow :=
  let rows := (((lineorder db ×ˢ date) ×ˢ part db) ×ˢ supplier db).filter fun x =>
    x.1.1.1.orderdate = x.1.1.2.datekey && x.1.1.1.partkey = x.1.2.partkey &&
      x.1.1.1.suppkey = x.2.suppkey && p x.1.2 x.2
  grouped byKeys (rows.map fun x => ([.int x.1.1.2.year, .text x.1.2.brand], x.1.1.1.revenue))

/-- `FROM customer, lineorder, supplier, date`. -/
def flight3 (p : Customer → Supplier → DateRow → Bool)
    (keys : Customer → Supplier → List Value) (db : Tpch) : List AnswerRow :=
  let rows := (((customer db ×ˢ lineorder db) ×ˢ supplier db) ×ˢ date).filter fun x =>
    x.1.1.2.custkey = x.1.1.1.custkey && x.1.1.2.suppkey = x.1.2.suppkey &&
      x.1.1.2.orderdate = x.2.datekey && p x.1.1.1 x.1.2 x.2
  grouped byYearRevenue (rows.map fun x =>
    (keys x.1.1.1 x.1.2 ++ [.int x.2.year], x.1.1.2.revenue))

/-- `FROM date, customer, supplier, part, lineorder`. -/
def flight4 (p : DateRow → Customer → Supplier → Part → Bool)
    (keys : DateRow → Customer → Supplier → Part → List Value) (db : Tpch) : List AnswerRow :=
  let rows := (starJoin db).filter fun x => p x.1.1.1.1 x.1.1.1.2 x.1.1.2 x.1.2
  grouped byKeys (rows.map fun x =>
    (keys x.1.1.1.1 x.1.1.1.2 x.1.1.2 x.1.2, x.2.revenue - x.2.supplycost))

/-! ## Queries -/

def q11 : Tpch → List AnswerRow := flight1 fun lo d =>
  d.year = 1993 && 1 ≤ lo.discount && lo.discount ≤ 3 && lo.quantity < 25

def q12 : Tpch → List AnswerRow := flight1 fun lo d =>
  d.yearmonth = 199401 && 4 ≤ lo.discount && lo.discount ≤ 6 &&
    26 ≤ lo.quantity && lo.quantity ≤ 35

def q13 : Tpch → List AnswerRow := flight1 fun lo d =>
  d.weeknuminyear = 6 && d.year = 1994 && 5 ≤ lo.discount && lo.discount ≤ 7 &&
    26 ≤ lo.quantity && lo.quantity ≤ 35

def q21 : Tpch → List AnswerRow := flight2 fun p s =>
  p.category = "MFGR#12".toList && s.region = "AMERICA".toList

def q22 : Tpch → List AnswerRow := flight2 fun p s =>
  "MFGR#2221".toList ≤ p.brand && p.brand ≤ "MFGR#2228".toList && s.region = "ASIA".toList

def q23 : Tpch → List AnswerRow := flight2 fun p s =>
  p.brand = "MFGR#2221".toList && s.region = "EUROPE".toList

/-- `c_nation, s_nation`. -/
def nations (c : Customer) (s : Supplier) : List Value := [.text c.nation, .text s.nation]

/-- `c_city, s_city`. -/
def cities (c : Customer) (s : Supplier) : List Value := [.text c.city, .text s.city]

def q31 : Tpch → List AnswerRow := flight3 (fun c s d =>
  c.region = "ASIA".toList && s.region = "ASIA".toList && 1992 ≤ d.year && d.year ≤ 1997) nations

def q32 : Tpch → List AnswerRow := flight3 (fun c s d =>
  c.nation = "UNITED ST".toList && s.nation = "UNITED ST".toList &&
    1992 ≤ d.year && d.year ≤ 1997) cities

def q33 : Tpch → List AnswerRow := flight3 (fun c s d =>
  (c.city = "UNITED KI1".toList || c.city = "UNITED KI5".toList) &&
    (s.city = "UNITED KI1".toList || s.city = "UNITED KI5".toList) &&
    1992 ≤ d.year && d.year ≤ 1997) cities

def q34 : Tpch → List AnswerRow := flight3 (fun c s d =>
  (c.city = "UNITED KI1".toList || c.city = "UNITED KI5".toList) &&
    (s.city = "UNITED KI1".toList || s.city = "UNITED KI5".toList) &&
    d.yearmonth = 199712) cities

def q41 : Tpch → List AnswerRow := flight4 (fun _ c s p =>
  c.region = "AMERICA".toList && s.region = "AMERICA".toList &&
    (p.mfgr = "MFGR#1".toList || p.mfgr = "MFGR#2".toList))
  fun d c _ _ => [.int d.year, .text c.nation]

def q42 : Tpch → List AnswerRow := flight4 (fun d c s p =>
  c.region = "AMERICA".toList && s.region = "AMERICA".toList &&
    (d.year = 1997 || d.year = 1998) &&
    (p.mfgr = "MFGR#1".toList || p.mfgr = "MFGR#2".toList))
  fun d _ s p => [.int d.year, .text s.nation, .text p.category]

def q43 : Tpch → List AnswerRow := flight4 (fun d _ s p =>
  s.nation = "UNITED ST".toList && (d.year = 1997 || d.year = 1998) &&
    p.category = "MFGR#14".toList)
  fun d _ s p => [.int d.year, .text s.city, .text p.brand]

inductive Query
  | q11 | q12 | q13 | q21 | q22 | q23 | q31 | q32 | q33 | q34 | q41 | q42 | q43
  deriving DecidableEq

def Query.answer : Query → Tpch → List AnswerRow
  | .q11 => SsbQueries.q11
  | .q12 => SsbQueries.q12
  | .q13 => SsbQueries.q13
  | .q21 => SsbQueries.q21
  | .q22 => SsbQueries.q22
  | .q23 => SsbQueries.q23
  | .q31 => SsbQueries.q31
  | .q32 => SsbQueries.q32
  | .q33 => SsbQueries.q33
  | .q34 => SsbQueries.q34
  | .q41 => SsbQueries.q41
  | .q42 => SsbQueries.q42
  | .q43 => SsbQueries.q43

/-- A row of the answer comes from a joined row: its sum is over something. -/
def Sums (answer : List AnswerRow) : Prop := ∃ row ∈ answer, row.sum.isSome

def NonVacuous (q : Query) (db : Tpch) : Prop := Sums (q.answer db)

/-! ## What gives an answer -/

theorem sums_ungrouped {summands : List Int} : Sums (ungrouped summands) ↔ summands ≠ [] := by
  unfold Sums ungrouped
  by_cases h : summands = []
  · simp [h]
  · simp [h]

theorem sums_grouped {le : AnswerRow → AnswerRow → Bool} {rows : List (List Value × Int)} :
    Sums (grouped le rows) ↔ rows ≠ [] := by
  constructor
  · intro h hnil
    obtain ⟨row, hrow, -⟩ := h
    rw [hnil, grouped, List.mem_mergeSort] at hrow
    cases hrow
  · intro h
    obtain ⟨r, hr⟩ := List.exists_mem_of_ne_nil rows h
    have hgroup : (r.1, rows.filter fun r' => r'.1 = r.1) ∈ groupBy Prod.fst rows := by
      refine mem_groupBy_iff.mpr ⟨rfl, List.ne_nil_of_mem (List.mem_filter.mpr ⟨hr, ?_⟩)⟩
      exact decide_eq_true rfl
    exact ⟨_, List.mem_mergeSort.mpr (List.mem_map_of_mem hgroup), rfl⟩

section Flights
variable {db : Tpch}

theorem map_filter_ne_nil {α β : Type} {f : α → β} {p : α → Bool} {l : List α} :
    (l.filter p).map f ≠ [] ↔ ∃ x ∈ l, p x = true := by
  rw [ne_eq, List.map_eq_nil_iff, ← ne_eq, ← List.length_pos_iff, List.length_pos_iff_exists_mem]
  simp only [List.mem_filter]

theorem sums_flight1 {p : Lineorder → DateRow → Bool} : Sums (flight1 p db) ↔
    ∃ lo ∈ lineorder db, ∃ d ∈ date, lo.orderdate = d.datekey ∧ p lo d = true := by
  rw [flight1, sums_ungrouped, map_filter_ne_nil]
  simp only [Prod.exists, List.mem_product, Bool.and_eq_true, decide_eq_true_eq]
  grind

theorem sums_flight2 {p : Part → Supplier → Bool} : Sums (flight2 p db) ↔
    ∃ lo ∈ lineorder db, ∃ d ∈ date, ∃ r ∈ part db, ∃ s ∈ supplier db,
      lo.orderdate = d.datekey ∧ lo.partkey = r.partkey ∧ lo.suppkey = s.suppkey ∧
        p r s = true := by
  rw [flight2, sums_grouped, map_filter_ne_nil]
  simp only [Prod.exists, List.mem_product, Bool.and_eq_true, decide_eq_true_eq]
  grind

theorem sums_flight3 {p : Customer → Supplier → DateRow → Bool}
    {keys : Customer → Supplier → List Value} : Sums (flight3 p keys db) ↔
    ∃ lo ∈ lineorder db, ∃ d ∈ date, ∃ c ∈ customer db, ∃ s ∈ supplier db,
      lo.orderdate = d.datekey ∧ lo.custkey = c.custkey ∧ lo.suppkey = s.suppkey ∧
        p c s d = true := by
  rw [flight3, sums_grouped, map_filter_ne_nil]
  simp only [Prod.exists, List.mem_product, Bool.and_eq_true, decide_eq_true_eq]
  grind

theorem sums_flight4 {p : DateRow → Customer → Supplier → Part → Bool}
    {keys : DateRow → Customer → Supplier → Part → List Value} : Sums (flight4 p keys db) ↔
    ∃ lo ∈ lineorder db, ∃ d ∈ date, ∃ c ∈ customer db, ∃ s ∈ supplier db, ∃ r ∈ part db,
      starOn ((((d, c), s), r), lo) = true ∧ p d c s r = true := by
  rw [flight4, sums_grouped, map_filter_ne_nil]
  simp only [starJoin, Prod.exists, List.mem_filter, List.mem_product]
  grind

end Flights

/-! ## One line item suffices -/

section OneLine
variable {day : Date} {nation region type mfgr brand : Str} {quantity discount : ℚ}

/-- The fact row of the single line item. -/
def factOf (day : Date) (quantity discount : ℚ) : Lineorder :=
  lineorderRow ⟨1, 1, 1, 1, quantity, 100, discount, 0, day, []⟩ ⟨1, 1, day, [], 0⟩ ⟨1, 1, 10⟩

/-- Its supplier's row. -/
def supplierOf (nation region : Str) : Supplier :=
  ⟨1, [], [], nation.take 9, nation, region, []⟩

/-- Its customer's row. -/
def customerOf (nation region : Str) : Customer :=
  ⟨1, [], [], nation.take 9, nation, region, [], []⟩

/-- Its part's row. -/
def partOf (type mfgr brand : Str) : Part :=
  ⟨1, [], mfgr, (splitOnChar ' ' type).headD [], brand, (splitOnChar ' ' type).getLastD [],
    type, 1, []⟩

theorem mem_date (hyear : 1992 ≤ day.year ∧ day.year ≤ 1998) : dateRow day ∈ date :=
  List.mem_map_of_mem (mem_days hyear)

/-- The derived tables of the single line item hold these rows. -/
theorem oneLine_mem (day : Date) (nation region type mfgr brand : Str) (quantity discount : ℚ) :
    factOf day quantity discount ∈
        lineorder (oneLine day nation region type mfgr brand quantity discount) ∧
      supplierOf nation region ∈
        supplier (oneLine day nation region type mfgr brand quantity discount) ∧
      customerOf nation region ∈
        customer (oneLine day nation region type mfgr brand quantity discount) ∧
      partOf type mfgr brand ∈
        part (oneLine day nation region type mfgr brand quantity discount) :=
  ⟨List.mem_singleton_self _, List.mem_singleton_self _, List.mem_singleton_self _,
    List.mem_singleton_self _⟩

theorem factOf_discount (day : Date) (quantity : ℚ) (n : Int) :
    (factOf day quantity (n / 100)).discount = n := by
  have hpercent : (n : ℚ) / 100 * 100 = n := div_mul_cancel₀ _ (by norm_num)
  rw [factOf, lineorderRow]
  simp only [hpercent, truncate_intCast]

theorem factOf_quantity (day : Date) (n : Int) (discount : ℚ) :
    (factOf day n discount).quantity = n := truncate_intCast n

end OneLine

/-! ## Every query but two -/

/-- A derived city has at most nine characters. -/
theorem city_length {db : Tpch} {c : Customer} (h : c ∈ customer db) : c.city.length ≤ 9 := by
  obtain ⟨cnr, -, rfl⟩ := List.mem_map.mp h
  exact List.length_take_le 9 _

theorem city_ne {db : Tpch} {c : Customer} {text : Str} (h : c ∈ customer db)
    (hlong : 9 < text.length) : c.city ≠ text := by
  intro heq
  have hlength := city_length h
  rw [heq] at hlength
  exact absurd hlength (Nat.not_le_of_lt hlong)

section Answered
variable (day : Date) (hyear : 1992 ≤ day.year ∧ day.year ≤ 1998)
include hyear

/-! The single line item answers a query whose conditions its rows meet. -/

theorem flight1_answered (quantity discount : Int) {p : Lineorder → DateRow → Bool}
    (hp : p (factOf day quantity (discount / 100)) (dateRow day) = true) :
    ∃ db, Wellformed db ∧ Sums (flight1 p db) := by
  obtain ⟨hlo, -, -, -⟩ := oneLine_mem day [] [] [] [] [] quantity (discount / 100)
  exact ⟨_, oneLine_wellformed hyear .., sums_flight1.mpr ⟨_, hlo, _, mem_date hyear, rfl, hp⟩⟩

theorem flight2_answered (region type brand : Str) {p : Part → Supplier → Bool}
    (hp : p (partOf type [] brand) (supplierOf [] region) = true) :
    ∃ db, Wellformed db ∧ Sums (flight2 p db) := by
  obtain ⟨hlo, hs, -, hr⟩ := oneLine_mem day [] region type [] brand 1 0
  exact ⟨_, oneLine_wellformed hyear ..,
    sums_flight2.mpr ⟨_, hlo, _, mem_date hyear, _, hr, _, hs, rfl, rfl, rfl, hp⟩⟩

theorem flight3_answered (nation region : Str) {p : Customer → Supplier → DateRow → Bool}
    (keys : Customer → Supplier → List Value)
    (hp : p (customerOf nation region) (supplierOf nation region) (dateRow day) = true) :
    ∃ db, Wellformed db ∧ Sums (flight3 p keys db) := by
  obtain ⟨hlo, hs, hc, -⟩ := oneLine_mem day nation region [] [] [] 1 0
  exact ⟨_, oneLine_wellformed hyear ..,
    sums_flight3.mpr ⟨_, hlo, _, mem_date hyear, _, hc, _, hs, rfl, rfl, rfl, hp⟩⟩

theorem flight4_answered (nation region type mfgr : Str)
    {p : DateRow → Customer → Supplier → Part → Bool}
    (keys : DateRow → Customer → Supplier → Part → List Value)
    (hp : p (dateRow day) (customerOf nation region) (supplierOf nation region)
      (partOf type mfgr []) = true) :
    ∃ db, Wellformed db ∧ Sums (flight4 p keys db) := by
  obtain ⟨hlo, hs, hc, hr⟩ := oneLine_mem day nation region type mfgr [] 1 0
  have hon : starOn ((((dateRow day, customerOf nation region), supplierOf nation region),
      partOf type mfgr []), factOf day 1 0) = true := by
    simp [starOn, factOf, lineorderRow, customerOf, supplierOf, partOf, dateRow]
  exact ⟨_, oneLine_wellformed hyear ..,
    sums_flight4.mpr ⟨_, hlo, _, mem_date hyear, _, hc, _, hs, _, hr, hon, hp⟩⟩

end Answered

/-- The days the queries ask for. -/
def day1993 : Date := .newYear 1993
def day1994 : Date := .newYear 1994
def weekSix : Date := ⟨1994, 2, 7, by decide, by decide⟩
def day1997 : Date := .newYear 1997

theorem day1993_year : 1992 ≤ day1993.year ∧ day1993.year ≤ 1998 := by decide
theorem day1994_year : 1992 ≤ day1994.year ∧ day1994.year ≤ 1998 := by decide
theorem weekSix_year : 1992 ≤ weekSix.year ∧ weekSix.year ≤ 1998 := by decide
theorem day1997_year : 1992 ≤ day1997.year ∧ day1997.year ≤ 1998 := by decide

theorem weekSix_week : weekSix.weekOfYear = 6 := by
  have hday : weekSix.dayOfYear = 38 := by decide
  have hiso : weekSix.isoDay = (365 * 1994 + 1997 / 4 - 2093 / 100 + 2393 / 400 + 38 + 4) % 7 + 1 := by
    rw [Date.isoDay, Date.ordinal, daysBeforeYear_eq, hday]
    rfl
  have hweeks : 52 ≤ weeksInYear weekSix.year := weeksInYear_ge _
  rw [Date.weekOfYear, hiso, hday]
  simp only [Nat.reduceMul, Nat.reduceAdd, Nat.reduceDiv, Nat.reduceSub, Nat.reduceMod]
  rw [if_neg (by decide), if_neg (by omega)]

theorem answered {q : Query} (h33 : q ≠ .q33) (h34 : q ≠ .q34) :
    ∃ db, Wellformed db ∧ NonVacuous q db := by
  cases q with
  | q11 =>
    show ∃ db, _ ∧ Sums (SsbQueries.q11 db)
    refine flight1_answered day1993 day1993_year 1 2 ?_
    rw [factOf_discount, factOf_quantity]
    rfl
  | q12 =>
    show ∃ db, _ ∧ Sums (SsbQueries.q12 db)
    refine flight1_answered day1994 day1994_year 30 5 ?_
    rw [factOf_discount, factOf_quantity]
    rfl
  | q13 =>
    show ∃ db, _ ∧ Sums (SsbQueries.q13 db)
    refine flight1_answered weekSix weekSix_year 30 6 ?_
    have hweek : (dateRow weekSix).weeknuminyear = 6 := congrArg Int.ofNat weekSix_week
    rw [factOf_discount, factOf_quantity, hweek]
    rfl
  | q21 =>
    show ∃ db, _ ∧ Sums (SsbQueries.q21 db)
    exact flight2_answered day1993 day1993_year "AMERICA".toList "MFGR#12".toList []
      (by decide +kernel)
  | q22 =>
    show ∃ db, _ ∧ Sums (SsbQueries.q22 db)
    exact flight2_answered day1993 day1993_year "ASIA".toList [] "MFGR#2221".toList
      (by decide +kernel)
  | q23 =>
    show ∃ db, _ ∧ Sums (SsbQueries.q23 db)
    exact flight2_answered day1993 day1993_year "EUROPE".toList [] "MFGR#2221".toList
      (by decide +kernel)
  | q31 =>
    show ∃ db, _ ∧ Sums (SsbQueries.q31 db)
    exact flight3_answered day1993 day1993_year [] "ASIA".toList _ (by decide +kernel)
  | q32 =>
    show ∃ db, _ ∧ Sums (SsbQueries.q32 db)
    exact flight3_answered day1993 day1993_year "UNITED ST".toList [] _ (by decide +kernel)
  | q33 => exact absurd rfl h33
  | q34 => exact absurd rfl h34
  | q41 =>
    show ∃ db, _ ∧ Sums (SsbQueries.q41 db)
    exact flight4_answered day1993 day1993_year [] "AMERICA".toList [] "MFGR#1".toList _
      (by decide +kernel)
  | q42 =>
    show ∃ db, _ ∧ Sums (SsbQueries.q42 db)
    exact flight4_answered day1997 day1997_year [] "AMERICA".toList [] "MFGR#1".toList _
      (by decide +kernel)
  | q43 =>
    show ∃ db, _ ∧ Sums (SsbQueries.q43 db)
    exact flight4_answered day1997 day1997_year "UNITED ST".toList [] "MFGR#14".toList [] _
      (by decide +kernel)

/-- A flight that asks for the two cities with ten characters has no customers. -/
theorem flight3_unanswered {db : Tpch} {p : Customer → Supplier → DateRow → Bool}
    {keys : Customer → Supplier → List Value}
    (hp : ∀ c s d, p c s d = true → c.city = "UNITED KI1".toList ∨ c.city = "UNITED KI5".toList) :
    ¬ Sums (flight3 p keys db) := by
  intro h
  obtain ⟨lo, -, d, -, c, hc, s, -, -, -, -, hasked⟩ := sums_flight3.mp h
  rcases hp c s d hasked with hcity | hcity
  · exact city_ne hc (by decide) hcity
  · exact city_ne hc (by decide) hcity

theorem not_answered {q : Query} (hq : q = .q33 ∨ q = .q34) (db : Tpch) : ¬ NonVacuous q db := by
  rcases hq with rfl | rfl
  · show ¬ Sums (SsbQueries.q33 db)
    refine flight3_unanswered fun c s d hp => ?_
    simp only [Bool.and_eq_true, Bool.or_eq_true, decide_eq_true_eq] at hp
    exact hp.1.1.1
  · show ¬ Sums (SsbQueries.q34 db)
    refine flight3_unanswered fun c s d hp => ?_
    simp only [Bool.and_eq_true, Bool.or_eq_true, decide_eq_true_eq] at hp
    exact hp.1.1

/-- **Every query but two has an answer** on some database; for those two the
derivation cuts the cities short of what they ask for. -/
theorem nonVacuous_iff (q : Query) :
    ((∃ db, NonVacuous q db) ↔ q ≠ .q33 ∧ q ≠ .q34) ∧
      ((∃ db, NonVacuous q db) → ∃ db, Wellformed db ∧ NonVacuous q db) := by
  have some_answer : (∃ db, NonVacuous q db) → q ≠ .q33 ∧ q ≠ .q34 := by
    intro h
    obtain ⟨db, hdb⟩ := h
    exact ⟨fun heq => not_answered (.inl heq) db hdb, fun heq => not_answered (.inr heq) db hdb⟩
  constructor
  · constructor
    · exact some_answer
    · intro h
      obtain ⟨db, -, hdb⟩ := answered h.1 h.2
      exact ⟨db, hdb⟩
  · intro h
    exact answered (some_answer h).1 (some_answer h).2

/-- No database answers `q33`. -/
theorem q33_vacuous : ¬ ∀ q, ∃ db, NonVacuous q db := by
  intro h
  obtain ⟨db, hdb⟩ := h .q33
  exact not_answered (.inl rfl) db hdb

end DeltaForgeBench.Workloads.SsbQueries
