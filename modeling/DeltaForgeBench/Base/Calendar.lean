import Mathlib.Data.List.Iterate
import Mathlib.Data.List.Nodup
import Mathlib.Order.Monotone.Basic
import Mathlib.Tactic.IntervalCases

/-! # Dates

The days of the Gregorian calendar, numbered from the first of January of the
year 0. Years and the months of a year are stairs of the same kind: a number
falls on one step only, and at one height above it. So no two dates have the
same number, and stepping from day to day reaches every date between two. -/
namespace DeltaForgeBench.Base.Calendar

/-! ## Stairs -/

section Stairs
variable {start width : Nat → Nat}

theorem start_mono (h : ∀ n, start (n + 1) = start n + width n) : Monotone start :=
  monotone_nat_of_le_succ fun n => by rw [h]; exact Nat.le_add_right _ _

/-- A number is above one step only. -/
theorem step_unique (h : ∀ n, start (n + 1) = start n + width n) {n n' k k' : Nat}
    (hk : 1 ≤ k ∧ k ≤ width n) (hk' : 1 ≤ k' ∧ k' ≤ width n')
    (heq : start n + k = start n' + k') : n = n' ∧ k = k' := by
  have order : ∀ {a b j}, a < b → j ≤ width a → start a + j ≤ start b := by
    intro a b j hab hj
    calc start a + j ≤ start a + width a := by omega
      _ = start (a + 1) := (h a).symm
      _ ≤ start b := start_mono h hab
  rcases lt_trichotomy n n' with hlt | rfl | hgt
  · have hbelow := order hlt hk.2
    omega
  · omega
  · have hbelow := order hgt hk'.2
    omega

end Stairs

/-! ## Months and years -/

def isLeap (year : Nat) : Bool := year % 4 = 0 && (year % 100 ≠ 0 || year % 400 = 0)

def daysInMonth (year : Nat) : Nat → Nat
  | 2 => if isLeap year then 29 else 28
  | 4 | 6 | 9 | 11 => 30
  | 1 | 3 | 5 | 7 | 8 | 10 | 12 => 31
  | _ => 0

def daysBeforeMonth (year : Nat) : Nat → Nat
  | 0 => 0
  | month + 1 => daysBeforeMonth year month + daysInMonth year month

def daysInYear (year : Nat) : Nat := daysBeforeMonth year 13

def daysBeforeYear : Nat → Nat
  | 0 => 0
  | year + 1 => daysBeforeYear year + daysInYear year

theorem daysInYear_eq (year : Nat) : daysInYear year = if isLeap year then 366 else 365 := by
  simp only [daysInYear, daysBeforeMonth, daysInMonth]
  split <;> rfl

/-- The days before a year without going through them. -/
theorem daysBeforeYear_eq (year : Nat) : daysBeforeYear year =
    365 * year + (year + 3) / 4 - (year + 99) / 100 + (year + 399) / 400 := by
  induction year with
  | zero => rfl
  | succ year ih =>
    rw [daysBeforeYear, ih, daysInYear_eq]
    simp only [isLeap, Bool.and_eq_true, Bool.or_eq_true, decide_eq_true_eq]
    split <;> omega

/-! ## Dates -/

/-- A day of the calendar. -/
structure Date where
  year : Nat
  month : Nat
  day : Nat
  month_range : 1 ≤ month ∧ month ≤ 12
  day_range : 1 ≤ day ∧ day ≤ daysInMonth year month
  deriving DecidableEq

namespace Date

@[ext] theorem ext {d e : Date} (hyear : d.year = e.year) (hmonth : d.month = e.month)
    (hday : d.day = e.day) : d = e := by
  cases d
  cases e
  simp_all

def dayOfYear (d : Date) : Nat := daysBeforeMonth d.year d.month + d.day

/-- The number of the day. -/
def ordinal (d : Date) : Nat := daysBeforeYear d.year + d.dayOfYear

theorem dayOfYear_range (d : Date) : 1 ≤ d.dayOfYear ∧ d.dayOfYear ≤ daysInYear d.year := by
  have hday := d.day_range
  have hmonth := d.month_range
  have hend : daysBeforeMonth d.year (d.month + 1) ≤ daysBeforeMonth d.year 13 :=
    start_mono (fun _ => rfl) (by omega)
  rw [daysBeforeMonth] at hend
  unfold dayOfYear daysInYear
  omega

theorem ordinal_injective : Function.Injective ordinal := by
  intro d e h
  obtain ⟨hyear, hday⟩ := step_unique (fun _ => rfl) d.dayOfYear_range e.dayOfYear_range h
  unfold dayOfYear at hday
  rw [← hyear] at hday
  have hrange : 1 ≤ e.day ∧ e.day ≤ daysInMonth d.year e.month := hyear ▸ e.day_range
  obtain ⟨hmonth, hday'⟩ := step_unique (fun _ => rfl) d.day_range hrange hday
  exact Date.ext hyear hmonth hday'

/-- A year's days come after those of the years before it. -/
theorem ordinal_bounds (d : Date) :
    daysBeforeYear d.year < d.ordinal ∧ d.ordinal ≤ daysBeforeYear (d.year + 1) := by
  have hrange := d.dayOfYear_range
  rw [daysBeforeYear, ordinal]
  omega

/-- The number of a year's last day. -/
theorem ordinal_of_last {d : Date} (h : d.dayOfYear = daysInYear d.year) :
    d.ordinal = daysBeforeYear (d.year + 1) := by
  rw [ordinal, h, daysBeforeYear]

theorem daysInMonth_pos {year month : Nat} (h : 1 ≤ month ∧ month ≤ 12) :
    1 ≤ daysInMonth year month := by
  obtain ⟨hlow, hhigh⟩ := h
  interval_cases month
  case «2» =>
    simp only [daysInMonth]
    split <;> decide
  all_goals exact Nat.le_add_left 1 _

/-- The day after. -/
def next (d : Date) : Date :=
  if hday : d.day < daysInMonth d.year d.month then
    ⟨d.year, d.month, d.day + 1, d.month_range, Nat.le_add_left 1 _, hday⟩
  else if hmonth : d.month < 12 then
    ⟨d.year, d.month + 1, 1, ⟨Nat.le_add_left 1 _, hmonth⟩, Nat.le_refl 1,
      daysInMonth_pos ⟨Nat.le_add_left 1 _, hmonth⟩⟩
  else ⟨d.year + 1, 1, 1, ⟨Nat.le_refl 1, by decide⟩, Nat.le_refl 1, by simp [daysInMonth]⟩

theorem january_range : 1 ≤ 1 ∧ 1 ≤ 12 := by decide

theorem january_first (year : Nat) : 1 ≤ 1 ∧ 1 ≤ daysInMonth year 1 :=
  ⟨Nat.le_refl 1, daysInMonth_pos january_range⟩

/-- The first of January. -/
def newYear (year : Nat) : Date := ⟨year, 1, 1, january_range, january_first year⟩

theorem ordinal_next (d : Date) : d.next.ordinal = d.ordinal + 1 := by
  have hday := d.day_range
  have hmonth := d.month_range
  unfold next
  split
  · rfl
  · rename_i hlast
    have hfull : d.day = daysInMonth d.year d.month := by omega
    split
    · simp only [ordinal, dayOfYear, daysBeforeMonth, hfull]
      omega
    · have hdecember : d.month = 12 := by omega
      have hjanuary : daysBeforeMonth (d.year + 1) 1 = 0 := rfl
      have hyear : daysInYear d.year = daysBeforeMonth d.year 12 + daysInMonth d.year 12 := rfl
      simp only [ordinal, dayOfYear, daysBeforeYear, hjanuary, hyear, hfull, hdecember]

/-! ## Weeks -/

/-- One for Sunday to seven for Saturday. -/
def dayOfWeek (d : Date) : Nat := (d.ordinal + 5) % 7 + 1

/-- One for Monday to seven for Sunday. -/
def isoDay (d : Date) : Nat := (d.ordinal + 4) % 7 + 1

end Date

/-- A year has 53 weeks when its first day or its last is a Thursday. -/
def weeksInYear (year : Nat) : Nat :=
  if (daysBeforeYear year + 5) % 7 + 1 = 4 ∨ (daysBeforeYear (year + 1) + 4) % 7 + 1 = 4 then 53
  else 52

theorem weeksInYear_ge (year : Nat) : 52 ≤ weeksInYear year := by
  unfold weeksInYear
  split <;> decide

namespace Date

/-- The week with the first Thursday of a year is its first. -/
def weekOfYear (d : Date) : Nat :=
  let week := (d.dayOfYear + 10 - d.isoDay) / 7
  if week = 0 then weeksInYear (d.year - 1)
  else if week > weeksInYear d.year then 1
  else week

/-! ## From day to day -/

/-- `sequence(start, stop, interval 1 day)`. -/
def sequence (start stop : Date) : List Date :=
  List.iterate next start (stop.ordinal + 1 - start.ordinal)

theorem map_ordinal_iterate (n : Nat) (d : Date) :
    (List.iterate next d n).map ordinal = List.range' d.ordinal n := by
  induction n generalizing d with
  | zero => rfl
  | succ n ih => rw [List.iterate, List.map_cons, ih, ordinal_next, List.range'_succ]

/-- The sequence goes through each date between its ends once. -/
theorem nodup_sequence (start stop : Date) : (sequence start stop).Nodup := by
  refine List.Nodup.of_map ordinal ?_
  rw [sequence, map_ordinal_iterate]
  exact List.nodup_range'

theorem mem_sequence {start stop d : Date} :
    d ∈ sequence start stop ↔ start.ordinal ≤ d.ordinal ∧ d.ordinal ≤ stop.ordinal := by
  have hmap : d ∈ sequence start stop ↔ d.ordinal ∈ (sequence start stop).map ordinal :=
    (List.mem_map_of_injective ordinal_injective).symm
  rw [hmap, sequence, map_ordinal_iterate, List.mem_range'_1]
  omega

end Date
end DeltaForgeBench.Base.Calendar
