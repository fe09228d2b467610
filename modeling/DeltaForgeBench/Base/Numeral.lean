import DeltaForgeBench.Base.Text
import Mathlib.Data.List.TakeWhile
import Mathlib.Data.Rat.Floor
import Mathlib.Tactic.Linarith

/-! # Decimal numerals

`float(text)` on plain decimals. What the interpreter returns is the nearest
binary64 number; that rounding is a parameter of whoever calls `decimal?`,
which reads the exact value. The special names `inf` and `nan` are not
numerals here. In the other direction, `fixed` prints a number with a fixed
count of decimals. -/
namespace DeltaForgeBench.Base.Numeral
open DeltaForgeBench.Base.Text

def isDigit (c : Char) : Bool := '0' ≤ c && c ≤ '9'

def digitsValue (ds : Str) : Nat := ds.foldl (fun n c => 10 * n + (c.toNat - 48)) 0

/-- The characters a plain decimal is written with. -/
def isDecimalChar (c : Char) : Bool := isDigit c || ['+', '-', '.', 'e', 'E'].contains c

/-- An optional sign in front of a text. -/
def signed (t : Str) : Bool × Str :=
  match t with
  | '-' :: rest => (true, rest)
  | '+' :: rest => (false, rest)
  | _ => (false, t)

/-- `[digits][.digits]`, the digits of both parts not all absent. -/
def mantissa? (t : Str) : Option (ℚ × Str) :=
  let (whole, rest) := t.span isDigit
  let (frac, rest) := match rest with
    | '.' :: rest' => rest'.span isDigit
    | _ => ([], rest)
  if whole.isEmpty && frac.isEmpty then none
  else some ((digitsValue (whole ++ frac) : ℚ) / 10 ^ frac.length, rest)

/-- `e[+-]digits`, or nothing at all. -/
def exponent? (t : Str) : Option Int :=
  match t with
  | [] => some 0
  | c :: rest =>
    if c = 'e' || c = 'E' then
      let (neg, ds) := signed rest
      if !ds.isEmpty && ds.all isDigit then
        some (if neg then -(digitsValue ds : Int) else digitsValue ds)
      else none
    else none

def signedDecimal? (s : Str) : Option ℚ := do
  let (neg, body) := signed s
  let (m, rest) ← mantissa? body
  let e ← exponent? rest
  return (if neg then -m else m) * 10 ^ e

/-- The exact value of a plain decimal, surrounding white space ignored. -/
def decimal? (t : Str) : Option ℚ :=
  if (strip t).all isDecimalChar then signedDecimal? (strip t) else none

/-- `int(x)` of a float: truncation towards zero. -/
def truncate (x : ℚ) : Int := if x < 0 then ⌈x⌉ else ⌊x⌋

@[simp] theorem truncate_intCast (n : Int) : truncate (n : ℚ) = n := by
  simp [truncate]

/-! ## Printing -/

/-- The nearest integer, ties to the even one. -/
def roundHalfEven (x : ℚ) : Int :=
  let d := x - ⌊x⌋
  if d < 1 / 2 then ⌊x⌋
  else if 1 / 2 < d then ⌊x⌋ + 1
  else if ⌊x⌋ % 2 = 0 then ⌊x⌋ else ⌊x⌋ + 1

@[simp] theorem roundHalfEven_intCast (n : Int) : roundHalfEven (n : ℚ) = n := by
  simp [roundHalfEven]

/-- Up to an even number rounds everything that is no more than a half above it. -/
theorem roundHalfEven_le_iff {n : Int} (hn : n % 2 = 0) (x : ℚ) :
    roundHalfEven x ≤ n ↔ x ≤ n + 1 / 2 := by
  have below : (⌊x⌋ : ℚ) ≤ x := Int.floor_le x
  have above : x < ⌊x⌋ + 1 := Int.lt_floor_add_one x
  rcases lt_trichotomy ⌊x⌋ n with hlt | heq | hgt
  · have hcast : (⌊x⌋ : ℚ) + 1 ≤ n := by exact_mod_cast hlt
    have hround : roundHalfEven x ≤ ⌊x⌋ + 1 := by
      simp only [roundHalfEven]
      split_ifs <;> omega
    exact ⟨fun _ => by linarith, fun _ => hround.trans hlt⟩
  · simp only [roundHalfEven, heq]
    split_ifs with hsmall hbig
    · exact ⟨fun _ => by linarith, fun _ => le_refl n⟩
    · exact ⟨fun h => absurd h (by omega), fun h => absurd h (by linarith)⟩
    · exact ⟨fun _ => by linarith, fun _ => le_refl n⟩
  · have hcast : (n : ℚ) + 1 ≤ ⌊x⌋ := by exact_mod_cast hgt
    have hround : ⌊x⌋ ≤ roundHalfEven x := by
      simp only [roundHalfEven]
      split_ifs <;> omega
    exact ⟨fun h => absurd (hround.trans h) (by omega), fun h => absurd h (by linarith)⟩

/-- A comma after every three digits, the digits listed from the last one. -/
def groupReversed : Str → Str
  | a :: b :: c :: d :: rest => a :: b :: c :: ',' :: groupReversed (d :: rest)
  | t => t

/-- `f"{n:,}"`. -/
def grouped (n : Nat) : Str := (groupReversed n.repr.toList.reverse).reverse

/-- `f"{x:.<k>f}"`, or `f"{x:,.<k>f}"` when `thousands` is set, for `k > 0`. -/
def fixed (thousands : Bool) (k : Nat) (x : ℚ) : Str :=
  let n := (roundHalfEven (|x| * 10 ^ k)).toNat
  let whole := n / 10 ^ k
  let frac := (n % 10 ^ k).repr.toList
  (if x < 0 then ['-'] else []) ++ (if thousands then grouped whole else whole.repr.toList) ++
    ['.'] ++ List.replicate (k - frac.length) '0' ++ frac

/-- `f"{x:.0f}"`, or `f"{x:,.0f}"` when `thousands` is set. -/
def fixedWhole (thousands : Bool) (x : ℚ) : Str :=
  let n := (roundHalfEven |x|).toNat
  (if x < 0 then ['-'] else []) ++ (if thousands then grouped n else n.repr.toList)

/-! ## What a numeral looks like -/

theorem isDigit_repr (n : Nat) : ∀ c ∈ n.repr.toList, isDigit c = true := by
  intro c hc
  rw [Nat.toList_repr] at hc
  have hdigit := Nat.isDigit_of_mem_toDigits (by omega) (Nat.le_refl 10) hc
  simpa [isDigit, Char.isDigit, Char.le_def] using hdigit

theorem repr_ne_nil (n : Nat) : n.repr.toList ≠ [] := by
  rw [Nat.toList_repr]
  exact Nat.toDigits_ne_nil

/-- The digits of a number spell it. -/
theorem digitsValue_repr (n : Nat) : digitsValue n.repr.toList = n := by
  rw [Nat.toList_repr]
  exact Nat.ofDigitChars_ten_toDigits

/-- No numeral is grouped: a comma makes the text unreadable. -/
theorem comma_not_mem_of_decimal? {t : Str} {x : ℚ} (h : decimal? t = some x) : ',' ∉ t := by
  intro hc
  have hs := mem_strip_of_not_space hc rfl
  unfold decimal? at h
  split at h
  · rename_i hall
    exact absurd (List.all_eq_true.mp hall _ hs) (by decide)
  · cases h

end DeltaForgeBench.Base.Numeral
