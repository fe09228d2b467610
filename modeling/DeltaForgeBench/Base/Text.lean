import Mathlib.Data.Char
import Mathlib.Data.List.Lex
import Mathlib.Data.List.TakeWhile

/-! # Text as the interpreter sees it

A string is its list of code points. The operations below follow the
documented behaviour of the string methods the modelled programs call:
which characters count as white space, where `splitlines` breaks a text, how
strings compare. `lower` and `upper` fold ASCII only; the texts they meet are ASCII
or compared with ASCII words. -/
namespace DeltaForgeBench.Base.Text

abbrev Str := List Char

/-- The boundaries of `str.splitlines`. -/
def isLineBreak (c : Char) : Bool :=
  [0x0a, 0x0b, 0x0c, 0x0d, 0x1c, 0x1d, 0x1e, 0x85, 0x2028, 0x2029].contains c.toNat

/-- `str.isspace` of one character. -/
def isSpace (c : Char) : Bool :=
  let n := c.toNat
  (9 ≤ n && n ≤ 13) || (28 ≤ n && n ≤ 32) || (0x2000 ≤ n && n ≤ 0x200a) ||
    [0x85, 0xa0, 0x1680, 0x2028, 0x2029, 0x202f, 0x205f, 0x3000].contains n

def lstrip (t : Str) : Str := t.dropWhile isSpace

def rstrip (t : Str) : Str := (t.reverse.dropWhile isSpace).reverse

def strip (t : Str) : Str := rstrip (lstrip t)

/-- `f"{t:<n}"`. -/
def ljust (n : Nat) (t : Str) : Str := t ++ List.replicate (n - t.length) ' '

/-- `f"{t:>n}"`. -/
def rjust (n : Nat) (t : Str) : Str := List.replicate (n - t.length) ' ' ++ t

/-- `text.rstrip(c)`. -/
def rstripChar (c : Char) (t : Str) : Str := (t.reverse.dropWhile (· = c)).reverse

def lower (t : Str) : Str := t.map Char.toLower

def upper (t : Str) : Str := t.map Char.toUpper

/-- `str.splitlines()`: `\r\n` is one boundary, and a boundary at the very end
opens no further line. -/
def splitlines : Str → List Str
  | [] => []
  | '\r' :: '\n' :: cs => [] :: splitlines cs
  | c :: cs =>
    if isLineBreak c then [] :: splitlines cs
    else match splitlines cs with
      | [] => [[c]]
      | line :: rest => (c :: line) :: rest

/-- `sep.join(parts)`. -/
def join (sep : Str) (parts : List Str) : Str := sep.intercalate parts

@[simp] theorem join_nil (sep : Str) : join sep [] = [] := rfl

@[simp] theorem join_singleton (sep a : Str) : join sep [a] = a := by
  simp [join, List.intercalate]

@[simp] theorem join_cons_cons (sep a b : Str) (rest : List Str) :
    join sep (a :: b :: rest) = a ++ sep ++ join sep (b :: rest) := by
  simp [join, List.intercalate]

theorem infix_join {sep p : Str} : ∀ {parts : List Str}, p ∈ parts → p <:+: join sep parts
  | [q], h => by
    obtain rfl := List.mem_singleton.mp h
    simp
  | q :: r :: rest, h => by
    rw [join_cons_cons]
    rcases List.mem_cons.mp h with rfl | h
    · exact ⟨[], sep ++ join sep (r :: rest), by simp⟩
    · have tail : p <:+: join sep (r :: rest) := infix_join h
      exact tail.trans ⟨q ++ sep, [], by simp⟩

theorem join_append {sep : Str} : ∀ {a b : List Str}, a ≠ [] → b ≠ [] →
    join sep (a ++ b) = join sep a ++ sep ++ join sep b
  | [x], y :: b, _, _ => by simp
  | x :: y :: a, z :: b, _, _ => by
    have ih : join sep (y :: a ++ z :: b) = _ := join_append (by simp) (by simp)
    rw [List.cons_append] at ih
    simp [ih]

/-- Two characters that a test tells apart. -/
theorem ne_of_test {p : Char → Bool} {b : Bool} {c d : Char} (hc : p c = b) (hd : p d = !b) :
    c ≠ d := by
  intro e
  rw [e, hd] at hc
  cases b <;> cases hc

/-! ## Trimming -/

/-- White space in front of a text is trimmed off. -/
theorem strip_white_append {w : Str} (h : ∀ c ∈ w, isSpace c = true) (t : Str) :
    strip (w ++ t) = strip t := by
  have front : lstrip (w ++ t) = lstrip t := List.dropWhile_append_of_pos h
  rw [strip, front, strip]

/-- White space behind a text is trimmed off. -/
theorem strip_append_white {w : Str} (h : ∀ c ∈ w, isSpace c = true) (t : Str) :
    strip (t ++ w) = strip t := by
  have back : ∀ u : Str, rstrip (u ++ w) = rstrip u := by
    intro u
    unfold rstrip
    rw [List.reverse_append, List.dropWhile_append_of_pos fun c hc => h c (List.mem_reverse.mp hc)]
  unfold strip lstrip
  rw [List.dropWhile_append]
  split
  · rename_i hnil
    have hall : t.dropWhile isSpace = [] := by simpa using hnil
    have hw : w.dropWhile isSpace = [] := List.dropWhile_eq_nil_iff.mpr h
    rw [hall, hw]
  · exact back _

theorem mem_strip_of_not_space {t : Str} {c : Char} (h : c ∈ t) (hc : isSpace c = false) :
    c ∈ strip t := by
  have keep : ∀ {u : Str}, c ∈ u → c ∈ u.dropWhile isSpace := by
    intro u hu
    rcases List.mem_append.mp (List.takeWhile_append_dropWhile (p := isSpace) (l := u) ▸ hu) with
      htake | hdrop
    · rw [List.mem_takeWhile_imp htake] at hc
      cases hc
    · exact hdrop
  simp only [strip, rstrip, lstrip, List.mem_reverse]
  exact keep (List.mem_reverse.mpr (keep h))

theorem exists_of_strip_ne_nil {t : Str} (h : strip t ≠ []) : ∃ c ∈ t, isSpace c = false := by
  by_contra hall
  simp only [not_exists, not_and, Bool.not_eq_false] at hall
  have blank := strip_white_append hall []
  rw [List.append_nil] at blank
  exact h blank

/-- A text is its trimmed form between white space. -/
theorem exists_strip (t : Str) : ∃ front back, t = front ++ strip t ++ back ∧
    (∀ c ∈ front, isSpace c = true) ∧ (∀ c ∈ back, isSpace c = true) := by
  refine ⟨t.takeWhile isSpace, ((lstrip t).reverse.takeWhile isSpace).reverse, ?_,
    fun c hc => List.mem_takeWhile_imp hc,
    fun c hc => List.mem_takeWhile_imp (List.mem_reverse.mp hc)⟩
  have body : strip t ++ ((lstrip t).reverse.takeWhile isSpace).reverse = lstrip t := by
    rw [strip, rstrip, ← List.reverse_append, List.takeWhile_append_dropWhile,
      List.reverse_reverse]
  rw [List.append_assoc, body]
  exact (List.takeWhile_append_dropWhile ..).symm

/-! ## Splitting at a fixed character -/

/-- `text.split(c)`: the pieces between the occurrences of `c`, at least one. -/
def splitOnChar (c : Char) : Str → List Str
  | [] => [[]]
  | d :: ds =>
    if d = c then [] :: splitOnChar c ds
    else match splitOnChar c ds with
      | [] => [[d]]
      | piece :: rest => (d :: piece) :: rest

theorem splitOnChar_ne_nil (c : Char) (t : Str) : splitOnChar c t ≠ [] := by
  cases t with
  | nil => simp [splitOnChar]
  | cons d ds =>
    simp only [splitOnChar]
    split
    · simp
    · split <;> simp

theorem splitOnChar_free {c : Char} {t : Str} : ∀ piece ∈ splitOnChar c t, c ∉ piece := by
  induction t with
  | nil => simp [splitOnChar]
  | cons d ds ih =>
    intro piece hp
    simp only [splitOnChar] at hp
    split at hp
    · rcases List.mem_cons.mp hp with rfl | hp
      · simp
      · exact ih piece hp
    · rename_i hd
      split at hp
      · rcases List.mem_singleton.mp hp with rfl
        simpa using fun h => hd h.symm
      · rename_i first rest he
        rcases List.mem_cons.mp hp with rfl | hp
        · have hf := ih first (by simp [he])
          simpa [hf] using fun h => hd h.symm
        · exact ih piece (by simp [he, hp])

/-- Ending every piece with `c` restores the text and its own final `c`. -/
theorem flatMap_splitOnChar (c : Char) (t : Str) :
    (splitOnChar c t).flatMap (· ++ [c]) = t ++ [c] := by
  induction t with
  | nil => simp [splitOnChar]
  | cons d ds ih =>
    simp only [splitOnChar]
    split
    · rename_i hd
      simp [ih, hd]
    · split
      · rename_i he
        exact absurd he (splitOnChar_ne_nil c ds)
      · rename_i he
        rw [he] at ih
        simpa using ih

theorem splitOnChar_eq_singleton {c : Char} {t : Str} (h : c ∉ t) : splitOnChar c t = [t] := by
  induction t with
  | nil => rfl
  | cons d ds ih =>
    simp only [List.mem_cons, not_or] at h
    simp [splitOnChar, ih h.2, Ne.symm h.1]

/-- Splitting undoes joining when no part holds the separator. -/
theorem splitOnChar_join {c : Char} : ∀ {parts : List Str}, parts ≠ [] → (∀ p ∈ parts, c ∉ p) →
    splitOnChar c (join [c] parts) = parts
  | [], h, _ => absurd rfl h
  | [p], _, hfree => by simpa using splitOnChar_eq_singleton (hfree p (by simp))
  | p :: q :: rest, _, hfree => by
    have ih : splitOnChar c (join [c] (q :: rest)) = q :: rest :=
      splitOnChar_join (by simp) fun x hx => hfree x (by simp [hx])
    have prepend : ∀ (u : Str) (v : Str), c ∉ u →
        splitOnChar c (u ++ c :: v) = u :: splitOnChar c v := by
      intro u v hu
      induction u with
      | nil => simp [splitOnChar]
      | cons d ds ihd =>
        simp only [List.mem_cons, not_or] at hu
        simp [splitOnChar, ihd hu.2, Ne.symm hu.1]
    rw [join_cons_cons, List.append_assoc, List.singleton_append,
      prepend p _ (hfree p (by simp)), ih]

/-- Terminated lines are read back one by one, so the text determines them. -/
theorem terminated_injective {c : Char} : ∀ {ls ms : List Str},
    (∀ l ∈ ls, c ∉ l) → (∀ m ∈ ms, c ∉ m) →
    ls.flatMap (· ++ [c]) = ms.flatMap (· ++ [c]) → ls = ms
  | [], [], _, _, _ => rfl
  | [], m :: ms, _, _, h => by simp at h
  | l :: ls, [], _, _, h => by simp at h
  | l :: ls, m :: ms, hl, hm, h => by
    have hcl := hl l (by simp)
    have hcm := hm m (by simp)
    simp only [List.flatMap_cons, List.append_assoc, List.singleton_append] at h
    have head : l = m := by
      have htake := congrArg (List.takeWhile (· != c)) h
      have stop : ∀ {u : Str} (v : Str), c ∉ u → (u ++ c :: v).takeWhile (· != c) = u := by
        intro u v hu
        rw [List.takeWhile_append_of_pos]
        · simp
        · intro a ha
          simpa using fun he : a = c => hu (he ▸ ha)
      rwa [stop _ hcl, stop _ hcm] at htake
    subst head
    have tail := List.append_cancel_left h
    rw [terminated_injective (fun x hx => hl x (by simp [hx]))
      (fun x hx => hm x (by simp [hx])) (List.cons.inj tail).2]

end DeltaForgeBench.Base.Text
