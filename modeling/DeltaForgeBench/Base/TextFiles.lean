import DeltaForgeBench.Base.Text

/-! # Text files of lines, cut anywhere

A file is the bytes of its text. The readers here take it line by line and pass
over blank lines. When every line was written with its end, what is left of a
file cut at any byte is the lines that are whole, and a beginning of the next. -/
namespace DeltaForgeBench.Base.TextFiles
open DeltaForgeBench.Base.Text

/-! ## Bytes -/

/-- `text.encode("utf-8")`, byte by byte. -/
def encode (t : Str) : List UInt8 := t.flatMap String.utf8EncodeChar

def decode (b : List UInt8) : Option Str := b.toByteArray.utf8Decode?.map Array.toList

theorem decode_encode (t : Str) : decode (encode t) = some t := by
  have whole : (encode t).toByteArray = List.utf8Encode t := rfl
  rw [decode, whole, List.utf8Decode?_utf8Encode]
  rfl

/-- In ASCII a cut between bytes is a cut between characters. -/
theorem take_encode {t : Str} (h : ∀ c ∈ t, c.toNat < 0x80) (n : Nat) :
    (encode t).take n = encode (t.take n) := by
  have single : ∀ u : Str, (∀ c ∈ u, c.toNat < 0x80) → encode u = u.map fun c => c.val.toUInt8 := by
    intro u hu
    induction u with
    | nil => rfl
    | cons c cs ih =>
      obtain ⟨hc, hcs⟩ := List.forall_mem_cons.mp hu
      have size : c.utf8Size = 1 := by
        have small : c.val ≤ 0x7f := UInt32.le_iff_toNat_le.mpr (Nat.le_of_lt_succ hc)
        simp [Char.utf8Size, small]
      rw [encode, List.flatMap_cons, String.utf8EncodeChar_eq_singleton size, ← encode, ih hcs]
      rfl
  rw [single t h, single _ fun c hc => h c (List.mem_of_mem_take hc), List.map_take]

/-! ## Lines -/

/-- What text mode makes of the line ends. -/
def translate : Str → Str
  | [] => []
  | '\r' :: '\n' :: cs => '\n' :: translate cs
  | c :: cs => (if c = '\r' then '\n' else c) :: translate cs

/-- The lines of a text file, stripped, without the blank ones. -/
def contentLines (t : Str) : List Str :=
  ((splitOnChar '\n' (translate t)).map strip).filter (· ≠ [])

/-- Neither of the two characters that end a line. -/
def Unbroken (t : Str) : Prop := '\n' ∉ t ∧ '\r' ∉ t

theorem translate_append {t : Str} (h : '\r' ∉ t) (u : Str) :
    translate (t ++ u) = t ++ translate u := by
  induction t with
  | nil => rfl
  | cons c cs ih =>
    obtain ⟨hc, hcs⟩ : c ≠ '\r' ∧ '\r' ∉ cs := by simpa [eq_comm] using h
    rw [List.cons_append, translate, if_neg hc, ih hcs]
    · rfl
    · exact fun _ e => absurd e hc

theorem splitOnChar_line {c : Char} {t : Str} (h : c ∉ t) (u : Str) :
    splitOnChar c (t ++ c :: u) = t :: splitOnChar c u := by
  induction t with
  | nil => simp [splitOnChar]
  | cons d ds ih =>
    obtain ⟨hd, hds⟩ : d ≠ c ∧ c ∉ ds := by simpa [eq_comm] using h
    simp [splitOnChar, hd, ih hds]

/-- A line as the readers take it. -/
def content (t : Str) : List Str := if strip t = [] then [] else [strip t]

theorem contentLines_line {t : Str} (h : Unbroken t) (u : Str) :
    contentLines (t ++ '\n' :: u) = content t ++ contentLines u := by
  have rest : translate ('\n' :: u) = '\n' :: translate u := by
    rw [translate]
    · rfl
    · exact fun _ e => absurd e (by decide)
  rw [contentLines, translate_append h.2, rest, splitOnChar_line h.1, List.map_cons,
    List.filter_cons]
  unfold content contentLines
  by_cases hblank : strip t = [] <;> simp [hblank]

theorem contentLines_last {t : Str} (h : Unbroken t) : contentLines t = content t := by
  have whole := translate_append h.2 []
  rw [List.append_nil] at whole
  rw [contentLines, whole, show translate [] = [] from rfl, List.append_nil,
    splitOnChar_eq_singleton h.1]
  unfold content
  by_cases hblank : strip t = [] <;> simp [hblank]

/-! ## A cut -/

section Cut
variable {ρ : Type} (text : ρ → Str)

/-- A line for each record. -/
def written (records : List ρ) : Str := records.flatMap fun r => text r ++ ['\n']

/-- The records whose text lies within the first `n` characters. -/
def whole : Nat → List ρ → List ρ
  | _, [] => []
  | n, r :: rs => if (text r).length ≤ n then r :: whole (n - ((text r).length + 1)) rs else []

/-- The beginning of the next one. -/
def torn : Nat → List ρ → Str
  | _, [] => []
  | n, r :: rs =>
    if (text r).length ≤ n then torn (n - ((text r).length + 1)) rs else (text r).take n

variable {text}

/-- What a torn line is a beginning of. -/
theorem torn_of_ne_nil {n : Nat} {records : List ρ} (h : torn text n records ≠ []) :
    ∃ r ∈ records, ∃ rest, rest ≠ [] ∧ torn text n records ++ rest = text r := by
  induction records generalizing n with
  | nil => exact absurd rfl h
  | cons r rs ih =>
    unfold torn at h ⊢
    split
    · rename_i hlen
      rw [if_pos hlen] at h
      obtain ⟨r', hr', hrest⟩ := ih h
      exact ⟨r', List.mem_cons_of_mem _ hr', hrest⟩
    · rename_i hlen
      refine ⟨r, List.mem_cons_self, (text r).drop n, ?_, List.take_append_drop n _⟩
      intro he
      exact hlen (List.drop_eq_nil_iff.mp he)

/-- Nothing is whole, and nothing torn, in the first zero characters. -/
theorem cut_zero {records : List ρ} (h : ∀ r ∈ records, text r ≠ []) :
    whole text 0 records = [] ∧ torn text 0 records = [] := by
  cases records with
  | nil => exact ⟨rfl, rfl⟩
  | cons r rs =>
    have long : ¬ (text r).length ≤ 0 := by
      simpa [List.length_eq_zero_iff] using h r List.mem_cons_self
    simp [whole, torn, long]

/-- **A reader sees the whole lines of a cut file, and the torn one.** -/
theorem contentLines_take {records : List ρ}
    (h : ∀ r ∈ records, Unbroken (text r) ∧ text r ≠ [] ∧ strip (text r) = text r) (n : Nat) :
    contentLines ((written text records).take n) =
      (whole text n records).map text ++ content (torn text n records) := by
  induction records generalizing n with
  | nil => simp [written, whole, torn, contentLines, translate, splitOnChar, content, strip, lstrip,
      rstrip]
  | cons r rs ih =>
    obtain ⟨⟨hunbroken, hne, hstrip⟩, hrs⟩ := List.forall_mem_cons.mp h
    have line : content (text r) = [text r] := by simp [content, hstrip, hne]
    have split : written text (r :: rs) = text r ++ '\n' :: written text rs := by simp [written]
    rw [split, List.take_append]
    by_cases hlen : (text r).length ≤ n
    · simp only [whole, torn, if_pos hlen, List.take_of_length_le hlen, List.map_cons,
        List.cons_append]
      cases hk : n - (text r).length with
      | zero =>
        -- the file ends right before the line end
        have next := cut_zero fun r hr => (hrs r hr).2.1
        rw [show n - ((text r).length + 1) = 0 by omega, next.1, next.2, List.take_zero,
          List.append_nil, contentLines_last hunbroken, line]
        simp [content, strip, lstrip, rstrip]
      | succ k =>
        rw [show n - ((text r).length + 1) = k by omega, List.take_succ_cons,
          contentLines_line hunbroken, ih hrs, line]
        rfl
    · have short : n - (text r).length = 0 := by omega
      have part : Unbroken ((text r).take n) :=
        ⟨fun hmem => hunbroken.1 (List.mem_of_mem_take hmem),
          fun hmem => hunbroken.2 (List.mem_of_mem_take hmem)⟩
      simp only [whole, torn, if_neg hlen, short, List.take_zero, List.append_nil, List.map_nil,
        List.nil_append]
      exact contentLines_last part

end Cut

end DeltaForgeBench.Base.TextFiles
