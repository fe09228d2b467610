import DeltaForgeBench.Base.JsonGrammar

/-! # Printing JSON

A printer that puts every member and every item on a line of its own, two
blanks deeper than its container, and escapes nothing but quotes, backslashes
and control characters. What it prints of a value is a document of that value. -/
namespace DeltaForgeBench.Base.JsonPretty
open DeltaForgeBench.Base DeltaForgeBench.Base.Text DeltaForgeBench.Base.JsonText
open DeltaForgeBench.Base.JsonGrammar

variable {ν : Type} {number : Str → ν}

/-- How numbers are printed. -/
structure Printer (number : Str → ν) where
  print : ν → Str
  reads : ∀ x, readScalar number (print x) = some (.num x)
  chars : ∀ x, ∀ c ∈ print x, isScalarChar c = true

def hexDigit (n : Nat) : Char := ("0123456789abcdef".toList)[n]?.getD '0'

def quoteChar (n : Nat) : Str :=
  if n = 0x22 then ['\\', '"']
  else if n = 0x5c then ['\\', '\\']
  else if n = 0x08 then ['\\', 'b']
  else if n = 0x0c then ['\\', 'f']
  else if n = 0x0a then ['\\', 'n']
  else if n = 0x0d then ['\\', 'r']
  else if n = 0x09 then ['\\', 't']
  else if n < 0x20 then ['\\', 'u', '0', '0', hexDigit (n / 16), hexDigit (n % 16)]
  else [Char.ofNat n]

def quote (s : Points) : Str := '"' :: s.flatMap quoteChar ++ ['"']

def indent (depth : Nat) : Str := List.replicate (2 * depth) ' '

mutual

def pretty (p : Printer number) (depth : Nat) : Json ν → Str
  | .null => "null".toList
  | .bool true => "true".toList
  | .bool false => "false".toList
  | .num x => p.print x
  | .str s => quote s
  | .arr [] => ['[', ']']
  | .arr (v :: vs) =>
    ['[', '\n'] ++ indent (depth + 1) ++ pretty p (depth + 1) v ++ prettyItems p (depth + 1) vs ++
      '\n' :: indent depth ++ [']']
  | .obj [] => ['{', '}']
  | .obj ((k, v) :: ms) =>
    ['{', '\n'] ++ indent (depth + 1) ++ quote k ++ [':', ' '] ++ pretty p (depth + 1) v ++
      prettyMembers p (depth + 1) ms ++ '\n' :: indent depth ++ ['}']

def prettyItems (p : Printer number) (depth : Nat) : List (Json ν) → Str
  | [] => []
  | v :: vs => [',', '\n'] ++ indent depth ++ pretty p depth v ++ prettyItems p depth vs

def prettyMembers (p : Printer number) (depth : Nat) : List (Points × Json ν) → Str
  | [] => []
  | (k, v) :: ms =>
    [',', '\n'] ++ indent depth ++ quote k ++ [':', ' '] ++ pretty p depth v ++
      prettyMembers p depth ms

end

mutual

/-- Strings hold scalar values only, and no object has a key twice. -/
def Printable : Json ν → Prop
  | .str s => ∀ n ∈ s, n.isValidChar
  | .arr items => PrintableItems items
  | .obj members => (members.map Prod.fst).Nodup ∧ PrintableMembers members
  | _ => True

def PrintableItems : List (Json ν) → Prop
  | [] => True
  | v :: vs => Printable v ∧ PrintableItems vs

def PrintableMembers : List (Points × Json ν) → Prop
  | [] => True
  | (k, v) :: ms => (∀ n ∈ k, n.isValidChar) ∧ Printable v ∧ PrintableMembers ms

end

/-! ## White space and strings -/

theorem white_newline_indent (depth : Nat) : White ('\n' :: indent depth) := by
  simp [White, indent, isWhite]

theorem hexValue_hexDigit : ∀ n < 16, hexValue (hexDigit n) = some n := by decide

theorem appendUnit_low (read : Points) {n : Nat} (h : n < 0xdc00) :
    appendUnit read n = read ++ [n] := by
  unfold appendUnit
  split
  · rw [if_neg (by omega)]
  · rfl

theorem toNat_ofNat {n : Nat} (hn : n.isValidChar) : (Char.ofNat n).toNat = n := by
  rw [Char.ofNat, dif_pos hn]
  rfl

/-- A control character is spelt by two hexadecimal digits. -/
theorem chars_control {n : Nat} (hn : n < 0x20) {read s : Points} {t : Str}
    (h : Chars (read ++ [n]) t s) :
    Chars read ('\\' :: 'u' :: '0' :: '0' :: hexDigit (n / 16) :: hexDigit (n % 16) :: t) s := by
  have unit : ((0 * 16 + 0) * 16 + n / 16) * 16 + n % 16 = n := by omega
  have zero : hexValue '0' = some 0 := rfl
  refine .unit zero zero (hexValue_hexDigit _ (by omega))
    (hexValue_hexDigit _ (by omega)) ?_
  rwa [unit, appendUnit_low read (show n < 0xdc00 by omega)]

/-- A character that needs no escape. -/
theorem chars_plain {n : Nat} (hn : n.isValidChar) (h22 : n ≠ 0x22) (h5c : n ≠ 0x5c)
    (hlow : 0x20 ≤ n) {read s : Points} {t : Str} (h : Chars (read ++ [n]) t s) :
    Chars read (Char.ofNat n :: t) s := by
  have code := toNat_ofNat hn
  have quote : Char.ofNat n ≠ '"' := fun e => h22 (by rw [← code, e]; rfl)
  have back : Char.ofNat n ≠ '\\' := fun e => h5c (by rw [← code, e]; rfl)
  exact .plain quote back (code.symm ▸ hlow) (code.symm ▸ h)

/-- A printed character is one of a string. -/
theorem chars_quoteChar {n : Nat} (hn : n.isValidChar) {read s : Points} {t : Str}
    (h : Chars (read ++ [n]) t s) : Chars read (quoteChar n ++ t) s := by
  unfold quoteChar
  by_cases h22 : n = 0x22
  · subst h22; exact .escape rfl h
  by_cases h5c : n = 0x5c
  · subst h5c; exact .escape rfl h
  by_cases h08 : n = 0x08
  · subst h08; exact .escape rfl h
  by_cases h0c : n = 0x0c
  · subst h0c; exact .escape rfl h
  by_cases h0a : n = 0x0a
  · subst h0a; exact .escape rfl h
  by_cases h0d : n = 0x0d
  · subst h0d; exact .escape rfl h
  by_cases h09 : n = 0x09
  · subst h09; exact .escape rfl h
  simp only [h22, h5c, h08, h0c, h0a, h0d, h09, if_false]
  by_cases hlow : n < 0x20
  · rw [if_pos hlow]
    exact chars_control hlow h
  · rw [if_neg hlow]
    exact chars_plain hn h22 h5c (by omega) h

theorem chars_points {s : Points} (hs : ∀ n ∈ s, n.isValidChar) :
    Chars [] (s.flatMap quoteChar) s := by
  have spelt := Chars.of_flatMap (g := id) (fun n hn _ _ _ h => chars_quoteChar (hs n hn) h) []
  rwa [List.map_id] at spelt

/-! ## Values -/

mutual

/-- What is printed of a value is derived for it. -/
theorem value_pretty (p : Printer number) : ∀ (v : Json ν), Printable v → ∀ depth : Nat,
    Value (Lenient number) (pretty p depth v) v
  | .null, _, _ => .scalar ⟨rfl, List.all_eq_true.mp rfl⟩
  | .bool true, _, _ => .scalar ⟨rfl, List.all_eq_true.mp rfl⟩
  | .bool false, _, _ => .scalar ⟨rfl, List.all_eq_true.mp rfl⟩
  | .num x, _, _ => .scalar ⟨p.reads x, p.chars x⟩
  | .str _, h, _ => .string (chars_points h)
  | .arr [], _, _ => .emptyArray (w := []) rfl
  | .arr (v :: vs), h, depth => by
    obtain ⟨hv, hvs⟩ := h
    have items := items_pretty p vs hvs (depth + 1) (white_newline_indent (depth + 1))
      (value_pretty p v hv (depth + 1)) (white_newline_indent depth)
    simpa [pretty] using Value.array items
  | .obj [], _, _ => .emptyObject (w := []) rfl
  | .obj ((k, v) :: ms), h, depth => by
    obtain ⟨hnodup, hk, hv, hms⟩ := h
    have members := members_pretty p ms hms (depth + 1) (white_newline_indent (depth + 1)) hk
      (value_pretty p v hv (depth + 1)) (white_newline_indent depth)
    have object := Value.object members
    rw [Dict.foldl_set hnodup] at object
    simpa [pretty, quote] using object

theorem items_pretty (p : Printer number) : ∀ (vs : List (Json ν)), PrintableItems vs →
    ∀ (depth : Nat) {w t w' : Str} {v : Json ν}, White w → Value (Lenient number) t v → White w' →
    Items (Lenient number) (w ++ (t ++ (prettyItems p depth vs ++ w'))) (v :: vs)
  | [], _, _, _, _, _, _, hw, ht, hw' => .last hw ht hw'
  | v' :: vs, h, depth, w, t, w', v, hw, ht, hw' => by
    obtain ⟨hv', hvs⟩ := h
    have rest := items_pretty p vs hvs depth (white_newline_indent depth)
      (value_pretty p v' hv' depth) hw'
    simpa [prettyItems] using Items.more hw ht (z := []) rfl rest

theorem members_pretty (p : Printer number) : ∀ (ms : List (Points × Json ν)), PrintableMembers ms →
    ∀ (depth : Nat) {w t w' : Str} {k : Points} {v : Json ν}, White w → (∀ n ∈ k, n.isValidChar) →
    Value (Lenient number) t v → White w' →
    Members (Lenient number)
      (w ++ '"' :: (k.flatMap quoteChar ++ '"' :: ':' :: ' ' :: (t ++ (prettyMembers p depth ms ++ w'))))
      ((k, v) :: ms)
  | [], _, _, _, _, _, _, _, hw, hk, ht, hw' =>
    .last (x := []) (y := [' ']) hw (chars_points hk) rfl rfl ht hw'
  | (k', v') :: ms, h, depth, w, t, w', k, v, hw, hk, ht, hw' => by
    obtain ⟨hk', hv', hms⟩ := h
    have rest := members_pretty p ms hms depth (white_newline_indent depth) hk'
      (value_pretty p v' hv' depth) hw'
    have more := Members.more (x := []) (y := [' ']) (z := []) hw (chars_points hk) rfl rfl ht rfl
      rest
    simpa [prettyMembers, quote] using more

end

/-- **What is printed of a value is a document of that value.** -/
theorem loads_pretty (p : Printer number) {v : Json ν} (h : Printable v) :
    loads number (pretty p 0 v) = some v := by
  have document := Document.mk (w := []) (z := []) rfl (value_pretty p v h 0) rfl
  rw [List.nil_append, List.append_nil] at document
  exact loads_document (fun _ _ h => h) document

end DeltaForgeBench.Base.JsonPretty
