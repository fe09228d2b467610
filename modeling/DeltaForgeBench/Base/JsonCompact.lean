import DeltaForgeBench.Base.JsonPretty

/-! # JSON on one line

The compact printer puts a blank behind every comma and colon and spells
everything outside printable ASCII by escapes, so a document has no line end
inside, and a character is a byte. -/
namespace DeltaForgeBench.Base.JsonCompact
open DeltaForgeBench.Base DeltaForgeBench.Base.Text DeltaForgeBench.Base.JsonText
open DeltaForgeBench.Base.JsonGrammar DeltaForgeBench.Base.JsonPretty

variable {ν : Type} {number : Str → ν}

def unitEscape (n : Nat) : Str :=
  ['\\', 'u', hexDigit (n / 4096), hexDigit (n / 256 % 16), hexDigit (n / 16 % 16), hexDigit (n % 16)]

/-- A code point in ASCII; beyond four digits it is a pair of surrogates. -/
def asciiChar (n : Nat) : Str :=
  if n = 0x22 then ['\\', '"']
  else if n = 0x5c then ['\\', '\\']
  else if n = 0x08 then ['\\', 'b']
  else if n = 0x0c then ['\\', 'f']
  else if n = 0x0a then ['\\', 'n']
  else if n = 0x0d then ['\\', 'r']
  else if n = 0x09 then ['\\', 't']
  else if 0x20 ≤ n ∧ n < 0x7f then [Char.ofNat n]
  else if n < 0x10000 then unitEscape n
  else unitEscape (0xd800 + (n - 0x10000) / 0x400) ++ unitEscape (0xdc00 + (n - 0x10000) % 0x400)

def asciiQuote (s : Points) : Str := '"' :: s.flatMap asciiChar ++ ['"']

mutual

def compact (p : Printer number) : Json ν → Str
  | .null => "null".toList
  | .bool true => "true".toList
  | .bool false => "false".toList
  | .num x => p.print x
  | .str s => asciiQuote s
  | .arr [] => ['[', ']']
  | .arr (v :: vs) => '[' :: compact p v ++ compactItems p vs ++ [']']
  | .obj [] => ['{', '}']
  | .obj ((k, v) :: ms) =>
    '{' :: asciiQuote k ++ [':', ' '] ++ compact p v ++ compactMembers p ms ++ ['}']

def compactItems (p : Printer number) : List (Json ν) → Str
  | [] => []
  | v :: vs => [',', ' '] ++ compact p v ++ compactItems p vs

def compactMembers (p : Printer number) : List (Points × Json ν) → Str
  | [] => []
  | (k, v) :: ms => [',', ' '] ++ asciiQuote k ++ [':', ' '] ++ compact p v ++ compactMembers p ms

end

/-! ## Strings -/

theorem chars_unitEscape {unit : Nat} (hunit : unit < 0x10000) {read s : Points} {t : Str}
    (h : Chars (appendUnit read unit) t s) : Chars read (unitEscape unit ++ t) s := by
  have value : ((unit / 4096 * 16 + unit / 256 % 16) * 16 + unit / 16 % 16) * 16 + unit % 16 =
      unit := by omega
  exact .unit (hexValue_hexDigit _ (by omega)) (hexValue_hexDigit _ (by omega))
    (hexValue_hexDigit _ (by omega)) (hexValue_hexDigit _ (by omega)) (value.symm ▸ h)

theorem appendUnit_other (read : Points) {unit : Nat} (h : ¬ (0xdc00 ≤ unit ∧ unit ≤ 0xdfff)) :
    appendUnit read unit = read ++ [unit] := by
  unfold appendUnit
  split
  · rw [if_neg fun hpair => h hpair.2.2]
  · rfl

/-- A pair of surrogates is read as one code point. -/
theorem appendUnit_pair (read : Points) {n : Nat} (h : 0x10000 ≤ n) (h' : n < 0x110000) :
    appendUnit (appendUnit read (0xd800 + (n - 0x10000) / 0x400))
      (0xdc00 + (n - 0x10000) % 0x400) = read ++ [n] := by
  have point : 0x10000 + (0xd800 + (n - 0x10000) / 0x400 - 0xd800) * 0x400 +
      (0xdc00 + (n - 0x10000) % 0x400 - 0xdc00) = n := by omega
  rw [appendUnit_other read (by omega), appendUnit, List.getLast?_concat]
  dsimp only
  rw [if_pos (by omega), List.dropLast_concat, point]

theorem chars_asciiChar {n : Nat} (hn : n.isValidChar) {read s : Points} {t : Str}
    (h : Chars (read ++ [n]) t s) : Chars read (asciiChar n ++ t) s := by
  unfold asciiChar
  by_cases h22 : n = 0x22
  · subst h22; exact .escape rfl h
  by_cases h5c : n = 0x5c
  · subst h5c; exact .escape rfl h
  by_cases h08 : n = 0x08
  · subst h08; exact .escape rfl h
  by_cases h0c : n = 0x0c
  · subst h0c; exact .escape rfl h
  by_cases h0a : n = 0x0a
  · subst h0a; exact .escape rfl h
  by_cases h0d : n = 0x0d
  · subst h0d; exact .escape rfl h
  by_cases h09 : n = 0x09
  · subst h09; exact .escape rfl h
  simp only [h22, h5c, h08, h0c, h0a, h0d, h09, if_false]
  by_cases hplain : 0x20 ≤ n ∧ n < 0x7f
  · rw [if_pos hplain]
    exact chars_plain hn h22 h5c hplain.1 h
  rw [if_neg hplain]
  have valid : n < 0xd800 ∨ 0xdfff < n ∧ n < 0x110000 := hn
  by_cases hunit : n < 0x10000
  · rw [if_pos hunit]
    rw [← appendUnit_other read (by omega)] at h
    exact chars_unitEscape hunit h
  · rw [if_neg hunit, List.append_assoc]
    rw [← appendUnit_pair read (by omega) (by omega)] at h
    exact chars_unitEscape (by omega) (chars_unitEscape (by omega) h)

theorem chars_asciiPoints {s : Points} (hs : ∀ n ∈ s, n.isValidChar) :
    Chars [] (s.flatMap asciiChar) s := by
  have spelt := Chars.of_flatMap (g := id) (fun n hn _ _ _ h => chars_asciiChar (hs n hn) h) []
  rwa [List.map_id] at spelt

/-! ## Values -/

mutual

/-- What is printed of a value is derived for it. -/
theorem value_compact (p : Printer number) : ∀ (v : Json ν), Printable v →
    Value (Lenient number) (compact p v) v
  | .null, _ => .scalar ⟨rfl, List.all_eq_true.mp rfl⟩
  | .bool true, _ => .scalar ⟨rfl, List.all_eq_true.mp rfl⟩
  | .bool false, _ => .scalar ⟨rfl, List.all_eq_true.mp rfl⟩
  | .num x, _ => .scalar ⟨p.reads x, p.chars x⟩
  | .str _, h => .string (chars_asciiPoints h)
  | .arr [], _ => .emptyArray (w := []) rfl
  | .arr (v :: vs), h => by
    obtain ⟨hv, hvs⟩ := h
    have items := items_compact p vs hvs (w := []) rfl (value_compact p v hv)
    simpa [compact] using Value.array items
  | .obj [], _ => .emptyObject (w := []) rfl
  | .obj ((k, v) :: ms), h => by
    obtain ⟨hnodup, hk, hv, hms⟩ := h
    have members := members_compact p ms hms (w := []) rfl hk (value_compact p v hv)
    have object := Value.object members
    rw [Dict.foldl_set hnodup] at object
    simpa [compact, asciiQuote] using object

theorem items_compact (p : Printer number) : ∀ (vs : List (Json ν)), PrintableItems vs →
    ∀ {w t : Str} {v : Json ν}, White w → Value (Lenient number) t v →
    Items (Lenient number) (w ++ (t ++ compactItems p vs)) (v :: vs)
  | [], _, _, _, _, hw, ht => .last (z := []) hw ht rfl
  | v' :: vs, h, w, t, v, hw, ht => by
    obtain ⟨hv', hvs⟩ := h
    have rest := items_compact p vs hvs (w := [' ']) rfl (value_compact p v' hv')
    simpa [compactItems] using Items.more hw ht (z := []) rfl rest

theorem members_compact (p : Printer number) : ∀ (ms : List (Points × Json ν)),
    PrintableMembers ms → ∀ {w t : Str} {k : Points} {v : Json ν}, White w →
    (∀ n ∈ k, n.isValidChar) → Value (Lenient number) t v →
    Members (Lenient number)
      (w ++ '"' :: (k.flatMap asciiChar ++ '"' :: ':' :: ' ' :: (t ++ compactMembers p ms)))
      ((k, v) :: ms)
  | [], _, _, _, _, _, hw, hk, ht =>
    .last (x := []) (y := [' ']) (z := []) hw (chars_asciiPoints hk) rfl rfl ht rfl
  | (k', v') :: ms, h, w, t, k, v, hw, hk, ht => by
    obtain ⟨hk', hv', hms⟩ := h
    have rest := members_compact p ms hms (w := [' ']) rfl hk' (value_compact p v' hv')
    have more := Members.more (x := []) (y := [' ']) (z := []) hw (chars_asciiPoints hk) rfl rfl ht
      rfl rest
    simpa [compactMembers, asciiQuote] using more

end

/-- **What is printed of a value is a document of that value.** -/
theorem loads_compact (p : Printer number) {v : Json ν} (h : Printable v) :
    loads number (compact p v) = some v := by
  have document := Document.mk (w := []) (z := []) rfl (value_compact p v h) rfl
  rw [List.nil_append, List.append_nil] at document
  exact loads_document (fun _ _ h => h) document

/-! ## The printed text -/

/-- Printable ASCII. -/
def Ascii (t : Str) : Prop := ∀ c ∈ t, 0x20 ≤ c.toNat ∧ c.toNat < 0x7f

theorem Ascii.append {t u : Str} (ht : Ascii t) (hu : Ascii u) : Ascii (t ++ u) :=
  fun c hc => (List.mem_append.mp hc).elim (ht c) (hu c)

theorem Ascii.cons {c : Char} {t : Str} (hc : 0x20 ≤ c.toNat ∧ c.toNat < 0x7f) (ht : Ascii t) :
    Ascii (c :: t) :=
  List.forall_mem_cons.mpr ⟨hc, ht⟩

theorem ascii_of_all {t : Str} (h : (t.all fun c => 0x20 ≤ c.toNat && c.toNat < 0x7f) = true) :
    Ascii t := by
  simpa [Ascii] using h

theorem ascii_scalar {c : Char} (h : isScalarChar c = true) : 0x20 ≤ c.toNat ∧ c.toNat < 0x7f := by
  have hval : c.val.toNat = c.toNat := rfl
  have plus : c = '+' → c.toNat = 43 := congrArg Char.toNat
  have minus : c = '-' → c.toNat = 45 := congrArg Char.toNat
  have point : c = '.' → c.toNat = 46 := congrArg Char.toNat
  simp only [isScalarChar, isDigit, isLetter, Bool.or_eq_true, Bool.and_eq_true, decide_eq_true_eq,
    Char.le_def, UInt32.le_iff_toNat_le, hval, Char.reduceVal, UInt32.reduceToNat] at h
  have code := h.imp (fun h => h.imp (fun h => h.imp_right plus) minus) point
  omega

theorem ascii_hexDigit (n : Nat) : 0x20 ≤ (hexDigit n).toNat ∧ (hexDigit n).toNat < 0x7f := by
  unfold hexDigit
  cases h : ("0123456789abcdef".toList)[n]? with
  | none => exact ⟨by decide, by decide⟩
  | some c =>
    have digits : Ascii "0123456789abcdef".toList := ascii_of_all rfl
    exact digits c (List.mem_of_getElem? h)

theorem ascii_unitEscape (n : Nat) : Ascii (unitEscape n) :=
  .cons (by decide) (.cons (by decide) (.cons (ascii_hexDigit _) (.cons (ascii_hexDigit _)
    (.cons (ascii_hexDigit _) (.cons (ascii_hexDigit _) nofun)))))

theorem ascii_asciiChar (n : Nat) : Ascii (asciiChar n) := by
  unfold asciiChar
  split
  · exact ascii_of_all rfl
  split
  · exact ascii_of_all rfl
  split
  · exact ascii_of_all rfl
  split
  · exact ascii_of_all rfl
  split
  · exact ascii_of_all rfl
  split
  · exact ascii_of_all rfl
  split
  · exact ascii_of_all rfl
  split
  · rename_i hplain
    have code : (Char.ofNat n).toNat = n := by
      rw [Char.ofNat, dif_pos (show n.isValidChar from .inl (by omega))]
      rfl
    exact .cons (by rwa [code]) nofun
  split
  · exact ascii_unitEscape n
  · exact (ascii_unitEscape _).append (ascii_unitEscape _)

theorem ascii_asciiQuote (s : Points) : Ascii (asciiQuote s) := by
  have body : Ascii (s.flatMap asciiChar) := by
    intro c hc
    obtain ⟨n, -, hn⟩ := List.mem_flatMap.mp hc
    exact ascii_asciiChar n c hn
  exact .cons (by decide) (body.append (.cons (by decide) nofun))

mutual

theorem ascii_compact (p : Printer number) : ∀ v : Json ν, Ascii (compact p v)
  | .null => ascii_of_all rfl
  | .bool true => ascii_of_all rfl
  | .bool false => ascii_of_all rfl
  | .num x => fun c hc => ascii_scalar (p.chars x c hc)
  | .str s => ascii_asciiQuote s
  | .arr [] => ascii_of_all rfl
  | .arr (v :: vs) => .append (.append (.cons (by decide) (ascii_compact p v)) (ascii_compactItems p vs))
      (ascii_of_all rfl)
  | .obj [] => ascii_of_all rfl
  | .obj ((k, v) :: ms) => .append (.append (.append (.append (.cons (by decide) (ascii_asciiQuote k))
      (ascii_of_all rfl)) (ascii_compact p v)) (ascii_compactMembers p ms)) (ascii_of_all rfl)

theorem ascii_compactItems (p : Printer number) : ∀ vs : List (Json ν), Ascii (compactItems p vs)
  | [] => nofun
  | v :: vs => .append (.append (ascii_of_all rfl) (ascii_compact p v)) (ascii_compactItems p vs)

theorem ascii_compactMembers (p : Printer number) :
    ∀ ms : List (Points × Json ν), Ascii (compactMembers p ms)
  | [] => nofun
  | (k, v) :: ms => .append (.append (.append (.append (ascii_of_all rfl) (ascii_asciiQuote k))
      (ascii_of_all rfl)) (ascii_compact p v)) (ascii_compactMembers p ms)

end

/-- An object's text from its first character to its last. -/
theorem compact_object (p : Printer number) (ms : List (Points × Json ν)) :
    ∃ inner, compact p (.obj ms) = '{' :: inner ++ ['}'] := by
  cases ms with
  | nil => exact ⟨[], rfl⟩
  | cons m ms =>
    obtain ⟨k, v⟩ := m
    exact ⟨asciiQuote k ++ [':', ' '] ++ compact p v ++ compactMembers p ms, by simp [compact]⟩

/-- **No proper beginning of an object's text is a document.** -/
theorem loads_cut (p : Printer number) {ms : List (Points × Json ν)} (h : Printable (.obj ms))
    {q r : Str} (hcut : q ++ r = compact p (.obj ms)) (hr : r ≠ []) : loads number q = none := by
  obtain ⟨inner, htext⟩ := compact_object p ms
  have whole := loads_eq_some.mp (loads_compact p h)
  have last : '}' ∈ r := by
    have hlast : (q ++ r).getLast? = some '}' := by rw [hcut, htext, List.getLast?_concat]
    rw [List.getLast?_append_of_ne_nil _ hr] at hlast
    exact List.mem_of_getLast? hlast
  cases q with
  | nil => rfl
  | cons c cs =>
    have first : c = '{' := by
      have e := hcut.trans htext
      exact (List.cons.inj e).1
    subst first
    refine loads_beginning_of_object (r := r ++ ['\n']) (v := .obj ms) ?_ ?_
    · rw [← List.append_assoc, hcut]
      exact whole
    · rw [Bool.eq_false_iff]
      intro hall
      have white := List.all_eq_true.mp hall '}' (List.mem_append_left _ last)
      cases white

end DeltaForgeBench.Base.JsonCompact
