import DeltaForgeBench.Base.Numeral

/-! # Command lines of options

`argparse` for a parser that has options only: how it tells an option string
from the value of one, and which options with which values a command line is
read as. Whatever makes the parser exit is one outcome here. Options take one
value or none. Digits are those of ASCII. -/
namespace DeltaForgeBench.Base.CommandLine
open DeltaForgeBench.Base.Text DeltaForgeBench.Base.Numeral

variable {δ : Type*}

/-- The option strings of a parser, in the order they were added. -/
structure Options (δ : Type*) where
  strings : List (Str × δ)
  takesValue : δ → Bool

inductive Token (δ : Type*)
  | argument
  | option (action : δ) (explicit : Option Str)
  | refused

/-- `-\d+` or `-\d*\.\d+`, up to a line feed at the very end. -/
def isNegativeNumber (s : Str) : Bool :=
  match s with
  | '-' :: t =>
    let whole := t.takeWhile isDigit
    match t.dropWhile isDigit with
    | '.' :: rest =>
      !(rest.takeWhile isDigit).isEmpty && [[], ['\n']].contains (rest.dropWhile isDigit)
    | rest => !whole.isEmpty && [[], ['\n']].contains rest
  | _ => false

namespace Options

def lookup (o : Options δ) (s : Str) : Option δ := (o.strings.find? (·.1 = s)).map (·.2)

/-- `--option=value`, with the option spelled out. -/
def assigned (o : Options δ) (s : Str) : Option (δ × Str) :=
  match s.dropWhile (· ≠ '=') with
  | _ :: value => (o.lookup (s.takeWhile (· ≠ '='))).map (·, value)
  | [] => none

/-- `_get_option_tuples`. -/
def abbreviated (o : Options δ) (s : Str) : List (δ × Option Str) :=
  match s with
  | '-' :: '-' :: _ =>
    let explicit := match s.dropWhile (· ≠ '=') with
      | _ :: value => some value
      | [] => none
    (o.strings.filter fun p => (s.takeWhile (· ≠ '=')).isPrefixOf p.1).map fun p => (p.2, explicit)
  | '-' :: c :: value =>
    o.strings.filterMap fun p =>
      if p.1 = ['-', c] then some (p.2, some value)
      else if s.isPrefixOf p.1 then some (p.2, none) else none
  | _ => []

/-- `_parse_optional`. -/
def classify (o : Options δ) (s : Str) : Token δ :=
  match s with
  | '-' :: more =>
    if more = ['-'] then .refused
    else match o.lookup s with
    | some action => .option action none
    | none =>
      if more = [] then .argument
      else match o.assigned s with
      | some (action, value) => .option action (some value)
      | none =>
        match o.abbreviated s with
        | [(action, explicit)] => .option action explicit
        | _ :: _ :: _ => .refused
        | [] =>
          if isNegativeNumber s && !o.strings.any (isNegativeNumber ·.1) then .argument
          else if s.contains ' ' then .argument else .refused
  | _ => .argument

def isArgument (o : Options δ) (s : Str) : Bool :=
  match o.classify s with
  | .argument => true
  | _ => false

/-- `parse_args`: the options in the order they are met. -/
def parse (o : Options δ) : List Str → Option (List (δ × Option Str))
  | [] => some []
  | s :: rest =>
    match o.classify s with
    | .option action (some value) =>
      if o.takesValue action then (o.parse rest).map ((action, some value) :: ·) else none
    | .option action none =>
      if o.takesValue action then
        match rest with
        | value :: rest' =>
          if o.isArgument value then (o.parse rest').map ((action, some value) :: ·) else none
        | [] => none
      else (o.parse rest).map ((action, none) :: ·)
    | _ => none

/-! ## Reading what a program has put together -/

variable {o : Options δ} {option value : Str} {action : δ}

/-- The string is one of those the option is written with. -/
structure Spelled (o : Options δ) (option : Str) (action : δ) : Prop where
  known : o.lookup option = some action
  dash : option.head? = some '-'
  long : option ≠ ['-', '-']

theorem Spelled.classify (h : o.Spelled option action) :
    o.classify option = .option action none := by
  obtain ⟨known, dash, long⟩ := h
  cases option with
  | nil => cases dash
  | cons c more =>
    obtain rfl := Option.some.inj dash
    have hmore : more ≠ ['-'] := fun h => long (by rw [h])
    simp only [Options.classify, known, if_neg hmore]

theorem Spelled.parse_value (h : o.Spelled option action) (htakes : o.takesValue action = true)
    (rest : List Str) :
    o.parse (option :: value :: rest) =
      if o.isArgument value then (o.parse rest).map ((action, some value) :: ·) else none := by
  simp [parse, h.classify, htakes]

theorem Spelled.parse_flag (h : o.Spelled option action) (htakes : o.takesValue action = false)
    (rest : List Str) : o.parse (option :: rest) = (o.parse rest).map ((action, none) :: ·) := by
  simp [parse, h.classify, htakes]

/-- A text that does not begin with a dash is a value. -/
theorem isArgument_plain (h : value.head? ≠ some '-') : o.isArgument value = true := by
  cases value with
  | nil => rfl
  | cons c more =>
    have hc : c ≠ '-' := fun hc => h (by rw [hc]; rfl)
    have hclass : o.classify (c :: more) = .argument := by
      unfold classify
      split
      next heq => exact absurd (List.cons.inj heq).1 hc
      next => rfl
    simp only [isArgument, hclass]

/-- No option looks like a negative number. -/
structure Wordy (o : Options δ) : Prop where
  second : ∀ p ∈ o.strings, ∀ d, p.1[1]? = some d → isDigit d = false
  numbers : o.strings.any (isNegativeNumber ·.1) = false

theorem isNegativeNumber_digits {ds : Str} (hne : ds ≠ []) (h : ∀ c ∈ ds, isDigit c = true) :
    isNegativeNumber ('-' :: ds) = true := by
  have htake : ds.takeWhile isDigit = ds := List.takeWhile_eq_self_iff.mpr h
  have hdrop : ds.dropWhile isDigit = [] := List.dropWhile_eq_nil_iff.mpr h
  simp [isNegativeNumber, htake, hdrop, hne]

/-- A negative number is a value unless some option looks like one. -/
theorem Wordy.isArgument_negative (ho : o.Wordy) {ds : Str} (hne : ds ≠ [])
    (h : ∀ c ∈ ds, isDigit c = true) : o.isArgument ('-' :: ds) = true := by
  obtain ⟨d, more, rfl⟩ := List.exists_cons_of_ne_nil hne
  have hd : isDigit d = true := h d (by simp)
  have hdash : d ≠ '-' := by
    rintro rfl
    exact absurd hd (by decide)
  have other : ∀ p ∈ o.strings, p.1[1]? ≠ some d := by
    intro p hp hsecond
    rw [ho.second p hp d hsecond] at hd
    cases hd
  have hlookup : o.lookup ('-' :: d :: more) = none := by
    simp only [lookup, Option.map_eq_none_iff, List.find?_eq_none, decide_eq_true_eq]
    exact fun p hp heq => other p hp (by simp [heq])
  have hassigned : o.assigned ('-' :: d :: more) = none := by
    have hfree : ('-' :: d :: more).dropWhile (fun c => decide (c ≠ '=')) = [] := by
      rw [List.dropWhile_eq_nil_iff]
      intro c hc
      rcases List.mem_cons.mp hc with rfl | hc
      · rfl
      · have := h c hc
        exact decide_eq_true fun heq => by
          rw [heq] at this
          exact absurd this (by decide)
    simp only [assigned, hfree]
  have habbreviated : o.abbreviated ('-' :: d :: more) = [] := by
    unfold abbreviated
    split
    next heq => exact absurd (List.cons.inj (List.cons.inj heq).2).1 hdash
    next heq =>
      obtain ⟨-, heq⟩ := List.cons.inj heq
      obtain ⟨rfl, rfl⟩ := List.cons.inj heq
      rw [List.filterMap_eq_nil_iff]
      intro p hp
      have hshort : p.1 ≠ ['-', d] := fun heq => other p hp (by simp [heq])
      have hlong : ¬ ('-' :: d :: more).isPrefixOf p.1 = true := by
        rw [List.isPrefixOf_iff_prefix]
        rintro ⟨rest, heq⟩
        exact other p hp (by simp [← heq])
      simp only [if_neg hshort, if_neg hlong]
    next hnone => exact absurd rfl (hnone d more)
  have hclass : o.classify ('-' :: d :: more) = .argument := by
    simp [classify, hlookup, hassigned, habbreviated, hdash, isNegativeNumber_digits hne h, ho.numbers]
  simp only [isArgument, hclass]

/-- The strings are read as these options, whatever comes behind them. -/
def Reads (o : Options δ) (argv : List Str) (options : List (δ × Option Str)) : Prop :=
  ∀ rest, o.parse (argv ++ rest) = (o.parse rest).map (options ++ ·)

/-- The strings make the parser exit, whatever comes behind them. -/
def Refuses (o : Options δ) (argv : List Str) : Prop := ∀ rest, o.parse (argv ++ rest) = none

variable {argv argv' : List Str} {options options' : List (δ × Option Str)}

theorem reads_nil : o.Reads [] [] := by
  intro rest
  simp

theorem Reads.append (h : o.Reads argv options) (h' : o.Reads argv' options') :
    o.Reads (argv ++ argv') (options ++ options') := by
  intro rest
  rw [List.append_assoc, h, h', Option.map_map]
  simp [Function.comp_def]

theorem Reads.append_refuses (h : o.Reads argv options) (h' : o.Refuses argv') :
    o.Refuses (argv ++ argv') := by
  intro rest
  rw [List.append_assoc, h, h', Option.map_none]

theorem Refuses.append (h : o.Refuses argv) (argv' : List Str) : o.Refuses (argv ++ argv') := by
  intro rest
  rw [List.append_assoc, h]

theorem Reads.parse (h : o.Reads argv options) : o.parse argv = some options := by
  simpa [Options.parse] using h []

theorem Refuses.parse (h : o.Refuses argv) : o.parse argv = none := by
  simpa using h []

theorem Spelled.reads_value (h : o.Spelled option action) (htakes : o.takesValue action = true)
    (hvalue : o.isArgument value = true) :
    o.Reads [option, value] [(action, some value)] := by
  intro rest
  show o.parse (option :: value :: rest) = _
  rw [h.parse_value htakes, if_pos hvalue]
  rfl

theorem Spelled.refuses_value (h : o.Spelled option action) (htakes : o.takesValue action = true)
    (hvalue : ¬ o.isArgument value = true) : o.Refuses [option, value] := by
  intro rest
  show o.parse (option :: value :: rest) = none
  rw [h.parse_value htakes, if_neg hvalue]

theorem Spelled.reads_flag (h : o.Spelled option action) (htakes : o.takesValue action = false) :
    o.Reads [option] [(action, none)] := by
  intro rest
  show o.parse (option :: rest) = _
  rw [h.parse_flag htakes]
  rfl

end Options

/-! ## Integers -/

/-- `int(text)`. -/
def int? (t : Str) : Option Int :=
  let (negative, body) := signed (strip t)
  let groups := splitOnChar '_' body
  if groups.all fun g => !g.isEmpty && g.all isDigit then
    some (if negative then -(digitsValue groups.flatten : Int) else digitsValue groups.flatten)
  else none

/-- `str(n)`. -/
def strInt (n : Int) : Str := n.repr.toList

theorem isDigit_not_space {c : Char} (h : isDigit c = true) : isSpace c = false := by
  have hlow : 48 ≤ c.toNat := by
    simp only [isDigit, Bool.and_eq_true, decide_eq_true_eq] at h
    exact h.1
  have hhigh : c.toNat ≤ 57 := by
    simp only [isDigit, Bool.and_eq_true, decide_eq_true_eq] at h
    exact h.2
  simp [isSpace]
  omega

theorem strip_eq_self {t : Str} (h : ∀ c ∈ t, isSpace c = false) : strip t = t := by
  have hdrop : ∀ {u : Str}, (∀ c ∈ u, isSpace c = false) → u.dropWhile isSpace = u := by
    intro u hu
    cases u with
    | nil => rfl
    | cons c cs => rw [List.dropWhile_cons_of_neg (by simp [hu c (by simp)])]
  unfold strip lstrip rstrip
  rw [hdrop h, hdrop (by simpa using h), List.reverse_reverse]

theorem strInt_cases (n : Int) : ∃ ds : Str, ds ≠ [] ∧ (∀ c ∈ ds, isDigit c = true) ∧
    ((n = digitsValue ds ∧ strInt n = ds) ∨ (n = -(digitsValue ds : Int) ∧ strInt n = '-' :: ds)) := by
  cases n with
  | ofNat k =>
    refine ⟨k.repr.toList, repr_ne_nil k, isDigit_repr k, .inl ⟨?_, ?_⟩⟩
    · rw [digitsValue_repr]
      rfl
    · simp [strInt, Int.repr]
  | negSucc k =>
    refine ⟨(k + 1).repr.toList, repr_ne_nil _, isDigit_repr _, .inr ⟨?_, ?_⟩⟩
    · rw [digitsValue_repr]
      rfl
    · simp [strInt, Int.repr]

theorem isArgument_strInt {o : Options δ} (ho : o.Wordy) (n : Int) :
    o.isArgument (strInt n) = true := by
  obtain ⟨ds, hne, hdigits, ⟨-, hn⟩ | ⟨-, hn⟩⟩ := strInt_cases n
  · rw [hn]
    refine o.isArgument_plain fun hhead => ?_
    have := hdigits _ (List.mem_of_mem_head? hhead)
    exact absurd this (by decide)
  · rw [hn]
    exact ho.isArgument_negative hne hdigits

theorem int?_digits {ds : Str} (hne : ds ≠ []) (h : ∀ c ∈ ds, isDigit c = true) :
    splitOnChar '_' ds = [ds] ∧ (!ds.isEmpty && ds.all isDigit) = true := by
  refine ⟨splitOnChar_eq_singleton fun hmem => absurd (h _ hmem) (by decide), ?_⟩
  simp [hne, List.all_eq_true.mpr h]

theorem int?_strInt (n : Int) : int? (strInt n) = some n := by
  obtain ⟨ds, hne, hdigits, ⟨hvalue, hn⟩ | ⟨hvalue, hn⟩⟩ := strInt_cases n
  · obtain ⟨hsplit, hgroup⟩ := int?_digits hne hdigits
    have hsigned : signed ds = (false, ds) := by
      unfold signed
      split
      · exact absurd (hdigits '-' (by simp)) (by decide)
      · exact absurd (hdigits '+' (by simp)) (by decide)
      · rfl
    rw [hn, int?, strip_eq_self fun c hc => isDigit_not_space (hdigits c hc), hsigned]
    simp only [hsplit, List.all_cons, hgroup, List.all_nil, Bool.and_true, if_true,
      List.flatten_singleton, Bool.false_eq_true, if_false, hvalue]
  · obtain ⟨hsplit, hgroup⟩ := int?_digits hne hdigits
    have hspace : ∀ c ∈ '-' :: ds, isSpace c = false := by
      intro c hc
      rcases List.mem_cons.mp hc with rfl | hc
      · rfl
      · exact isDigit_not_space (hdigits c hc)
    have hsigned : signed ('-' :: ds) = (true, ds) := rfl
    rw [hn, int?, strip_eq_self hspace, hsigned]
    simp only [hsplit, List.all_cons, hgroup, List.all_nil, Bool.and_true, if_true,
      List.flatten_singleton, hvalue]

end DeltaForgeBench.Base.CommandLine
