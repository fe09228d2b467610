import DeltaForgeBench.Base.Lines
import DeltaForgeBench.Base.Dict

/-! # Reading JSON

A reader that takes a text one character at a time, with the containers it is
inside of on a stack. A document is read when the reader has a whole value and
nothing but white space behind it, so whatever follows a whole value is known
without looking at what the value was. -/
namespace DeltaForgeBench.Base.JsonText
open DeltaForgeBench.Base DeltaForgeBench.Base.Text DeltaForgeBench.Base.Lines

/-- The code points of a string. Escapes can spell lone surrogates. -/
abbrev Points := List Nat

/-- A value; `ν` is the type the reader gives to numbers. An object is the list
of its members in the order of their first occurrence. -/
inductive Json (ν : Type) : Type
  | null
  | bool (b : Bool)
  | num (x : ν)
  | str (s : Points)
  | arr (items : List (Json ν))
  | obj (members : List (Points × Json ν))

/-- A container that is still open. An object has the key it read last. -/
inductive Frame (ν : Type) : Type
  | arr (items : List (Json ν))
  | obj (members : List (Points × Json ν)) (key : Points)

inductive Mode (ν : Type) : Type
  | value
  | firstItem
  | firstKey
  | key
  | colon
  | string (isKey : Bool) (read : Points)
  | escape (isKey : Bool) (read : Points)
  | hex (isKey : Bool) (read : Points) (digits : List Nat)
  | scalar (token : Str)
  | next
  | done (v : Json ν)

structure State (ν : Type) where
  mode : Mode ν
  stack : List (Frame ν)

variable {ν : Type} (number : Str → ν)

/-! ## Scalars -/

def isWhite (c : Char) : Bool := c = ' ' || c = '\t' || c = '\n' || c = '\r'

def isDigit (c : Char) : Bool := '0' ≤ c && c ≤ '9'

def isDigits (t : Str) : Bool := t ≠ [] && t.all isDigit

def isLetter (c : Char) : Bool := ('a' ≤ c && c ≤ 'z') || ('A' ≤ c && c ≤ 'Z')

/-- The characters of numbers and literals. -/
def isScalarChar (c : Char) : Bool :=
  isDigit c || isLetter c || c = '+' || c = '-' || c = '.'

def isInteger (t : Str) : Bool :=
  match t with
  | [] => false
  | '0' :: cs => cs = []
  | _ => isDigits t

def isExponent (t : Str) : Bool :=
  match t with
  | '+' :: cs => isDigits cs
  | '-' :: cs => isDigits cs
  | _ => isDigits t

/-- `-?(0|[1-9][0-9]*)(\.[0-9]+)?([eE][-+]?[0-9]+)?`. -/
def isNumber (t : Str) : Bool :=
  let unsigned := if t.head? = some '-' then t.tail else t
  let mantissa := unsigned.takeWhile fun c => c ≠ 'e' && c ≠ 'E'
  let fraction := mantissa.dropWhile (· ≠ '.')
  let exponent := unsigned.dropWhile fun c => c ≠ 'e' && c ≠ 'E'
  isInteger (mantissa.takeWhile (· ≠ '.')) &&
    (fraction = [] || isDigits fraction.tail) && (exponent = [] || isExponent exponent.tail)

/-- The value of a scalar's text. -/
def readScalar (token : Str) : Option (Json ν) :=
  if token = "null".toList then some .null
  else if token = "true".toList then some (.bool true)
  else if token = "false".toList then some (.bool false)
  else if isNumber token || ["NaN".toList, "Infinity".toList, "-Infinity".toList].contains token then
    some (.num (number token))
  else none

/-! ## Strings -/

def unescape : Char → Option Nat
  | '"' => some 0x22
  | '\\' => some 0x5c
  | '/' => some 0x2f
  | 'b' => some 0x08
  | 'f' => some 0x0c
  | 'n' => some 0x0a
  | 'r' => some 0x0d
  | 't' => some 0x09
  | _ => none

def hexValue (c : Char) : Option Nat :=
  if isDigit c then some (c.toNat - '0'.toNat)
  else if 'a' ≤ c && c ≤ 'f' then some (c.toNat - 'a'.toNat + 10)
  else if 'A' ≤ c && c ≤ 'F' then some (c.toNat - 'A'.toNat + 10)
  else none

/-- A unit spelled by an escape, joined to a high surrogate before it. -/
def appendUnit (read : Points) (unit : Nat) : Points :=
  match read.getLast? with
  | some high =>
    if 0xd800 ≤ high ∧ high ≤ 0xdbff ∧ 0xdc00 ≤ unit ∧ unit ≤ 0xdfff then
      read.dropLast ++ [0x10000 + (high - 0xd800) * 0x400 + (unit - 0xdc00)]
    else read ++ [unit]
  | none => read ++ [unit]

/-! ## The reader -/

/-- The state when a value is whole. A key that comes twice keeps its last value. -/
def complete (v : Json ν) : List (Frame ν) → State ν
  | [] => ⟨.done v, []⟩
  | .arr items :: stack => ⟨.next, .arr (items ++ [v]) :: stack⟩
  | .obj members key :: stack => ⟨.next, .obj (Dict.set members key v) key :: stack⟩

def begin (c : Char) (stack : List (Frame ν)) : Option (State ν) :=
  if c = '{' then some ⟨.firstKey, .obj [] [] :: stack⟩
  else if c = '[' then some ⟨.firstItem, .arr [] :: stack⟩
  else if c = '"' then some ⟨.string false [], stack⟩
  else if isScalarChar c then some ⟨.scalar [c], stack⟩
  else none

def close (c : Char) (stack : List (Frame ν)) : Option (State ν) :=
  match stack with
  | .arr items :: stack => if c = ']' then some (complete (.arr items) stack) else none
  | .obj members _ :: stack => if c = '}' then some (complete (.obj members) stack) else none
  | [] => none

/-- A character right behind a whole value. -/
def after (s : State ν) (c : Char) : Option (State ν) :=
  if isWhite c then some s
  else if c = ',' then
    match s.stack with
    | .arr _ :: _ => some { s with mode := .value }
    | .obj _ _ :: _ => some { s with mode := .key }
    | [] => none
  else close c s.stack

def finishString (isKey : Bool) (read : Points) (stack : List (Frame ν)) : Option (State ν) :=
  match isKey, stack with
  | false, _ => some (complete (.str read) stack)
  | true, .obj members _ :: stack => some ⟨.colon, .obj members read :: stack⟩
  | true, _ => none

def step (s : State ν) (c : Char) : Option (State ν) :=
  match s.mode with
  | .value => if isWhite c then some s else begin c s.stack
  | .firstItem =>
    if isWhite c then some s else if c = ']' then close c s.stack else begin c s.stack
  | .firstKey =>
    if isWhite c then some s else if c = '}' then close c s.stack
    else if c = '"' then some { s with mode := .string true [] } else none
  | .key =>
    if isWhite c then some s
    else if c = '"' then some { s with mode := .string true [] } else none
  | .colon =>
    if isWhite c then some s else if c = ':' then some { s with mode := .value } else none
  | .string isKey read =>
    if c = '"' then finishString isKey read s.stack
    else if c = '\\' then some { s with mode := .escape isKey read }
    else if c.toNat < 0x20 then none
    else some { s with mode := .string isKey (read ++ [c.toNat]) }
  | .escape isKey read =>
    if c = 'u' then some { s with mode := .hex isKey read [] }
    else (unescape c).map fun n => { s with mode := .string isKey (read ++ [n]) }
  | .hex isKey read digits =>
    (hexValue c).map fun d =>
      let digits := digits ++ [d]
      if digits.length = 4 then
        { s with mode := .string isKey (appendUnit read (digits.foldl (fun n d => n * 16 + d) 0)) }
      else { s with mode := .hex isKey read digits }
  | .scalar token =>
    if isScalarChar c then some { s with mode := .scalar (token ++ [c]) }
    else (readScalar number token).bind fun v => after (complete v s.stack) c
  | .next => after s c
  | .done _ => after s c

def run : State ν → Str → Option (State ν)
  | s, [] => some s
  | s, c :: cs => (step number s c).bind fun s' => run s' cs

/-- The value of a state with nothing left open. -/
def State.value? (s : State ν) : Option (Json ν) :=
  match s with
  | ⟨.done v, []⟩ => some v
  | _ => none

def start : State ν := ⟨.value, []⟩

/-- `json.loads`. A line end behind the text closes a number at its end. -/
def loads (text : Str) : Option (Json ν) :=
  (run number start (text ++ ['\n'])).bind State.value?

/-! ## Runs -/

variable {number}

theorem run_append (s : State ν) (t u : Str) :
    run number s (t ++ u) = (run number s t).bind fun s' => run number s' u := by
  induction t generalizing s with
  | nil => rfl
  | cons c cs ih =>
    simp only [List.cons_append, run]
    cases step number s c with
    | none => rfl
    | some s' => exact ih s'

theorem value?_eq_some {s : State ν} {v : Json ν} : s.value? = some v ↔ s = ⟨.done v, []⟩ := by
  constructor
  · intro h
    unfold State.value? at h
    split at h
    · rw [Option.some.inj h]
    · cases h
  · intro e
    subst e
    rfl

theorem loads_eq_some {text : Str} {v : Json ν} :
    loads number text = some v ↔ run number start (text ++ ['\n']) = some ⟨.done v, []⟩ := by
  rw [loads, Option.bind_eq_some_iff]
  constructor
  · intro h
    obtain ⟨s, hs, hv⟩ := h
    rw [hs, value?_eq_some.mp hv]
  · intro h
    exact ⟨_, h, rfl⟩

/-! ## Behind a whole value -/

/-- Behind a whole document there is white space only. -/
theorem run_done {v : Json ν} {t : Str} {s : State ν} (h : run number ⟨.done v, []⟩ t = some s) :
    s = ⟨.done v, []⟩ ∧ t.all isWhite = true := by
  induction t with
  | nil => exact ⟨(Option.some.inj h).symm, rfl⟩
  | cons c cs ih =>
    obtain ⟨s', hstep, hrun⟩ := Option.bind_eq_some_iff.mp h
    have white : isWhite c = true ∧ s' = ⟨.done v, []⟩ := by
      simp only [step, after] at hstep
      split at hstep
      · rename_i hc
        exact ⟨hc, (Option.some.inj hstep).symm⟩
      · split at hstep <;> cases hstep
    rw [white.2] at hrun
    obtain ⟨hs, hcs⟩ := ih hrun
    exact ⟨hs, by simp [white.1, hcs]⟩

/-- The beginning of a text that goes on is no document. -/
theorem loads_beginning {q r : Str} {s : State ν} (h : run number start (q ++ '\n' :: r) = some s)
    (hr : r.all isWhite = false) : loads number q = none := by
  rw [Option.eq_none_iff_forall_ne_some]
  intro v hv
  rw [loads_eq_some] at hv
  rw [← List.singleton_append, ← List.append_assoc, run_append, hv] at h
  rw [(run_done h).2] at hr
  cases hr

/-- A text that goes on behind a document is no document. -/
theorem loads_extended {q r : Str} {v : Json ν} (h : loads number q = some v)
    (hr : r.all isWhite = false) : loads number (q ++ '\n' :: r) = none := by
  rw [Option.eq_none_iff_forall_ne_some]
  intro w hw
  rw [loads_eq_some] at h hw
  rw [← List.singleton_append, ← List.append_assoc, List.append_assoc, run_append, h] at hw
  have white := (run_done hw).2
  rw [List.all_append, Bool.and_eq_true] at white
  rw [white.1] at hr
  cases hr

/-! ## Line ends -/

/-- A line feed behind a document does not matter. -/
theorem loads_newline {text : Str} {v : Json ν} (h : loads number text = some v) :
    loads number (text ++ ['\n']) = some v := by
  rw [loads_eq_some] at h ⊢
  rw [run_append, h]
  rfl

/-- A carriage return reads like a line feed. -/
theorem step_return (s : State ν) : step number s '\r' = step number s '\n' := by
  obtain ⟨mode, stack⟩ := s
  cases mode <;> rfl

/-- A second line feed changes nothing. -/
theorem step_newline {s s' : State ν} (h : step number s '\n' = some s') :
    step number s' '\n' = some s' := by
  obtain ⟨mode, stack⟩ := s
  cases mode with
  | string isKey read => cases h
  | escape isKey read => cases h
  | hex isKey read digits => cases h
  | scalar token =>
    obtain ⟨v, -, hv⟩ := Option.bind_eq_some_iff.mp h
    obtain rfl := Option.some.inj hv
    match stack with
    | [] => rfl
    | .arr _ :: _ => rfl
    | .obj _ _ :: _ => rfl
  | _ =>
    obtain rfl := Option.some.inj h
    rfl

theorem step_string_newline {s : State ν} {isKey : Bool} {read : Points}
    (h : s.mode = .string isKey read) : step number s '\n' = none := by
  simp [step, h]

/-- Neither white space nor a character of a scalar, of an escape or between values. -/
def isForeign (c : Char) : Bool :=
  !isWhite c && !isScalarChar c && !(['{', '}', '[', ']', ',', ':', '"', '\\', '/'].contains c)

/-- A foreign character is read inside strings only. -/
theorem step_foreign {s s' : State ν} {c : Char} (hc : isForeign c = true)
    (h : step number s c = some s') : ∃ isKey read, s.mode = .string isKey read := by
  simp only [isForeign, Bool.and_eq_true, Bool.not_eq_true', List.contains_eq_mem,
    decide_eq_false_iff_not, List.mem_cons, List.not_mem_nil, or_false, not_or] at hc
  obtain ⟨⟨hwhite, hscalar⟩, hlbrace, hrbrace, hlbracket, hrbracket, hcomma, hcolon, hquote,
    hback, hslash⟩ := hc
  have digit : isDigit c = false := by
    simp only [isScalarChar, Bool.or_eq_false_iff] at hscalar
    exact hscalar.1.1.1.1
  have letter : isLetter c = false := by
    simp only [isScalarChar, Bool.or_eq_false_iff] at hscalar
    exact hscalar.1.1.1.2
  have other : ∀ d, isScalarChar d = true → c ≠ d := fun d hd e => by simp [← e, hscalar] at hd
  have begins : ∀ stack : List (Frame ν), begin c stack = none := by
    intro stack
    simp [begin, hlbrace, hlbracket, hquote, hscalar]
  have closes : ∀ stack : List (Frame ν), close c stack = none := by
    intro stack
    unfold close
    split <;> simp [hrbracket, hrbrace]
  have afters : ∀ s : State ν, after s c = none := by
    intro s
    simp [after, hwhite, hcomma, closes]
  obtain ⟨mode, stack⟩ := s
  cases mode with
  | string isKey read => exact ⟨isKey, read, rfl⟩
  | escape isKey read =>
    have none_read : unescape c = none := by
      unfold unescape
      split <;> first | rfl | contradiction
    simp [step, other 'u' rfl, none_read] at h
  | hex isKey read digits =>
    have none_read : hexValue c = none := by
      simp only [isLetter, Bool.or_eq_false_iff, Bool.and_eq_false_iff, decide_eq_false_iff_not]
        at letter
      have lower : ¬ ('a' ≤ c ∧ c ≤ 'f') := fun h => letter.1.elim (fun h' => h' h.1)
        fun h' => h' (h.2.trans (by decide))
      have upper : ¬ ('A' ≤ c ∧ c ≤ 'F') := fun h => letter.2.elim (fun h' => h' h.1)
        fun h' => h' (h.2.trans (by decide))
      simp [hexValue, digit, lower, upper]
    simp [step, none_read] at h
  | scalar token => simp [step, hscalar, afters] at h
  | value => simp [step, hwhite, begins] at h
  | firstItem => simp [step, hwhite, begins, hrbracket] at h
  | firstKey => simp [step, hwhite, hrbrace, hquote] at h
  | key => simp [step, hwhite, hquote] at h
  | colon => simp [step, hwhite, hcolon] at h
  | next => simp [step, afters] at h
  | done v => simp [step, afters] at h

/-! ## Texts with their line ends unified -/

/-- The reader does not see which of the two plain characters ends a line. -/
theorem run_unify {t : Str} (h : Plain t) (s : State ν) :
    run number s (unify t) = run number s t := by
  induction t using unify.induct generalizing s with
  | case1 => rfl
  | case2 cs ih =>
    have rest : Plain cs := fun c hc => h c (by simp [hc])
    simp only [unify, run, step_return]
    cases hs : step number s '\n' with
    | none => rfl
    | some s' => simp [step_newline hs, ih rest]
  | case3 c cs hpair ih =>
    have rest : Plain cs := fun d hd => h d (by simp [hd])
    have same : step number s (if isLineBreak c then '\n' else c) = step number s c := by
      by_cases hc : isLineBreak c = true
      · rw [if_pos hc]
        rcases h c (by simp) hc with rfl | rfl
        · rfl
        · exact (step_return s).symm
      · rw [if_neg hc]
    rw [unify_cons hpair, run, run, same]
    exact congrArg _ (funext fun s' => ih rest s')

theorem loads_unify {t : Str} (h : Plain t) : loads number (unify t) = loads number t := by
  rw [loads, loads, run_append, run_append, run_unify h]

theorem isForeign_break {c : Char} (h : isLineBreak c = true) (hn : c ≠ '\n') (hr : c ≠ '\r') :
    isForeign c = true := by
  have code : c = Char.ofNat c.toNat := (Char.ofNat_toNat c).symm
  simp only [isLineBreak, List.contains_eq_mem, decide_eq_true_eq, List.mem_cons,
    List.not_mem_nil, or_false] at h
  rcases h with h | h | h | h | h | h | h | h | h | h <;> rw [h] at code <;> subst code
  · exact absurd rfl hn
  · decide
  · decide
  · exact absurd rfl hr
  all_goals decide

/-- Another line end stands in a string, and a line feed in its place breaks the string. -/
theorem unify_breaks {t : Str} {v : Json ν} (h : loads number t = some v) (hbad : ¬ Plain t) :
    ∃ q r s isKey read, unify t = q ++ '\n' :: r ∧ run number start q = some s ∧
      s.mode = .string isKey read := by
  obtain ⟨a, c, b, rfl, hplain, hc, hn, hr⟩ := exists_of_not_plain hbad
  rw [loads_eq_some, List.append_assoc, List.cons_append, run_append] at h
  obtain ⟨s, hs, hrest⟩ := Option.bind_eq_some_iff.mp h
  obtain ⟨s', hstep, -⟩ := Option.bind_eq_some_iff.mp hrest
  obtain ⟨isKey, read, hmode⟩ := step_foreign (isForeign_break hc hn hr) hstep
  refine ⟨unify a, unify b, s, isKey, read, ?_, (run_unify hplain start).trans hs, hmode⟩
  rw [unify_append b hn, unify_cons fun ds e => absurd e hr, if_pos hc]

/-- Nothing that begins or goes on like the broken text is a document. -/
theorem loads_broken {q r t u : Str} {s : State ν} {isKey : Bool} {read : Points}
    (hrun : run number start q = some s) (hmode : s.mode = .string isKey read)
    (h : t ++ '\n' :: u = q ++ '\n' :: r) : loads number t = none := by
  have broken : ∀ w, run number start (q ++ '\n' :: w) = none := by
    intro w
    rw [run_append, hrun]
    simp [run, step_string_newline hmode]
  rw [Option.eq_none_iff_forall_ne_some]
  intro v hv
  rw [loads_eq_some] at hv
  rcases List.append_eq_append_iff.mp h with ⟨a, rfl, ha⟩ | ⟨a, rfl, ha⟩
  · cases a with
    | nil =>
      have none_run := broken []
      rw [List.append_nil, hv] at none_run
      cases none_run
    | cons c cs =>
      obtain ⟨rfl, -⟩ := List.cons.inj ha
      rw [List.append_cons, run_append, hv] at hrun
      rw [(run_done hrun).1] at hmode
      cases hmode
  · cases a with
    | nil => rw [List.append_nil, broken] at hv; cases hv
    | cons c cs =>
      obtain ⟨rfl, -⟩ := List.cons.inj ha
      rw [List.append_assoc, List.cons_append, broken] at hv
      cases hv

/-! ## Beginnings of a container -/

/-- Inside a container, or behind a whole document. -/
def Inside (s : State ν) : Prop := s.stack ≠ [] ∨ ∃ v, s.mode = .done v

theorem inside_complete (v : Json ν) (stack : List (Frame ν)) : Inside (complete v stack) := by
  match stack with
  | [] => exact .inr ⟨v, rfl⟩
  | .arr _ :: _ => exact .inl (List.cons_ne_nil _ _)
  | .obj _ _ :: _ => exact .inl (List.cons_ne_nil _ _)

theorem inside_close {c : Char} {stack : List (Frame ν)} {s : State ν}
    (h : close c stack = some s) : Inside s := by
  unfold close at h
  split at h
  · split at h
    · exact Option.some.inj h ▸ inside_complete _ _
    · cases h
  · split at h
    · exact Option.some.inj h ▸ inside_complete _ _
    · cases h
  · cases h

theorem inside_after {s s' : State ν} {c : Char} (hs : Inside s) (h : after s c = some s') :
    Inside s' := by
  unfold after at h
  split at h
  · exact Option.some.inj h ▸ hs
  · split at h
    · split at h
      · rename_i hstack
        obtain rfl := Option.some.inj h
        exact .inl (by simp [hstack])
      · rename_i hstack
        obtain rfl := Option.some.inj h
        exact .inl (by simp [hstack])
      · cases h
    · exact inside_close h

theorem inside_begin {c : Char} {stack : List (Frame ν)} {s : State ν} (hstack : stack ≠ [])
    (h : begin c stack = some s) : Inside s := by
  unfold begin at h
  split at h
  · exact Option.some.inj h ▸ .inl (List.cons_ne_nil _ _)
  split at h
  · exact Option.some.inj h ▸ .inl (List.cons_ne_nil _ _)
  split at h
  · exact Option.some.inj h ▸ .inl hstack
  split at h
  · exact Option.some.inj h ▸ .inl hstack
  · cases h

theorem inside_finishString {isKey : Bool} {read : Points} {stack : List (Frame ν)} {s : State ν}
    (h : finishString isKey read stack = some s) : Inside s := by
  unfold finishString at h
  split at h
  · exact Option.some.inj h ▸ inside_complete _ _
  · exact Option.some.inj h ▸ .inl (List.cons_ne_nil _ _)
  · cases h

/-- A container that was opened is left only behind the whole document. -/
theorem inside_step {s s' : State ν} {c : Char} (hs : Inside s) (h : step number s c = some s') :
    Inside s' := by
  obtain ⟨mode, stack⟩ := s
  by_cases hdone : ∃ v, mode = .done v
  · obtain ⟨v, rfl⟩ := hdone
    exact inside_after hs h
  have hstack : stack ≠ [] := hs.resolve_right hdone
  cases mode with
  | value =>
    simp only [step] at h
    split at h
    · exact Option.some.inj h ▸ hs
    · exact inside_begin hstack h
  | firstItem =>
    simp only [step] at h
    split at h
    · exact Option.some.inj h ▸ hs
    split at h
    · exact inside_close h
    · exact inside_begin hstack h
  | firstKey =>
    simp only [step] at h
    split at h
    · exact Option.some.inj h ▸ hs
    split at h
    · exact inside_close h
    split at h
    · exact Option.some.inj h ▸ .inl hstack
    · cases h
  | key =>
    simp only [step] at h
    split at h
    · exact Option.some.inj h ▸ hs
    split at h
    · exact Option.some.inj h ▸ .inl hstack
    · cases h
  | colon =>
    simp only [step] at h
    split at h
    · exact Option.some.inj h ▸ hs
    split at h
    · exact Option.some.inj h ▸ .inl hstack
    · cases h
  | string isKey read =>
    simp only [step] at h
    split at h
    · exact inside_finishString h
    split at h
    · exact Option.some.inj h ▸ .inl hstack
    split at h
    · cases h
    · exact Option.some.inj h ▸ .inl hstack
  | escape isKey read =>
    simp only [step] at h
    split at h
    · exact Option.some.inj h ▸ .inl hstack
    · obtain ⟨n, -, rfl⟩ := Option.map_eq_some_iff.mp h
      exact .inl hstack
  | hex isKey read digits =>
    obtain ⟨d, -, hd⟩ := Option.map_eq_some_iff.mp h
    dsimp only at hd
    split at hd
    · exact hd ▸ .inl hstack
    · exact hd ▸ .inl hstack
  | scalar token =>
    simp only [step] at h
    split at h
    · exact Option.some.inj h ▸ .inl hstack
    · obtain ⟨v, -, hv⟩ := Option.bind_eq_some_iff.mp h
      exact inside_after (inside_complete _ _) hv
  | next => exact inside_after hs h
  | done v => exact absurd ⟨v, rfl⟩ hdone

theorem inside_run {s s' : State ν} {t : Str} (hs : Inside s) (h : run number s t = some s') :
    Inside s' := by
  induction t generalizing s with
  | nil => exact Option.some.inj h ▸ hs
  | cons c cs ih =>
    obtain ⟨next, hstep, hrun⟩ := Option.bind_eq_some_iff.mp h
    exact ih (inside_step hs hstep) hrun

/-- A line end does not close a container. -/
theorem done_of_newline {s : State ν} {v : Json ν} (hs : Inside s)
    (h : step number s '\n' = some ⟨.done v, []⟩) : s = ⟨.done v, []⟩ := by
  obtain ⟨mode, stack⟩ := s
  cases mode with
  | string isKey read => cases h
  | escape isKey read => cases h
  | hex isKey read digits => cases h
  | scalar token =>
    have hstack : stack ≠ [] := hs.resolve_right nofun
    obtain ⟨w, -, hw⟩ := Option.bind_eq_some_iff.mp h
    match stack with
    | [] => exact absurd rfl hstack
    | .arr _ :: _ => cases hw
    | .obj _ _ :: _ => cases hw
  | _ => exact Option.some.inj h

/-- **No proper beginning of an object's text is a document.** -/
theorem loads_beginning_of_object {q r : Str} {v : Json ν}
    (h : run number start ('{' :: q ++ r) = some ⟨.done v, []⟩) (hr : r.all isWhite = false) :
    loads number ('{' :: q) = none := by
  rw [Option.eq_none_iff_forall_ne_some]
  intro w hw
  rw [loads_eq_some, run_append] at hw
  obtain ⟨s, hs, hlast⟩ := Option.bind_eq_some_iff.mp hw
  have inside : Inside s :=
    inside_run (s := ⟨.firstKey, [.obj [] []]⟩) (.inl (List.cons_ne_nil _ _)) hs
  obtain ⟨s', hnewline, hend⟩ := Option.bind_eq_some_iff.mp hlast
  obtain rfl := Option.some.inj hend
  obtain rfl := done_of_newline inside hnewline
  rw [run_append, hs] at h
  rw [(run_done h).2] at hr
  cases hr

end DeltaForgeBench.Base.JsonText
