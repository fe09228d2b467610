import DeltaForgeBench.Base.JsonDense
import DeltaForgeBench.Drivers.Timings

/-! # The report of the driver bench

`emit_json` writes its report piece by piece. A byte of a string is the
character of its number; a time is the token that the stream makes of it. The
report is a document of the standard grammar, and what it says is what was
measured. -/
namespace DeltaForgeBench.Drivers.Report
open DeltaForgeBench.Base DeltaForgeBench.Base.Text DeltaForgeBench.Base.JsonText
open DeltaForgeBench.Base.JsonGrammar DeltaForgeBench.Base.JsonCompact
open DeltaForgeBench.Base.JsonDense

/-- The settings that the report repeats. -/
structure Config where
  warmups : Int
  iters : Int
  rows : Int

/-- The names that `main` gives to its drivers. -/
def driverNames : List Str := ["odbc-bound".toList, "odbc-getdata".toList, "adbc".toList]

theorem isPlain_driverNames : ∀ name ∈ driverNames, name.all isPlain = true := by decide

/-! ## `emit_json` -/

def escChar (c : Char) : Str :=
  match c with
  | '"' => ['\\', '"']
  | '\\' => ['\\', '\\']
  | '\n' => ['\\', 'n']
  | '\r' => ['\\', 'r']
  | '\t' => ['\\', 't']
  | c => if c.toNat < 0x20 then unitEscape c.toNat else [c]

def esc (s : Str) : Str := s.flatMap escChar

def quoted (s : Str) : Str := '"' :: (s ++ ['"'])

def boolText (b : Bool) : Str := if b then "true".toList else "false".toList

/-- The member of a failed iteration. -/
def emitError (error : Str) : Str :=
  if error ≠ [] then [','] ++ field "error" (quoted (esc error)) else []

section Emit
variable (token : ℚ → Str)

def emitIter (warmupCount : Int) (i : Nat) (it : PhaseTimings) : Str :=
  ['{'] ++
  field "is_warmup" (boolText ((i : Int) < warmupCount)) ++ [','] ++
  field "t_connect" (token it.tConnect) ++ [','] ++
  field "t_execute" (token it.tExecute) ++ [','] ++
  field "t_bind" (token it.tBind) ++ [','] ++
  field "t_drain" (token it.tDrain) ++ [','] ++
  field "t_release" (token it.tRelease) ++ [','] ++
  field "t_total" (token it.tTotal) ++ [','] ++
  field "rows" (number it.rows) ++ [','] ++
  field "columns" (number it.columns) ++
  emitError it.error ++
  ['}']

def emitMedian (m : PhaseTimings) : Str :=
  ['{'] ++
  field "t_connect" (token m.tConnect) ++ [','] ++
  field "t_prepare" (token m.tPrepare) ++ [','] ++
  field "t_execute" (token m.tExecute) ++ [','] ++
  field "t_bind" (token m.tBind) ++ [','] ++
  field "t_drain" (token m.tDrain) ++ [','] ++
  field "t_release" (token m.tRelease) ++ [','] ++
  field "t_total" (token m.tTotal) ++
  ['}']

def emitResult (r : DriverResult) : Str :=
  ['{'] ++
  field "driver" (quoted r.driver) ++ [','] ++
  field "measured" (number r.measuredCount) ++ [','] ++
  field "errors" (number r.errorCount) ++ [','] ++
  field "rows" (number r.warmMedian.rows) ++ [','] ++
  field "columns" (number r.warmMedian.columns) ++ [','] ++
  field "warm_median" (emitMedian token r.warmMedian) ++ [','] ++
  field "iters" (['['] ++ commaLoop (emitIter token r.warmupCount) 0 r.iters ++ [']']) ++
  ['}']

def emitJson (results : List DriverResult) (cfg : Config) (sql : Str) : Str :=
  ['{'] ++
  field "version" ['1'] ++ [','] ++
  field "warmups" (number cfg.warmups) ++ [','] ++
  field "iters" (number cfg.iters) ++ [','] ++
  field "rows_requested" (number cfg.rows) ++ [','] ++
  field "sql" (quoted (esc sql)) ++ [','] ++
  field "drivers" (['['] ++ commaLoop (fun _ r => emitResult token r) 0 results ++ [']']) ++
  ['}']

end Emit

/-! ## What the report says -/

variable {ν : Type} (readNumber : Str → ν) (token : ℚ → Str)

def text (s : Str) : Json ν := .str (points s)

def integer (n : Int) : Json ν := .num (readNumber (number n))

def time (x : ℚ) : Json ν := .num (readNumber (token x))

/-- An entry of `iters`, the `i`-th of its driver. -/
structure IterEntry (warmupCount : Int) (i : Nat) (it : PhaseTimings) (entry : Json ν) : Prop where
  is_warmup : member? entry "is_warmup" = some (.bool ((i : Int) < warmupCount))
  t_connect : member? entry "t_connect" = some (time readNumber token it.tConnect)
  t_execute : member? entry "t_execute" = some (time readNumber token it.tExecute)
  t_bind : member? entry "t_bind" = some (time readNumber token it.tBind)
  t_drain : member? entry "t_drain" = some (time readNumber token it.tDrain)
  t_release : member? entry "t_release" = some (time readNumber token it.tRelease)
  t_total : member? entry "t_total" = some (time readNumber token it.tTotal)
  rows : member? entry "rows" = some (integer readNumber it.rows)
  columns : member? entry "columns" = some (integer readNumber it.columns)
  error : member? entry "error" = if it.error ≠ [] then some (text it.error) else none

structure MedianEntry (m : PhaseTimings) (entry : Json ν) : Prop where
  t_connect : member? entry "t_connect" = some (time readNumber token m.tConnect)
  t_prepare : member? entry "t_prepare" = some (time readNumber token m.tPrepare)
  t_execute : member? entry "t_execute" = some (time readNumber token m.tExecute)
  t_bind : member? entry "t_bind" = some (time readNumber token m.tBind)
  t_drain : member? entry "t_drain" = some (time readNumber token m.tDrain)
  t_release : member? entry "t_release" = some (time readNumber token m.tRelease)
  t_total : member? entry "t_total" = some (time readNumber token m.tTotal)

/-- An entry of `drivers`. -/
structure ResultEntry (r : DriverResult) (entry : Json ν) : Prop where
  driver : member? entry "driver" = some (text r.driver)
  measured : member? entry "measured" = some (integer readNumber r.measuredCount)
  errors : member? entry "errors" = some (integer readNumber r.errorCount)
  rows : member? entry "rows" = some (integer readNumber r.warmMedian.rows)
  columns : member? entry "columns" = some (integer readNumber r.warmMedian.columns)
  warm_median : ∃ median, member? entry "warm_median" = some median ∧
    MedianEntry readNumber token r.warmMedian median
  iters : ∃ entries, member? entry "iters" = some (.arr entries) ∧
    List.Forall₂ (fun p => IterEntry readNumber token r.warmupCount p.2 p.1) r.iters.zipIdx entries

/-- The whole report. -/
structure IsReport (results : List DriverResult) (cfg : Config) (sql : Str) (report : Json ν) : Prop where
  version : member? report "version" = some (integer readNumber 1)
  warmups : member? report "warmups" = some (integer readNumber cfg.warmups)
  iters : member? report "iters" = some (integer readNumber cfg.iters)
  rows_requested : member? report "rows_requested" = some (integer readNumber cfg.rows)
  sql : member? report "sql" = some (text sql)
  drivers : ∃ entries, member? report "drivers" = some (.arr entries) ∧
    List.Forall₂ (ResultEntry readNumber token) results entries

/-! ## The members -/

section Members
variable (warmupCount : Int) (i : Nat) (it : PhaseTimings) (r : DriverResult)

def errorMember (error : Str) : List (Member ν) :=
  if error ≠ [] then [⟨"error", quoted (esc error), text error⟩] else []

def iterMembers : List (Member ν) :=
  [⟨"is_warmup", boolText ((i : Int) < warmupCount), .bool ((i : Int) < warmupCount)⟩,
   ⟨"t_connect", token it.tConnect, time readNumber token it.tConnect⟩,
   ⟨"t_execute", token it.tExecute, time readNumber token it.tExecute⟩,
   ⟨"t_bind", token it.tBind, time readNumber token it.tBind⟩,
   ⟨"t_drain", token it.tDrain, time readNumber token it.tDrain⟩,
   ⟨"t_release", token it.tRelease, time readNumber token it.tRelease⟩,
   ⟨"t_total", token it.tTotal, time readNumber token it.tTotal⟩,
   ⟨"rows", number it.rows, integer readNumber it.rows⟩,
   ⟨"columns", number it.columns, integer readNumber it.columns⟩] ++ errorMember it.error

def medianMembers : List (Member ν) :=
  [⟨"t_connect", token it.tConnect, time readNumber token it.tConnect⟩,
   ⟨"t_prepare", token it.tPrepare, time readNumber token it.tPrepare⟩,
   ⟨"t_execute", token it.tExecute, time readNumber token it.tExecute⟩,
   ⟨"t_bind", token it.tBind, time readNumber token it.tBind⟩,
   ⟨"t_drain", token it.tDrain, time readNumber token it.tDrain⟩,
   ⟨"t_release", token it.tRelease, time readNumber token it.tRelease⟩,
   ⟨"t_total", token it.tTotal, time readNumber token it.tTotal⟩]

def iterJson (p : PhaseTimings × Nat) : Json ν :=
  objectJson (iterMembers readNumber token warmupCount p.2 p.1)

def resultMembers : List (Member ν) :=
  [⟨"driver", quoted r.driver, text r.driver⟩,
   ⟨"measured", number r.measuredCount, integer readNumber r.measuredCount⟩,
   ⟨"errors", number r.errorCount, integer readNumber r.errorCount⟩,
   ⟨"rows", number r.warmMedian.rows, integer readNumber r.warmMedian.rows⟩,
   ⟨"columns", number r.warmMedian.columns, integer readNumber r.warmMedian.columns⟩,
   ⟨"warm_median", emitMedian token r.warmMedian,
    objectJson (medianMembers readNumber token r.warmMedian)⟩,
   ⟨"iters", ['['] ++ commaLoop (emitIter token r.warmupCount) 0 r.iters ++ [']'],
    .arr (r.iters.zipIdx.map (iterJson readNumber token r.warmupCount))⟩]

def resultJson : Json ν := objectJson (resultMembers readNumber token r)

def reportMembers (results : List DriverResult) (cfg : Config) (sql : Str) : List (Member ν) :=
  [⟨"version", ['1'], integer readNumber 1⟩,
   ⟨"warmups", number cfg.warmups, integer readNumber cfg.warmups⟩,
   ⟨"iters", number cfg.iters, integer readNumber cfg.iters⟩,
   ⟨"rows_requested", number cfg.rows, integer readNumber cfg.rows⟩,
   ⟨"sql", quoted (esc sql), text sql⟩,
   ⟨"drivers", ['['] ++ commaLoop (fun _ r => emitResult token r) 0 results ++ [']'],
    .arr (results.map (resultJson readNumber token))⟩]

omit it in
theorem emitError_eq (error : Str) : emitError error =
    ((errorMember error : List (Member ν)).map fun m => field m.name m.text).flatMap (',' :: ·) := by
  rw [emitError, errorMember]
  by_cases h : error = []
  · rw [if_neg (not_not.mpr h), if_neg (not_not.mpr h)]
    rfl
  · rw [if_pos h, if_pos h, List.map_cons, List.map_nil, List.flatMap_cons, List.flatMap_nil,
      List.append_nil, List.singleton_append]

theorem emitIter_eq : emitIter token warmupCount i it =
    objectText (iterMembers readNumber token warmupCount i it) := by
  have herror := emitError_eq (ν := ν) it.error
  unfold emitIter iterMembers
  simp only [objectText, commaJoin, herror, List.map_cons, List.cons_append, List.nil_append,
    List.append_assoc, List.flatMap_cons]

theorem emitMedian_eq : emitMedian token it = objectText (medianMembers readNumber token it) := by
  simp [emitMedian, objectText, medianMembers, commaJoin]

theorem emitResult_eq : emitResult token r = objectText (resultMembers readNumber token r) := by
  simp [emitResult, objectText, resultMembers, commaJoin]

theorem emitJson_eq (results : List DriverResult) (cfg : Config) (sql : Str) :
    emitJson token results cfg sql =
      objectText (reportMembers readNumber token results cfg sql) := by
  simp [emitJson, objectText, reportMembers, commaJoin]

theorem iterEntry :
    IterEntry readNumber token warmupCount i it (iterJson readNumber token warmupCount (it, i)) := by
  constructor
  case error =>
    rw [iterJson, member?_objectJson]
    by_cases herror : it.error = [] <;> simp [iterMembers, errorMember, Dict.get?_cons, herror]
  all_goals
    rw [iterJson, member?_objectJson]
    rfl

theorem medianEntry : MedianEntry readNumber token it (objectJson (medianMembers readNumber token it)) := by
  constructor
  all_goals
    rw [member?_objectJson]
    rfl

end Members

/-! ## What the grammar derives -/

section Derivations
variable {readNumber token}

theorem chars_escChar (c : Char) {read s : Points} {t : Str} (h : Chars (read ++ [c.toNat]) t s) :
    Chars read (escChar c ++ t) s := by
  unfold escChar
  split
  · exact .escape rfl h
  · exact .escape rfl h
  · exact .escape rfl h
  · exact .escape rfl h
  · exact .escape rfl h
  · rename_i hquote hback _ _ _
    split
    · rename_i hlow
      refine chars_unitEscape (by omega) ?_
      rwa [JsonPretty.appendUnit_low read (by omega)]
    · rename_i hlow
      exact .plain hquote hback (by omega) h

/-- An escaped string is read back. -/
theorem value_esc {scalar : Str → Json ν → Prop} (s : Str) :
    Value scalar (quoted (esc s)) (text s) :=
  .string (Chars.of_flatMap (g := Char.toNat) (fun c _ _ _ _ h => chars_escChar c h) [])

/-- So is a string that needs no escape. -/
theorem value_plain {scalar : Str → Json ν → Prop} {s : Str} (h : s.all isPlain = true) :
    Value scalar (quoted s) (text s) :=
  .string (Chars.of_plain h [])

theorem value_bool (b : Bool) : Value (Standard readNumber) (boolText b) (.bool b) := by
  cases b with
  | true => exact .scalar .true
  | false => exact .scalar .false

theorem head_toDigits {n : Nat} (hn : 0 < n) : (Nat.toDigits 10 n).head? ≠ some '0' := by
  induction n using Nat.strongRecOn with
  | ind n ih =>
    rw [Nat.toDigits_eq_if (by omega)]
    split
    · rename_i hlt
      have hdigits : ∀ m < 10, 0 < m → [Nat.digitChar m].head? ≠ some '0' := by decide
      exact hdigits n hlt hn
    · have hne : Nat.toDigits 10 (n / 10) ≠ [] := Nat.toDigits_ne_nil
      rw [List.head?_append_of_ne_nil _ hne]
      exact ih (n / 10) (by omega) (by omega)

theorem isDigit_toDigits (n : Nat) : ∀ c ∈ Nat.toDigits 10 n, isDigit c = true := by
  intro c hc
  have hdigit := Nat.isDigit_of_mem_toDigits (by omega) (Nat.le_refl 10) hc
  simpa [isDigit, Char.isDigit, Char.le_def] using hdigit

theorem isInteger_toDigits (n : Nat) : isInteger (Nat.toDigits 10 n) = true := by
  rcases Nat.eq_zero_or_pos n with rfl | hn
  · rfl
  · have hdigits : isDigits (Nat.toDigits 10 n) = true := by
      rw [isDigits, List.all_eq_true.mpr (isDigit_toDigits n), Bool.and_true, decide_eq_true_eq]
      exact Nat.toDigits_ne_nil
    have hhead := head_toDigits hn
    unfold isInteger
    split
    · rename_i hnil
      exact absurd hnil Nat.toDigits_ne_nil
    · rename_i cs hzero
      rw [hzero] at hhead
      exact absurd rfl hhead
    · exact hdigits

/-- Whole numbers, with a sign or without, are numbers of the grammar. -/
theorem isNumber_of_isInteger {t : Str} (h : isInteger t = true) (hall : ∀ c ∈ t, isDigit c = true) :
    isNumber t = true ∧ isNumber ('-' :: t) = true := by
  have other : ∀ d, isDigit d = false → ∀ c ∈ t, c ≠ d := fun d hd c hc e => by
    rw [← e, hall c hc] at hd
    cases hd
  have mantissa : t.takeWhile (fun c => c ≠ 'e' && c ≠ 'E') = t :=
    List.takeWhile_eq_self_iff.mpr fun c hc => by simp [other 'e' rfl c hc, other 'E' rfl c hc]
  have whole : t.takeWhile (· ≠ '.') = t :=
    List.takeWhile_eq_self_iff.mpr fun c hc => by simp [other '.' rfl c hc]
  have exponent : t.dropWhile (fun c => c ≠ 'e' && c ≠ 'E') = [] :=
    List.dropWhile_eq_nil_iff.mpr fun c hc => by simp [other 'e' rfl c hc, other 'E' rfl c hc]
  have fraction : t.dropWhile (· ≠ '.') = [] :=
    List.dropWhile_eq_nil_iff.mpr fun c hc => by simp [other '.' rfl c hc]
  have unsigned : t.head? ≠ some '-' := fun e =>
    other '-' rfl '-' (List.mem_of_head? e) rfl
  constructor
  · simp only [isNumber, if_neg unsigned, mantissa, whole, exponent, fraction, h]
    rfl
  · simp only [isNumber, List.head?_cons, if_pos, List.tail_cons, mantissa, whole, exponent, fraction,
      h]
    rfl

theorem isNumber_number (n : Int) : isNumber (number n) = true := by
  cases n with
  | ofNat m =>
    have e : number (Int.ofNat m) = Nat.toDigits 10 m := Nat.toList_repr
    rw [e]
    exact (isNumber_of_isInteger (isInteger_toDigits m) (isDigit_toDigits m)).1
  | negSucc m =>
    have e : number (Int.negSucc m) = '-' :: Nat.toDigits 10 (m + 1) := by
      rw [← Nat.toList_repr]
      exact String.toList_append
    rw [e]
    exact (isNumber_of_isInteger (isInteger_toDigits _) (isDigit_toDigits _)).2

theorem value_integer (n : Int) :
    Value (Standard readNumber) (number n) (integer readNumber n) :=
  .scalar (.num (isNumber_number n))

theorem value_time (htoken : ∀ x, isNumber (token x) = true) (x : ℚ) :
    Value (Standard readNumber) (token x) (time readNumber token x) :=
  .scalar (.num (htoken x))

theorem fit_iter (warmupCount : Int) (i : Nat) (it : PhaseTimings) :
    Fit ((iterMembers readNumber token warmupCount i it).map Member.name) := by
  have names : Fit (["is_warmup", "t_connect", "t_execute", "t_bind", "t_drain", "t_release",
      "t_total", "rows", "columns"] ++ ["error"]) := by decide
  unfold iterMembers errorMember
  split
  · exact names
  · exact names.of_append

theorem value_iter (htoken : ∀ x, isNumber (token x) = true) (warmupCount : Int) (i : Nat)
    (it : PhaseTimings) : Value (Standard readNumber) (emitIter token warmupCount i it)
      (iterJson readNumber token warmupCount (it, i)) := by
  have herror : ∀ m ∈ (errorMember it.error : List (Member ν)),
      Value (Standard readNumber) m.text m.value := by
    unfold errorMember
    split
    · exact List.forall_mem_singleton.mpr (value_esc it.error)
    · nofun
  rw [emitIter_eq readNumber, iterJson]
  refine value_object (List.cons_ne_nil _ _) (fit_iter warmupCount i it)
    (List.forall_mem_append.mpr ⟨?_, herror⟩)
  simp only [List.forall_mem_cons]
  exact ⟨value_bool _, value_time htoken _, value_time htoken _, value_time htoken _,
    value_time htoken _, value_time htoken _, value_time htoken _, value_integer _, value_integer _,
    nofun⟩

theorem value_median (htoken : ∀ x, isNumber (token x) = true) (m : PhaseTimings) :
    Value (Standard readNumber) (emitMedian token m)
      (objectJson (medianMembers readNumber token m)) := by
  have names : Fit ["t_connect", "t_prepare", "t_execute", "t_bind", "t_drain", "t_release",
      "t_total"] := by decide
  rw [emitMedian_eq readNumber]
  refine value_object (List.cons_ne_nil _ _) names ?_
  simp only [medianMembers, List.forall_mem_cons]
  exact ⟨value_time htoken _, value_time htoken _, value_time htoken _, value_time htoken _,
    value_time htoken _, value_time htoken _, value_time htoken _, nofun⟩

/-- A loop writes an array of its entries. -/
theorem value_commaLoop {α : Type*} {scalar : Str → Json ν → Prop} {entry : Nat → α → Str}
    {json : α × Nat → Json ν} {l : List α} (h : ∀ a ∈ l, ∀ k, Value scalar (entry k a) (json (a, k))) :
    Value scalar (['['] ++ commaLoop entry 0 l ++ [']']) (.arr (l.zipIdx.map json)) := by
  have items : List.Forall₂ (Value scalar) (l.zipIdx.map fun p => entry p.2 p.1)
      (l.zipIdx.map json) := by
    rw [List.forall₂_map_left_iff, List.forall₂_map_right_iff, List.forall₂_same]
    exact fun p hp => h p.1 (List.fst_mem_of_mem_zipIdx hp) p.2
  rw [commaLoop_eq]
  exact value_array items

theorem value_result (htoken : ∀ x, isNumber (token x) = true) {r : DriverResult}
    (hname : r.driver.all isPlain = true) :
    Value (Standard readNumber) (emitResult token r) (resultJson readNumber token r) := by
  have names : Fit ["driver", "measured", "errors", "rows", "columns", "warm_median", "iters"] := by
    decide
  rw [emitResult_eq readNumber, resultJson]
  refine value_object (List.cons_ne_nil _ _) names ?_
  simp only [resultMembers, List.forall_mem_cons]
  exact ⟨value_plain hname, value_integer _, value_integer _, value_integer _, value_integer _,
    value_median htoken _, value_commaLoop fun it _ i => value_iter htoken r.warmupCount i it, nofun⟩

theorem value_report (htoken : ∀ x, isNumber (token x) = true) {results : List DriverResult}
    (hnames : ∀ r ∈ results, r.driver.all isPlain = true) (cfg : Config) (sql : Str) :
    Value (Standard readNumber) (emitJson token results cfg sql)
      (objectJson (reportMembers readNumber token results cfg sql)) := by
  have names : Fit ["version", "warmups", "iters", "rows_requested", "sql", "drivers"] := by decide
  have entries : results.zipIdx.map (fun p => resultJson readNumber token p.1) =
      results.map (resultJson readNumber token) := by
    have composed := List.map_map (l := results.zipIdx) (f := Prod.fst)
      (g := resultJson readNumber token)
    rwa [List.zipIdx_map_fst, eq_comm] at composed
  rw [emitJson_eq readNumber]
  refine value_object (List.cons_ne_nil _ _) names ?_
  simp only [reportMembers, List.forall_mem_cons, ← entries]
  exact ⟨value_integer 1, value_integer _, value_integer _, value_integer _, value_esc sql,
    value_commaLoop fun r hr _ => value_result htoken (hnames r hr), nofun⟩

end Derivations

theorem resultEntry (r : DriverResult) :
    ResultEntry readNumber token r (resultJson readNumber token r) := by
  constructor
  case warm_median =>
    refine ⟨_, ?_, medianEntry readNumber token r.warmMedian⟩
    rw [resultJson, member?_objectJson]
    rfl
  case iters =>
    refine ⟨r.iters.zipIdx.map (iterJson readNumber token r.warmupCount), ?_, ?_⟩
    · rw [resultJson, member?_objectJson]
      rfl
    · rw [List.forall₂_map_right_iff, List.forall₂_same]
      exact fun p _ => iterEntry readNumber token r.warmupCount p.2 p.1
  all_goals
    rw [resultJson, member?_objectJson]
    rfl

theorem isReport (results : List DriverResult) (cfg : Config) (sql : Str) :
    IsReport readNumber token results cfg sql
      (objectJson (reportMembers readNumber token results cfg sql)) := by
  constructor
  case drivers =>
    refine ⟨results.map (resultJson readNumber token), ?_, ?_⟩
    · rw [member?_objectJson]
      rfl
    · rw [List.forall₂_map_right_iff, List.forall₂_same]
      exact fun r _ => resultEntry readNumber token r
  all_goals
    rw [member?_objectJson]
    rfl

/-- The report is JSON, and it is read back as what was measured. The names of drivers
are written as they are. -/
theorem emit_json_report (readNumber : Str → ν) (token : ℚ → Str)
    (htoken : ∀ x, isNumber (token x) = true) (results : List DriverResult)
    (hnames : ∀ r ∈ results, r.driver.all isPlain = true) (cfg : Config) (sql : Str) :
    ∃ report : Json ν, Document (Standard readNumber) (emitJson token results cfg sql) report ∧
      loads readNumber (emitJson token results cfg sql) = some report ∧
      IsReport readNumber token results cfg sql report := by
  have value : Value (Standard readNumber) (emitJson token results cfg sql)
      (objectJson (reportMembers readNumber token results cfg sql)) :=
    value_report htoken hnames cfg sql
  have document := Document.mk (w := []) (z := []) rfl value rfl
  rw [List.nil_append, List.append_nil] at document
  exact ⟨_, document, loads_document (fun _ _ => lenient_of_standard) document,
    isReport readNumber token results cfg sql⟩

/-- A warmup and a failed iteration, with a quote, a line end and a byte of no ASCII. -/
theorem emit_json_report_failed :
    let token : ℚ → Str := fun x => if x = 1 / 2 then "0.5".toList else "0".toList
    let result : DriverResult :=
      { driver := "adbc".toList, iters := [{ tTotal := 1 / 2, rows := 3 }, { error := ['"', '\n'] }]
        warmMedian := {}, warmupCount := 1, measuredCount := 0, errorCount := 1, sql := ['é'] }
    ∃ report : Json Str, Document (Standard id) (emitJson token [result] ⟨1, 1, 3⟩ ['é']) report ∧
      loads id (emitJson token [result] ⟨1, 1, 3⟩ ['é']) = some report ∧
      IsReport id token [result] ⟨1, 1, 3⟩ ['é'] report := by
  intro token result
  have htoken : ∀ x, isNumber (token x) = true := by
    intro x
    simp only [token]
    split <;> rfl
  have hname : result.driver ∈ driverNames := by simp [driverNames, result]
  exact emit_json_report id token htoken [result]
    (List.forall_mem_singleton.mpr (isPlain_driverNames _ hname)) ⟨1, 1, 3⟩ ['é']

end DeltaForgeBench.Drivers.Report
