import DeltaForgeBench.Base.Text

/-! # Qualifying table names for df

The query files are shared by all engines and use bare table names; df's copy
is rewritten token by token. The rewriter keeps a flag for "inside a FROM
clause", a stack of such flags for the parentheses, and the last token that was
not white space. -/
namespace DeltaForgeBench.Workloads.DfCatalog
open DeltaForgeBench.Base.Text

def createZone (zone root : Str) : Str :=
  "CREATE ZONE IF NOT EXISTS ".toList ++ zone ++ " STORAGE_ROOT = '".toList ++ root ++ ['\'']

def createSchema (zone schema : Str) : Str :=
  "CREATE SCHEMA IF NOT EXISTS ".toList ++ zone ++ ['.'] ++ schema

def registerTable (zone schema t : Str) : Str :=
  "REGISTER DELTA TABLE ".toList ++ zone ++ ['.'] ++ schema ++ ['.'] ++ t ++ " LOCATION '".toList ++
    t ++ ['\'']

/-- `df_register_setup`. -/
def dfRegisterSetup (zone schema deltaRoot : Str) (tables : List Str) : Str :=
  join ";\n".toList
    ([createZone zone deltaRoot, createSchema zone schema] ++ tables.map (registerTable zone schema))

/-! ## Tokens -/

def isWordStart (c : Char) : Bool :=
  ('a' ≤ c && c ≤ 'z') || ('A' ≤ c && c ≤ 'Z') || c = '_'

def isWordChar (c : Char) : Bool := isWordStart c || ('0' ≤ c && c ≤ '9')

/-- `(?:[^']|'')*'` after an opening quote: what it takes, and the rest. At a
pair of quotes the longer match is tried first. -/
def stringTail : Str → Option (Str × Str)
  | [] => none
  | '\'' :: '\'' :: cs =>
    match stringTail cs with
    | some (taken, rest) => some ('\'' :: '\'' :: taken, rest)
    | none => some (['\''], '\'' :: cs)
  | '\'' :: cs => some (['\''], cs)
  | c :: cs => (stringTail cs).map fun (taken, rest) => (c :: taken, rest)

/-- The match of `_TOKEN` at a non-empty text, and the rest. -/
def nextToken (c : Char) (cs : Str) : Str × Str :=
  if c = '\'' then
    match stringTail cs with
    | some (taken, rest) => (c :: taken, rest)
    | none => ([c], cs)
  else if isWordStart c then (c :: cs.takeWhile isWordChar, cs.dropWhile isWordChar)
  else ([c], cs)

def tokensFrom : Nat → Str → List Str
  | 0, _ => []
  | _ + 1, [] => []
  | fuel + 1, c :: cs => (nextToken c cs).1 :: tokensFrom fuel (nextToken c cs).2

/-- `[m.group(0) for m in _TOKEN.finditer(sql)]`; a token takes at least one
character, so the length of the text is fuel enough. -/
def tokens (sql : Str) : List Str := tokensFrom sql.length sql

/-! ## The rewriter -/

/-- `_FROM_ON`. -/
def fromOn : List Str := ["from".toList, "join".toList]

/-- `_CLAUSE_OFF`. -/
def clauseOff : List Str :=
  ["where".toList, "group".toList, "order".toList, "having".toList, "limit".toList,
   "union".toList, "select".toList, "intersect".toList, "except".toList, "using".toList,
   "qualify".toList, "window".toList]

/-- `str.isalpha` beyond ASCII; no letter is white space. -/
structure Letters where
  alpha : Char → Bool
  alpha_space : ∀ c, isSpace c = true → alpha c = false

/-- The arguments of one call, and the letters of the interpreter. -/
structure Qualifier where
  tables : List Str
  zone : Str
  schema : Str
  letters : Letters

def Qualifier.namePrefix (q : Qualifier) : Str := q.zone ++ ['.'] ++ q.schema ++ ['.']

/-- `t[:1].isalpha() or t[:1] == "_"`. -/
def Qualifier.isName (q : Qualifier) (t : Str) : Bool :=
  match t with
  | [] => false
  | c :: _ => isWordStart c || (128 ≤ c.toNat && q.letters.alpha c)

structure State where
  inFrom : Bool := false
  stack : List Bool := []
  prevSig : Str := []

/-- `prev_sig.lower() in ("from", "join", ",")`. -/
def State.afterFrom (s : State) : Bool :=
  ["from".toList, "join".toList, [',']].contains (lower s.prevSig)

/-- The state after a token; the tables have no part in it. -/
def Qualifier.advance (q : Qualifier) (s : State) (t : Str) : State :=
  if t.head? = some '\'' then { s with prevSig := t }
  else if t = ['('] then { inFrom := s.inFrom, stack := s.inFrom :: s.stack, prevSig := t }
  else if t = [')'] then
    match s.stack with
    | [] => { s with prevSig := t }
    | top :: stack => { inFrom := top, stack := stack, prevSig := t }
  else if q.isName t then
    if fromOn.contains (lower t) then { s with inFrom := true, prevSig := t }
    else if clauseOff.contains (lower t) then { s with inFrom := false, prevSig := t }
    else { s with prevSig := t }
  else if strip t = [] then s
  else { s with prevSig := t }

/-- The token is written with the prefix in front. -/
def Qualifier.rewrites (q : Qualifier) (s : State) (t : Str) (next : Option Str) : Bool :=
  t.head? ≠ some '\'' && q.isName t && !fromOn.contains (lower t) &&
    !clauseOff.contains (lower t) && s.inFrom && q.tables.contains t && s.afterFrom &&
    next ≠ some ['.']

/-- The loop over the tokens. -/
def Qualifier.run (q : Qualifier) : State → List Str → Str
  | _, [] => []
  | s, t :: ts =>
    (if q.rewrites s t ts.head? then q.namePrefix ++ t else t) ++ q.run (q.advance s t) ts

/-- `df_qualify`. -/
def dfQualify (q : Qualifier) (sql : Str) : Str := q.run {} (tokens sql)

/-! ## The tokens of a text -/

theorem stringTail_append {cs taken rest : Str} (h : stringTail cs = some (taken, rest)) :
    taken ++ rest = cs := by
  induction cs using stringTail.induct generalizing taken rest with
  | case1 => cases h
  | case2 cs t r ht ih =>
    simp only [stringTail, ht, Option.some.injEq, Prod.mk.injEq] at h
    obtain ⟨rfl, rfl⟩ := h
    simp [ih ht]
  | case3 cs ht ih =>
    simp only [stringTail, ht, Option.some.injEq, Prod.mk.injEq] at h
    obtain ⟨rfl, rfl⟩ := h
    rfl
  | case4 cs hne =>
    rw [stringTail] at h
    · obtain ⟨rfl, rfl⟩ := Prod.mk.inj (Option.some.inj h)
      rfl
    · exact hne
  | case5 c cs h1 h2 ih =>
    rw [stringTail] at h
    · obtain ⟨⟨t, r⟩, ht, heq⟩ := Option.map_eq_some_iff.mp h
      obtain ⟨rfl, rfl⟩ := Prod.mk.inj heq
      simp [ih ht]
    · exact h1
    · exact h2

/-- A quote that nothing closes. -/
theorem nextToken_open {cs : Str} (h : stringTail cs = none) : nextToken '\'' cs = (['\''], cs) := by
  rw [nextToken, if_pos rfl, h]

/-- A literal. -/
theorem nextToken_closed {cs taken rest : Str} (h : stringTail cs = some (taken, rest)) :
    nextToken '\'' cs = ('\'' :: taken, rest) := by
  rw [nextToken, if_pos rfl, h]

theorem nextToken_append (c : Char) (cs : Str) : (nextToken c cs).1 ++ (nextToken c cs).2 = c :: cs := by
  unfold nextToken
  split
  · split
    · rename_i h
      simp [stringTail_append h]
    · rfl
  · split
    · simp [List.takeWhile_append_dropWhile]
    · rfl

theorem nextToken_shorter (c : Char) (cs : Str) : (nextToken c cs).2.length ≤ cs.length := by
  have taken : (nextToken c cs).1 ≠ [] := by
    unfold nextToken
    split
    · split <;> simp
    · split <;> simp
  have hlen := congrArg List.length (nextToken_append c cs)
  have hpos := List.length_pos_iff.mpr taken
  simp only [List.length_append, List.length_cons] at hlen
  omega

/-- Fuel beyond the length of the text changes nothing. -/
theorem tokensFrom_fuel : ∀ (fuel : Nat) (sql : Str), sql.length ≤ fuel →
    tokensFrom fuel sql = tokens sql
  | 0, sql, h => by
    rw [List.eq_nil_of_length_eq_zero (Nat.le_zero.mp h)]
    rfl
  | _ + 1, [], _ => rfl
  | fuel + 1, c :: cs, h => by
    have shorter := nextToken_shorter c cs
    have hfuel := tokensFrom_fuel fuel (nextToken c cs).2 (by simp at h; omega)
    have hlength := tokensFrom_fuel cs.length (nextToken c cs).2 shorter
    simp only [tokens, tokensFrom, List.length_cons]
    rw [hfuel, hlength]
termination_by fuel sql => fuel + sql.length
decreasing_by
  all_goals simp_wf
  all_goals simp at h
  all_goals omega

@[simp] theorem tokens_nil : tokens [] = [] := rfl

theorem tokens_cons (c : Char) (cs : Str) :
    tokens (c :: cs) = (nextToken c cs).1 :: tokens (nextToken c cs).2 := by
  simp only [tokens, List.length_cons, tokensFrom]
  rw [tokensFrom_fuel _ _ (nextToken_shorter c cs)]
  rfl

/-- Induction along the tokens of a text. -/
theorem tokens_induction {motive : Str → Prop} (nil : motive [])
    (token : ∀ c cs, motive (nextToken c cs).2 → motive (c :: cs)) (sql : Str) : motive sql := by
  induction h : sql.length using Nat.strong_induction_on generalizing sql with
  | _ n ih =>
    cases sql with
    | nil => exact nil
    | cons c cs =>
      have shorter := nextToken_shorter c cs
      simp only [List.length_cons] at h
      exact token c cs (ih _ (by omega) _ rfl)

/-- The tokens of a text are the text. -/
theorem tokens_flatten (sql : Str) : (tokens sql).flatten = sql := by
  induction sql using tokens_induction with
  | nil => rfl
  | token c cs ih => rw [tokens_cons, List.flatten_cons, ih, nextToken_append]

end DeltaForgeBench.Workloads.DfCatalog
