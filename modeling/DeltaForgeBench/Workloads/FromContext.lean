import DeltaForgeBench.Workloads.SqlGrammar

/-! # The rewriter's context over the grammar

Over the lexemes of a query the rewriter's state comes down to a flag, a stack
of flags, and whether the last lexeme was `FROM`, `JOIN` or a comma. A list of
lexemes leads from one context to another when the roles of its words are the
positions the rewriter tells apart. -/
namespace DeltaForgeBench.Workloads.FromContext
open DeltaForgeBench.Base.Text DeltaForgeBench.Workloads.DfCatalog
open DeltaForgeBench.Workloads.SqlGrammar

structure Context where
  inFrom : Bool
  stack : List Bool
  behind : Bool := false

/-- The context after a lexeme. -/
def nextContext (s : Context) : Lexeme → Context
  | .keyword k =>
    { inFrom := if fromOn.contains k then true else if clauseOff.contains k then false else s.inFrom
      stack := s.stack, behind := fromOn.contains k }
  | .word _ _ => { s with behind := false }
  | .literal _ => { s with behind := false }
  | .sym _ => { s with behind := false }
  | .dot => { s with behind := false }
  | .comma => { s with behind := true }
  | .opening => { inFrom := s.inFrom, stack := s.inFrom :: s.stack }
  | .closing =>
    match s.stack with
    | [] => { s with behind := false }
    | top :: stack => { inFrom := top, stack := stack }

/-- A position where a benchmark table's name is rewritten. -/
def Context.open (s : Context) : Bool := s.inFrom && s.behind

/-- The word stands where its role says, and has a dot behind it where its role
says so. A guarded word may stand anywhere. -/
def Fits (s : Context) (next : Option Lexeme) : Lexeme → Prop
  | .keyword k => fromOn.contains k = true ∨ clauseOff.contains k = true ∨ s.open = false
  | .word .plain _ => s.open = false
  | .word .table _ => s.open = true ∧ next ≠ some .dot
  | .word .dotted _ => s.open = true ∧ next = some .dot
  | _ => True

/-- The lexemes lead from one context to another, each word where its role says. -/
def Walks (s : Context) : List Lexeme → Context → Prop
  | [], s' => s = s'
  | l :: ls, s' => Fits s ls.head? l ∧ Walks (nextContext s l) ls s'

/-- A walk that can follow a table's name. -/
structure Leads (s : Context) (ls : List Lexeme) (s' : Context) : Prop where
  starts : ls.head? ≠ some .dot
  walks : Walks s ls s'

theorem Fits.next {s : Context} {next : Option Lexeme} {l : Lexeme} (h : Fits s none l)
    (hnext : next ≠ some .dot) : Fits s next l := by
  cases l with
  | word role w =>
    cases role with
    | table => exact ⟨h.1, hnext⟩
    | dotted => exact absurd h.2 nofun
    | _ => exact h
  | _ => exact h

theorem Walks.append {s t u : Context} {ls ms : List Lexeme} (h : Walks s ls t)
    (h' : Leads t ms u) : Walks s (ls ++ ms) u := by
  induction ls generalizing s with
  | nil => exact h ▸ h'.walks
  | cons l ls ih =>
    refine ⟨?_, ih h.2⟩
    cases ls with
    | nil => exact h.1.next h'.starts
    | cons m ls => exact h.1

theorem Leads.append {s t u : Context} {ls ms : List Lexeme} (h : Leads s ls t)
    (h' : Leads t ms u) : Leads s (ls ++ ms) u := by
  refine ⟨?_, h.walks.append h'⟩
  cases ls with
  | nil => exact h'.starts
  | cons l ls => exact h.starts

theorem Leads.nil (s : Context) : Leads s [] s := ⟨nofun, rfl⟩

theorem Leads.one {s : Context} {l : Lexeme} (h : Fits s none l) (hl : l ≠ .dot) :
    Leads s [l] (nextContext s l) :=
  ⟨fun e => hl (Option.some.inj e), h, rfl⟩

/-! ## Parts without a query inside -/

/-- A keyword that opens no list may stand wherever no table's name may. -/
theorem leads_keyword {b : Bool} {stack : List Bool} {k : Str} (h : fromOn.contains k = false)
    (h' : clauseOff.contains k = false) :
    Leads ⟨b, stack, false⟩ [.keyword k] ⟨b, stack, false⟩ := by
  have one := Leads.one (s := ⟨b, stack, false⟩) (l := .keyword k)
    (.inr (.inr (Bool.and_false b))) nofun
  simpa only [nextContext, h, h', Bool.false_eq_true, if_false, if_true] using one

theorem leads_clauseOff {b behind : Bool} {stack : List Bool} {k : Str}
    (h : clauseOff.contains k = true) (h' : fromOn.contains k = false) :
    Leads ⟨b, stack, behind⟩ [.keyword k] ⟨false, stack, false⟩ := by
  have one := Leads.one (s := ⟨b, stack, behind⟩) (l := .keyword k) (.inr (.inl h)) nofun
  simpa only [nextContext, h, h', Bool.false_eq_true, if_false, if_true] using one

theorem leads_fromOn {b behind : Bool} {stack : List Bool} {k : Str}
    (h : fromOn.contains k = true) :
    Leads ⟨b, stack, behind⟩ [.keyword k] ⟨true, stack, true⟩ := by
  have one := Leads.one (s := ⟨b, stack, behind⟩) (l := .keyword k) (.inl h) nofun
  simpa only [nextContext, h, if_true] using one

theorem leads_comma {b behind : Bool} {stack : List Bool} :
    Leads ⟨b, stack, behind⟩ [.comma] ⟨b, stack, true⟩ :=
  Leads.one trivial nofun

theorem leads_guarded {b behind : Bool} {stack : List Bool} (w : Ident) :
    Leads ⟨b, stack, behind⟩ [.word .guarded w] ⟨b, stack, false⟩ :=
  Leads.one trivial nofun

theorem leads_words {b : Bool} {stack : List Bool} (words : List JoinWord) :
    Leads ⟨b, stack, false⟩ (joinLexemes words) ⟨true, stack, true⟩ := by
  unfold joinLexemes
  induction words with
  | nil => exact leads_fromOn rfl
  | cons w words ih =>
    have head : Leads ⟨b, stack, false⟩ [.keyword w.text] ⟨b, stack, false⟩ := by
      cases w <;> exact leads_keyword rfl rfl
    exact head.append ih

theorem leads_alias {b : Bool} {stack : List Bool} (named : Alias) :
    Leads ⟨b, stack, false⟩ named.lexemes ⟨b, stack, false⟩ := by
  have plain : ∀ name, Leads ⟨b, stack, false⟩ [.word .plain name] ⟨b, stack, false⟩ :=
    fun name => Leads.one (Bool.and_false b) nofun
  cases named with
  | none => exact .nil _
  | bare name => exact plain name
  | as name => exact (leads_keyword rfl rfl).append (plain name)

theorem leads_setOp {b : Bool} {stack : List Bool} (op : SetOp) :
    Leads ⟨b, stack, false⟩ op.lexemes ⟨false, stack, false⟩ := by
  cases op with
  | unionAll => exact (leads_clauseOff rfl rfl).append (leads_keyword (k := "all".toList) rfl rfl)
  | _ => exact leads_clauseOff rfl rfl

theorem walks_parts {b : Bool} {stack : List Bool} (parts : List Part) :
    Walks ⟨b, stack, false⟩ (parts.flatMap partLexemes) ⟨b, stack, false⟩ := by
  induction parts with
  | nil => rfl
  | cons p parts ih =>
    cases p with
    | none => exact ⟨trivial, trivial, ih⟩
    | some w => exact ⟨trivial, Bool.and_false b, ih⟩

theorem leads_name {b behind : Bool} {stack : List Bool} (head : Ident) (parts : List Part) :
    Leads ⟨b, stack, behind⟩
      ([.word (headRole (b && behind) parts) head] ++ parts.flatMap partLexemes)
      ⟨b, stack, false⟩ := by
  refine ⟨nofun, ?_, walks_parts parts⟩
  unfold headRole
  cases h : (b && behind) with
  | false => exact h
  | true =>
    cases parts with
    | nil => exact trivial
    | cons p parts => cases p <;> exact ⟨h, rfl⟩

theorem walks_syms {s s' : Context} {ls : List Lexeme} (hs : s.behind = false)
    (syms : List Sym) (h : Walks s ls s') : Walks s (syms.map .sym ++ ls) s' := by
  obtain ⟨b, stack, behind⟩ := s
  obtain rfl : behind = false := hs
  induction syms with
  | nil => exact h
  | cons _ _ ih => exact ⟨trivial, ih⟩

theorem leads_number {b behind : Bool} {stack : List Bool} (first : Sym) (whole fraction : List Sym) :
    Leads ⟨b, stack, behind⟩ ((first :: whole).map .sym ++ [.dot] ++ fraction.map .sym)
      ⟨b, stack, false⟩ := by
  have digits : Walks ⟨b, stack, false⟩ (fraction.map .sym) ⟨b, stack, false⟩ := by
    simpa using @walks_syms ⟨b, stack, false⟩ ⟨b, stack, false⟩ [] rfl fraction rfl
  have point : Walks ⟨b, stack, false⟩ (whole.map .sym ++ .dot :: fraction.map .sym)
      ⟨b, stack, false⟩ := walks_syms rfl whole ⟨trivial, digits⟩
  exact ⟨nofun, by simpa using ⟨trivial, point⟩⟩

theorem leads_clause {b : Bool} {stack : List Bool} (word : ClauseWord) :
    Leads ⟨b, stack, false⟩ [.keyword word.text] ⟨false, stack, false⟩ := by
  cases word <;> exact leads_clauseOff rfl rfl

end DeltaForgeBench.Workloads.FromContext
