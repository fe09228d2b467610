import DeltaForgeBench.Workloads.FromContext

/-! # What the words of a query stand for

Standard scoping resolves the name of a table reference to a CTE in scope, and
to a table otherwise; a CTE is in scope in the later entries of its `WITH` list,
in the body, and in every query nested there. Names compare in any letter case.
The senses of a query run parallel to its lexemes. They also tell which of the
other names stand right behind `FROM` or a comma of a `FROM` list that has not
been closed: along every part of a query the rewriter's flag is what the grammar
says, and its stack comes back. -/
namespace DeltaForgeBench.Workloads.Scope
open DeltaForgeBench.Base.Text DeltaForgeBench.Workloads.SqlGrammar
open DeltaForgeBench.Workloads.FromContext

inductive Sense
  /-- A reference to a table. -/
  | base
  /-- A reference to a CTE. -/
  | cte
  /-- The name of a CTE, of a column in a list of them, or an undotted name in an
  expression, where a table reference could stand. -/
  | exposed
  /-- The head of a dotted name there. -/
  | dotted
  | other
  deriving DecidableEq, Repr

def Ctes.names : Ctes → List Ident
  | .nil => []
  | .cons name _ _ rest => name :: Ctes.names rest

/-- The names in scope, in lower case, behind one more CTE. -/
def within (scope : List Str) (name : Ident) : List Str := lower name.text :: scope

/-- The scope of the body of a query. -/
def bodyScope (scope : List Str) (withList : Ctes) : List Str :=
  (Ctes.names withList).foldl within scope

def resolve (scope : List Str) (name : Ident) : Sense :=
  if scope.contains (lower name.text) then .cte else .base

/-- A name behind a comma, which the context exposes where `b` holds. -/
def listed (b : Bool) : Sense := if b then .exposed else .other

def columnSenses (b : Bool) : List Ident → List Sense
  | [] => []
  | _ :: cs => [.other, .other] ++ cs.flatMap (fun _ => [.other, listed b]) ++ [.other]

/-- Lexemes without a name the context could expose. -/
def plainSenses (ls : List Lexeme) : List Sense := ls.map fun _ => .other

def headSense (exposed : Bool) (parts : List Part) : Sense :=
  if !exposed then .other else if parts.isEmpty then .exposed else .dotted

mutual

def Query.senses (b : Bool) (scope : List Str) : Query → List Sense
  | .mk withList body =>
    Ctes.senses b true scope withList ++ Body.senses (bodyScope scope withList) body

def Ctes.senses (b first : Bool) (scope : List Str) : Ctes → List Sense
  | .nil => []
  | .cons name columns query rest =>
    [.other, listed (!first && b)] ++ columnSenses b columns ++ [.other, .other] ++
      Query.senses b scope query ++ [.other] ++ Ctes.senses b false (within scope name) rest

def Body.senses (scope : List Str) : Body → List Sense
  | .core c => Core.senses scope c
  | .setOp c op rest => Core.senses scope c ++ plainSenses op.lexemes ++ Body.senses scope rest

def Core.senses (scope : List Str) : Core → List Sense
  | .mk items refs clauses =>
    [.other] ++ Items.senses false scope items ++ [.other] ++ Refs.senses scope refs ++
      Clauses.senses scope clauses
  | .bare items clauses => [.other] ++ Items.senses false scope items ++ Clauses.senses scope clauses

def Clauses.senses (scope : List Str) : Clauses → List Sense
  | .nil => []
  | .cons _ items rest => [.other] ++ Items.senses false scope items ++ Clauses.senses scope rest

def Refs.senses (scope : List Str) : Refs → List Sense
  | .one c => Chain.senses scope c
  | .cons c rest => Chain.senses scope c ++ [.other] ++ Refs.senses scope rest

def Chain.senses (scope : List Str) : Chain → List Sense
  | .mk first joins => Primary.senses scope first ++ Joins.senses scope joins

def Joins.senses (scope : List Str) : Joins → List Sense
  | .nil => []
  | .on words right predicate rest =>
    plainSenses (joinLexemes words) ++ Primary.senses scope right ++ [.other] ++
      Items.senses true scope predicate ++ Joins.senses scope rest
  | .cross words right rest =>
    plainSenses (joinLexemes words) ++ Primary.senses scope right ++ Joins.senses scope rest

def Primary.senses (scope : List Str) : Primary → List Sense
  | .table name named => [resolve scope name] ++ plainSenses named.lexemes
  | .derived query named columns =>
    [.other] ++ Query.senses true scope query ++ [.other] ++ plainSenses named.lexemes ++
      columnSenses true columns

def Items.senses {g : Bool} (b : Bool) (scope : List Str) : Items g → List Sense
  | .nil => []
  | .item i rest => Item.senses b false scope i ++ Items.senses b scope rest
  | .comma i rest => [.other] ++ Item.senses b true scope i ++ Items.senses b scope rest
  | .fromWord i rest => [.other] ++ Item.senses true true scope i ++ Items.senses true scope rest
  | .orderWord rest => [.other] ++ Items.senses false scope rest

def Item.senses (b behind : Bool) (scope : List Str) : Item → List Sense
  | .literal _ => [.other]
  | .sym _ => [.other]
  | .number first whole fraction =>
    plainSenses ((first :: whole).map .sym ++ [.dot] ++ fraction.map .sym)
  | .name _ parts => [headSense (b && behind) parts] ++ plainSenses (parts.flatMap partLexemes)
  | .group items => [.other] ++ Items.senses b scope items ++ [.other]
  | .query q => [.other] ++ Query.senses b scope q ++ [.other]

end

/-! ## Senses along a walk -/

/-- The sense a lexeme may have in a context: exposed names are the ones in an
open position, and have no dot behind them. -/
def Suits (s : Context) (next : Option Lexeme) : Lexeme → Sense → Prop
  | .word .table _, e => e = .base ∨ e = .cte
  | .word .dotted _, e => e = .dotted
  | .word .guarded _, e => e = (if s.open then .exposed else .other) ∧ next ≠ some .dot
  | _, e => e = .other

/-- The senses suit the lexemes, one by one. -/
def Suited (s : Context) : List Lexeme → List Sense → Prop
  | [], [] => True
  | l :: ls, e :: es => Suits s ls.head? l e ∧ Suited (nextContext s l) ls es
  | _, _ => False

/-- A walk with its senses. -/
structure Reads (s : Context) (ls : List Lexeme) (es : List Sense) (s' : Context) : Prop where
  leads : Leads s ls s'
  suited : Suited s ls es

theorem Suits.next {s : Context} {next : Option Lexeme} {l : Lexeme} {e : Sense}
    (h : Suits s none l e) (hnext : next ≠ some .dot) : Suits s next l e := by
  cases l with
  | word role w =>
    cases role with
    | guarded => exact ⟨h.1, hnext⟩
    | _ => exact h
  | _ => exact h

theorem Suited.append {s t : Context} {ls ms : List Lexeme} {es fs : List Sense}
    (h : Suited s ls es) (hwalk : Walks s ls t) (hstarts : ms.head? ≠ some .dot)
    (h' : Suited t ms fs) : Suited s (ls ++ ms) (es ++ fs) := by
  induction ls generalizing s es with
  | nil =>
    cases es with
    | nil =>
      have same : s = t := hwalk
      exact same ▸ h'
    | cons e es => cases h
  | cons l ls ih =>
    cases es with
    | nil => cases h
    | cons e es =>
      refine ⟨?_, ih h.2 hwalk.2⟩
      cases ls with
      | nil => exact h.1.next hstarts
      | cons m ls => exact h.1

theorem Reads.append {s t u : Context} {ls ms : List Lexeme} {es fs : List Sense}
    (h : Reads s ls es t) (h' : Reads t ms fs u) : Reads s (ls ++ ms) (es ++ fs) u :=
  ⟨h.leads.append h'.leads, h.suited.append h.leads.walks h'.leads.starts h'.suited⟩

theorem Reads.nil (s : Context) : Reads s [] [] s := ⟨.nil s, trivial⟩

/-- A word of any other role than `plain`. -/
def exposable : Lexeme → Bool
  | .word .plain _ => false
  | .word _ _ => true
  | _ => false

theorem suited_plain {s : Context} {ls : List Lexeme} (hplain : ∀ l ∈ ls, exposable l = false) :
    Suited s ls (plainSenses ls) := by
  induction ls generalizing s with
  | nil => trivial
  | cons l ls ih =>
    refine ⟨?_, ih fun m hm => hplain m (List.mem_cons_of_mem _ hm)⟩
    have hl := hplain l List.mem_cons_self
    cases l with
    | word role w =>
      cases role with
      | plain => rfl
      | _ => cases hl
    | _ => rfl

/-- A part without names the context could expose. -/
theorem Reads.plain {s s' : Context} {ls : List Lexeme} (h : Leads s ls s')
    (hplain : ∀ l ∈ ls, exposable l = false) : Reads s ls (plainSenses ls) s' :=
  ⟨h, suited_plain hplain⟩

theorem Reads.guarded {b behind : Bool} {stack : List Bool} (w : Ident) :
    Reads ⟨b, stack, behind⟩ [.word .guarded w] [listed (b && behind)] ⟨b, stack, false⟩ :=
  ⟨leads_guarded w, ⟨rfl, nofun⟩, trivial⟩

/-- One lexeme that is no such word. -/
theorem Reads.one {s s' : Context} {l : Lexeme} (h : Leads s [l] s')
    (hl : exposable l = false) : Reads s [l] [.other] s' :=
  .plain h fun _ hm => List.mem_singleton.mp hm ▸ hl

/-- What is in parentheses leads back, whatever its own end. -/
theorem reads_parens {b b' behind : Bool} {stack : List Bool} {ls : List Lexeme} {es : List Sense}
    (h : Reads ⟨b, b :: stack, false⟩ ls es ⟨b', b :: stack, false⟩) :
    Reads ⟨b, stack, behind⟩ ([.opening] ++ ls ++ [.closing]) ([.other] ++ es ++ [.other])
      ⟨b, stack, false⟩ := by
  have opening : Reads ⟨b, stack, behind⟩ [.opening] [.other] ⟨b, b :: stack, false⟩ :=
    .one (Leads.one trivial nofun) rfl
  have closing : Reads ⟨b', b :: stack, false⟩ [.closing] [.other] ⟨b, stack, false⟩ :=
    .one (Leads.one trivial nofun) rfl
  exact (opening.append h).append closing

theorem reads_comma {b behind : Bool} {stack : List Bool} :
    Reads ⟨b, stack, behind⟩ [.comma] [.other] ⟨b, stack, true⟩ := .one leads_comma rfl

theorem reads_columns {b : Bool} {stack : List Bool} (columns : List Ident) :
    Reads ⟨b, stack, false⟩ (columnLexemes columns) (columnSenses b columns) ⟨b, stack, false⟩ := by
  have rest : ∀ (cs : List Ident), Reads ⟨b, b :: stack, false⟩
      (cs.flatMap fun c => [.comma, .word .guarded c]) (cs.flatMap fun _ => [.other, listed b])
      ⟨b, b :: stack, false⟩ := by
    intro cs
    induction cs with
    | nil => exact .nil _
    | cons c cs ih =>
      have name : Reads ⟨b, b :: stack, true⟩ [.word .guarded c] [listed b]
          ⟨b, b :: stack, false⟩ := by
        simpa using @Reads.guarded b true (b :: stack) c
      exact (reads_comma.append name).append ih
  cases columns with
  | nil => exact .nil _
  | cons c cs =>
    have first : Reads ⟨b, b :: stack, false⟩ [.word .guarded c] [.other]
        ⟨b, b :: stack, false⟩ := by
      simpa [listed] using @Reads.guarded b false (b :: stack) c
    simpa [columnLexemes, columnSenses] using reads_parens (first.append (rest cs))

theorem reads_alias {b : Bool} {stack : List Bool} (named : Alias) :
    Reads ⟨b, stack, false⟩ named.lexemes (plainSenses named.lexemes) ⟨b, stack, false⟩ := by
  refine .plain (leads_alias named) fun l hl => ?_
  cases named with
  | none => cases hl
  | bare name =>
    obtain rfl := List.mem_singleton.mp hl
    rfl
  | as name =>
    rcases List.mem_cons.mp hl with rfl | hl
    · rfl
    · obtain rfl := List.mem_singleton.mp hl
      rfl

theorem reads_words {b : Bool} {stack : List Bool} (words : List JoinWord) :
    Reads ⟨b, stack, false⟩ (joinLexemes words) (plainSenses (joinLexemes words))
      ⟨true, stack, true⟩ := by
  refine .plain (leads_words words) fun l hl => ?_
  rcases List.mem_append.mp hl with hl | hl
  · obtain ⟨w, -, rfl⟩ := List.mem_map.mp hl
    rfl
  · obtain rfl := List.mem_singleton.mp hl
    rfl

theorem reads_setOp {b : Bool} {stack : List Bool} (op : SetOp) :
    Reads ⟨b, stack, false⟩ op.lexemes (plainSenses op.lexemes) ⟨false, stack, false⟩ := by
  refine .plain (leads_setOp op) fun l hl => ?_
  cases op <;> simp only [SetOp.lexemes, List.mem_cons, List.not_mem_nil, or_false] at hl <;>
    rcases hl with rfl | rfl <;> rfl

theorem reads_number {b behind : Bool} {stack : List Bool} (first : Sym)
    (whole fraction : List Sym) :
    Reads ⟨b, stack, behind⟩ ((first :: whole).map .sym ++ [.dot] ++ fraction.map .sym)
      (plainSenses ((first :: whole).map .sym ++ [.dot] ++ fraction.map .sym))
      ⟨b, stack, false⟩ := by
  refine .plain (leads_number first whole fraction) fun l hl => ?_
  simp only [List.mem_append, List.mem_map, List.mem_singleton] at hl
  rcases hl with (⟨s, -, rfl⟩ | rfl) | ⟨s, -, rfl⟩ <;> rfl

theorem exposable_parts {parts : List Part} {l : Lexeme} (h : l ∈ parts.flatMap partLexemes) :
    exposable l = false := by
  obtain ⟨p, -, hl⟩ := List.mem_flatMap.mp h
  cases p <;> simp only [partLexemes, List.mem_cons, List.not_mem_nil, or_false] at hl <;>
    rcases hl with rfl | rfl <;> rfl

theorem reads_name {b behind : Bool} {stack : List Bool} (head : Ident) (parts : List Part) :
    Reads ⟨b, stack, behind⟩
      ([.word (headRole (b && behind) parts) head] ++ parts.flatMap partLexemes)
      ([headSense (b && behind) parts] ++ plainSenses (parts.flatMap partLexemes))
      ⟨b, stack, false⟩ := by
  refine ⟨leads_name head parts, ?_, suited_plain fun l hl => exposable_parts hl⟩
  unfold headRole headSense
  cases h : (b && behind) with
  | false => rfl
  | true =>
    cases parts with
    | nil => exact ⟨by simp [Context.open, h], nofun⟩
    | cons p parts => rfl

/-! ## The grammar -/

theorem reads_select {b : Bool} {stack : List Bool} :
    Reads ⟨b, stack, false⟩ [.keyword "select".toList] [.other] ⟨false, stack, false⟩ :=
  .one (leads_clauseOff rfl rfl) rfl

theorem reads_from {b : Bool} {stack : List Bool} :
    Reads ⟨b, stack, false⟩ [.keyword "from".toList] [.other] ⟨true, stack, true⟩ :=
  .one (leads_fromOn rfl) rfl

mutual

theorem Query.reads (b : Bool) (stack : List Bool) (scope : List Str) : ∀ q : Query, ∃ b',
    Reads ⟨b, stack, false⟩ (q.lexemes b) (Query.senses b scope q) ⟨b', stack, false⟩
  | .mk withList body => by
    obtain ⟨b', hbody⟩ := Body.reads b stack (bodyScope scope withList) body
    exact ⟨b', (Ctes.reads b true stack scope withList).append hbody⟩

theorem Ctes.reads (b first : Bool) (stack : List Bool) (scope : List Str) : ∀ c : Ctes,
    Reads ⟨b, stack, false⟩ (c.lexemes b first) (Ctes.senses b first scope c) ⟨b, stack, false⟩
  | .nil => .nil _
  | .cons name columns query rest => by
    obtain ⟨b', hquery⟩ := Query.reads b (b :: stack) scope query
    -- the first name stands behind `WITH`, the others behind a comma
    have head : Reads ⟨b, stack, false⟩
        [if first then .keyword "with".toList else .comma, .word .guarded name]
        [.other, listed (!first && b)] ⟨b, stack, false⟩ := by
      cases first
      · have behind : Reads ⟨b, stack, true⟩ [.word .guarded name] [listed b] ⟨b, stack, false⟩ := by
          simpa using @Reads.guarded b true stack name
        exact reads_comma.append behind
      · have withWord : Reads ⟨b, stack, false⟩ [.keyword "with".toList] [.other]
            ⟨b, stack, false⟩ := .one (leads_keyword rfl rfl) rfl
        have behind : Reads ⟨b, stack, false⟩ [.word .guarded name] [.other] ⟨b, stack, false⟩ := by
          simpa [listed] using @Reads.guarded b false stack name
        exact withWord.append behind
    have as : Reads ⟨b, stack, false⟩ [.keyword "as".toList] [.other] ⟨b, stack, false⟩ :=
      .one (leads_keyword rfl rfl) rfl
    have whole := (((head.append (reads_columns columns)).append as).append
      (reads_parens hquery)).append (Ctes.reads b false stack (within scope name) rest)
    simpa [Ctes.lexemes, Ctes.senses] using whole

theorem Body.reads (b : Bool) (stack : List Bool) (scope : List Str) : ∀ body : Body, ∃ b',
    Reads ⟨b, stack, false⟩ body.lexemes (Body.senses scope body) ⟨b', stack, false⟩
  | .core c => Core.reads b stack scope c
  | .setOp c op rest => by
    obtain ⟨b₁, hcore⟩ := Core.reads b stack scope c
    obtain ⟨b', hrest⟩ := Body.reads false stack scope rest
    exact ⟨b', (hcore.append (reads_setOp op)).append hrest⟩

theorem Core.reads (b : Bool) (stack : List Bool) (scope : List Str) : ∀ c : Core, ∃ b',
    Reads ⟨b, stack, false⟩ c.lexemes (Core.senses scope c) ⟨b', stack, false⟩
  | .mk items refs clauses => by
    obtain ⟨b₁, hitems, -⟩ := Items.reads false stack scope items
    obtain ⟨b', hclauses⟩ := Clauses.reads true stack scope clauses
    exact ⟨b', (((reads_select.append hitems).append reads_from).append
      (Refs.reads stack scope refs)).append hclauses⟩
  | .bare items clauses => by
    obtain ⟨b₁, hitems, -⟩ := Items.reads false stack scope items
    obtain ⟨b', hclauses⟩ := Clauses.reads b₁ stack scope clauses
    exact ⟨b', (reads_select.append hitems).append hclauses⟩

theorem Clauses.reads (b : Bool) (stack : List Bool) (scope : List Str) : ∀ c : Clauses, ∃ b',
    Reads ⟨b, stack, false⟩ c.lexemes (Clauses.senses scope c) ⟨b', stack, false⟩
  | .nil => ⟨b, .nil _⟩
  | .cons word items rest => by
    obtain ⟨b₁, hitems, -⟩ := Items.reads false stack scope items
    obtain ⟨b', hrest⟩ := Clauses.reads b₁ stack scope rest
    have clause : Reads ⟨b, stack, false⟩ [.keyword word.text] [.other] ⟨false, stack, false⟩ :=
      .one (leads_clause word) rfl
    exact ⟨b', (clause.append hitems).append hrest⟩

theorem Refs.reads (stack : List Bool) (scope : List Str) : ∀ r : Refs,
    Reads ⟨true, stack, true⟩ r.lexemes (Refs.senses scope r) ⟨true, stack, false⟩
  | .one c => Chain.reads stack scope c
  | .cons c rest =>
    ((Chain.reads stack scope c).append reads_comma).append (Refs.reads stack scope rest)

theorem Chain.reads (stack : List Bool) (scope : List Str) : ∀ c : Chain,
    Reads ⟨true, stack, true⟩ c.lexemes (Chain.senses scope c) ⟨true, stack, false⟩
  | .mk first joins => (Primary.reads stack scope first).append (Joins.reads stack scope joins)

theorem Joins.reads (stack : List Bool) (scope : List Str) : ∀ j : Joins,
    Reads ⟨true, stack, false⟩ j.lexemes (Joins.senses scope j) ⟨true, stack, false⟩
  | .nil => .nil _
  | .on words right predicate rest => by
    obtain ⟨b', hpred, hsame⟩ := Items.reads true stack scope predicate
    rw [hsame rfl] at hpred
    have on : Reads ⟨true, stack, false⟩ [.keyword "on".toList] [.other] ⟨true, stack, false⟩ :=
      .one (leads_keyword rfl rfl) rfl
    exact ((((reads_words words).append (Primary.reads stack scope right)).append on).append
      hpred).append (Joins.reads stack scope rest)
  | .cross words right rest =>
    ((reads_words words).append (Primary.reads stack scope right)).append
      (Joins.reads stack scope rest)

theorem Primary.reads (stack : List Bool) (scope : List Str) : ∀ p : Primary,
    Reads ⟨true, stack, true⟩ p.lexemes (Primary.senses scope p) ⟨true, stack, false⟩
  | .table name named => by
    have reference : Reads ⟨true, stack, true⟩ [.word .table name] [resolve scope name]
        ⟨true, stack, false⟩ := by
      refine ⟨Leads.one ⟨rfl, nofun⟩ nofun, ?_, trivial⟩
      unfold resolve
      split
      · exact .inr rfl
      · exact .inl rfl
    exact reference.append (reads_alias named)
  | .derived query named columns => by
    obtain ⟨b', hquery⟩ := Query.reads true (true :: stack) scope query
    exact ((reads_parens hquery).append (reads_alias named)).append (reads_columns columns)

theorem Items.reads {g : Bool} (b : Bool) (stack : List Bool) (scope : List Str) :
    ∀ items : Items g, ∃ b',
      Reads ⟨b, stack, false⟩ (items.lexemes b) (Items.senses b scope items) ⟨b', stack, false⟩ ∧
        (g = false → b' = b)
  | .nil => ⟨b, .nil _, fun _ => rfl⟩
  | .item i rest => by
    obtain ⟨b', hrest, hsame⟩ := Items.reads b stack scope rest
    exact ⟨b', (Item.reads b false stack scope i).append hrest, hsame⟩
  | .comma i rest => by
    obtain ⟨b', hrest, hsame⟩ := Items.reads b stack scope rest
    exact ⟨b', (reads_comma.append (Item.reads b true stack scope i)).append hrest, hsame⟩
  | .fromWord i rest => by
    obtain ⟨b', hrest, -⟩ := Items.reads true stack scope rest
    exact ⟨b', (reads_from.append (Item.reads true true stack scope i)).append hrest, nofun⟩
  | .orderWord rest => by
    obtain ⟨b', hrest, -⟩ := Items.reads false stack scope rest
    have order : Reads ⟨b, stack, false⟩ [.keyword "order".toList] [.other]
        ⟨false, stack, false⟩ := .one (leads_clauseOff rfl rfl) rfl
    exact ⟨b', order.append hrest, nofun⟩

theorem Item.reads (b behind : Bool) (stack : List Bool) (scope : List Str) : ∀ i : Item,
    Reads ⟨b, stack, behind⟩ (i.lexemes b behind) (Item.senses b behind scope i) ⟨b, stack, false⟩
  | .literal body => .one (Leads.one trivial nofun) rfl
  | .sym s => .one (Leads.one trivial nofun) rfl
  | .number first whole fraction => reads_number first whole fraction
  | .name head parts => reads_name head parts
  | .group items => by
    obtain ⟨b', hitems, -⟩ := Items.reads b (b :: stack) scope items
    exact reads_parens hitems
  | .query q => by
    obtain ⟨b', hquery⟩ := Query.reads b (b :: stack) scope q
    exact reads_parens hquery

end

end DeltaForgeBench.Workloads.Scope
