import DeltaForgeBench.Workloads.References

/-! # Two spellings of a join

`FROM` lists with joins spelled `ON` or `USING`, and with chains of joins in
parentheses. `USING` ends the list for the rewriter, up to the next `JOIN`; the
first table behind a parenthesis is behind no `FROM`, `JOIN` or comma. -/
namespace DeltaForgeBench.Workloads.JoinSpelling
open DeltaForgeBench.Base.Text DeltaForgeBench.Workloads.DfCatalog
open DeltaForgeBench.Workloads.SqlGrammar DeltaForgeBench.Workloads.Layouts
open DeltaForgeBench.Workloads.FromContext DeltaForgeBench.Workloads.Scope
open DeltaForgeBench.Workloads.Qualify DeltaForgeBench.Workloads.Shadowing
open DeltaForgeBench.Workloads.Positions DeltaForgeBench.Workloads.References

/-! ## Lists of references -/

inductive Condition
  | none
  | on (predicate : Items false)
  | columns (key : Ident) (more : List Ident)

mutual

inductive Operand : Type
  | primary (p : Primary)
  | parens (c : JoinChain)

inductive JoinChain : Type
  | mk (first : Operand) (joins : JoinList)

inductive JoinList : Type
  | nil
  | join (words : List JoinWord) (right : Operand) (condition : Condition) (rest : JoinList)

end

def Condition.lexemes : Condition → List Lexeme
  | .none => []
  | .on predicate => [.keyword "on".toList] ++ predicate.lexemes true
  | .columns key more => [.keyword "using".toList] ++ columnLexemes (key :: more)

mutual

def Operand.lexemes : Operand → List Lexeme
  | .primary p => p.lexemes
  | .parens c => [.opening] ++ c.lexemes ++ [.closing]

def JoinChain.lexemes : JoinChain → List Lexeme
  | .mk first joins => first.lexemes ++ joins.lexemes

def JoinList.lexemes : JoinList → List Lexeme
  | .nil => []
  | .join words right condition rest =>
    joinLexemes words ++ right.lexemes ++ condition.lexemes ++ rest.lexemes

end

def JoinList.append : JoinList → JoinList → JoinList
  | .nil, js => js
  | .join words right condition rest, js => .join words right condition (rest.append js)

/-- The references behind one, each behind a comma. -/
def restLexemes (chains : List JoinChain) : List Lexeme :=
  chains.flatMap fun c => [.comma] ++ c.lexemes

/-! ## What the rewriter does to them -/

def Operand.names (q : Qualifier) : Operand → Bool
  | .primary (.table name _) => q.tables.contains name.text
  | _ => false

/-- The flag behind a join. -/
def Condition.flag : Condition → Bool
  | .columns _ _ => false
  | _ => true

def JoinList.flag (b : Bool) : JoinList → Bool
  | .nil => b
  | .join _ _ condition rest => rest.flag condition.flag

def JoinChain.flag (b : Bool) : JoinChain → Bool
  | .mk _ joins => joins.flag b

def Condition.hits (q : Qualifier) : Condition → List Bool
  | .on predicate => named q (predicate.lexemes true)
  | _ => []

mutual

/-- Its references that are rewritten, where a table's name is (`placed`) or is
not in the place of one. -/
def Operand.hits (q : Qualifier) (placed : Bool) : Operand → List Bool
  | .primary (.table name _) => [placed && q.tables.contains name.text]
  | .primary (.derived query _ _) => named q (query.lexemes true)
  | .parens c => c.hits q false

def JoinChain.hits (q : Qualifier) (placed : Bool) : JoinChain → List Bool
  | .mk first joins => first.hits q placed ++ joins.hits q

def JoinList.hits (q : Qualifier) : JoinList → List Bool
  | .nil => []
  | .join _ right condition rest => right.hits q true ++ condition.hits q ++ rest.hits q

end

def restHits (q : Qualifier) (b : Bool) : List JoinChain → List Bool
  | [] => []
  | c :: cs => c.hits q b ++ restHits q (c.flag b) cs

def restFlag (b : Bool) (chains : List JoinChain) : Bool :=
  chains.foldl (fun b c => c.flag b) b

theorem passes_one (q : Qualifier) (s : Context) {l : Lexeme} (h : reference l = none)
    (hdot : isDot l = false) : Passes q s [l] [] (nextContext s l) :=
  ⟨hdot, by simp [undotted, h], by simp [references, h], rfl⟩

/-- Lexemes without a reference. -/
theorem passes_silent {q : Qualifier} {s s' : Context} {ls : List Lexeme} (h : Leads s ls s')
    (hls : ∀ l ∈ ls, reference l = none) : Passes q s ls [] s' := by
  have none : named q ls = [] := by
    simpa [named, List.filterMap_eq_nil_iff] using hls
  exact none ▸ .of_leads q h

theorem passes_alias (q : Qualifier) (b : Bool) (stack : List Bool) (label : Alias) :
    Passes q ⟨b, stack, false⟩ label.lexemes [] ⟨b, stack, false⟩ := by
  refine passes_silent (leads_alias label) fun l hl => ?_
  cases label with
  | none => cases hl
  | bare name =>
    obtain rfl := List.mem_singleton.mp hl
    rfl
  | as name =>
    simp only [Alias.lexemes, List.mem_cons, List.not_mem_nil, or_false] at hl
    rcases hl with rfl | rfl <;> rfl

theorem passes_columns (q : Qualifier) (b : Bool) (stack : List Bool) (columns : List Ident) :
    Passes q ⟨b, stack, false⟩ (columnLexemes columns) [] ⟨b, stack, false⟩ := by
  refine passes_silent (reads_columns columns).leads fun l hl => ?_
  cases columns with
  | nil => cases hl
  | cons c cs =>
    simp only [columnLexemes, List.mem_append, List.mem_flatMap, List.mem_cons, List.not_mem_nil,
      or_false] at hl
    rcases hl with ((rfl | rfl) | ⟨d, -, rfl | rfl⟩) | rfl <;> rfl

theorem passes_words (q : Qualifier) (b : Bool) (stack : List Bool) (words : List JoinWord) :
    Passes q ⟨b, stack, false⟩ (joinLexemes words) [] ⟨true, stack, true⟩ := by
  refine passes_silent (leads_words words) fun l hl => ?_
  rcases List.mem_append.mp hl with hl | hl
  · obtain ⟨w, -, rfl⟩ := List.mem_map.mp hl
    rfl
  · obtain rfl := List.mem_singleton.mp hl
    rfl

/-- What is in parentheses leaves the flag as it was. -/
theorem passes_parens {q : Qualifier} {b b' x : Bool} {stack : List Bool} {ls : List Lexeme}
    {hits : List Bool}
    (h : Passes q ⟨b, b :: stack, false⟩ ls hits ⟨b', b :: stack, false⟩) :
    Passes q ⟨b, stack, x⟩ ([.opening] ++ ls ++ [.closing]) hits ⟨b, stack, false⟩ := by
  have opening := passes_one q ⟨b, stack, x⟩ (l := .opening) rfl rfl
  have closing : Passes q ⟨b', b :: stack, false⟩ [.closing] [] ⟨b, stack, false⟩ :=
    passes_one q _ rfl rfl
  simpa using (opening.append h).append closing

theorem passes_condition (q : Qualifier) (stack : List Bool) (condition : Condition) :
    Passes q ⟨true, stack, false⟩ condition.lexemes (condition.hits q)
      ⟨condition.flag, stack, false⟩ := by
  cases condition with
  | none => exact .nil q _
  | on predicate =>
    obtain ⟨b', hreads, hsame⟩ := Items.reads true stack [] predicate
    obtain rfl := hsame rfl
    have on := passes_one q ⟨true, stack, false⟩ (l := .keyword "on".toList) rfl rfl
    exact on.append (.of_leads q hreads.leads)
  | columns key more =>
    have keyword := passes_one q ⟨true, stack, false⟩ (l := .keyword "using".toList) rfl rfl
    exact keyword.append (passes_columns q false stack (key :: more))

theorem passes_primary (q : Qualifier) (b x : Bool) (stack : List Bool) (p : Primary) :
    Passes q ⟨b, stack, x⟩ p.lexemes ((Operand.primary p).hits q (b && x)) ⟨b, stack, false⟩ := by
  cases p with
  | table name label =>
    have word : Passes q ⟨b, stack, x⟩ [.word .table name]
        [b && x && q.tables.contains name.text] ⟨b, stack, false⟩ := ⟨rfl, rfl, rfl, rfl⟩
    simpa [Operand.hits, Primary.lexemes] using word.append (passes_alias q b stack label)
  | derived query label columns =>
    obtain ⟨after, hquery⟩ := passes_query q b true (b :: stack) query
    have whole := ((passes_parens (x := x) hquery).append (passes_alias q b stack label)).append
      (passes_columns q b stack columns)
    simpa [Operand.hits, Primary.lexemes] using whole

mutual

theorem Operand.passes (q : Qualifier) (b x : Bool) (stack : List Bool) : ∀ o : Operand,
    Passes q ⟨b, stack, x⟩ o.lexemes (o.hits q (b && x)) ⟨b, stack, false⟩
  | .primary p => passes_primary q b x stack p
  | .parens c => by
    have inner := JoinChain.passes q b false (b :: stack) c
    rw [Bool.and_false] at inner
    exact passes_parens inner

theorem JoinChain.passes (q : Qualifier) (b x : Bool) (stack : List Bool) : ∀ c : JoinChain,
    Passes q ⟨b, stack, x⟩ c.lexemes (c.hits q (b && x)) ⟨c.flag b, stack, false⟩
  | .mk first joins => (Operand.passes q b x stack first).append (JoinList.passes q b stack joins)

theorem JoinList.passes (q : Qualifier) (b : Bool) (stack : List Bool) : ∀ joins : JoinList,
    Passes q ⟨b, stack, false⟩ joins.lexemes (joins.hits q) ⟨joins.flag b, stack, false⟩
  | .nil => .nil q _
  | .join words right condition rest => by
    have whole := (((passes_words q b stack words).append
      (Operand.passes q true true stack right)).append (passes_condition q stack condition)).append
      (JoinList.passes q condition.flag stack rest)
    simpa [JoinList.hits, JoinList.lexemes, JoinList.flag] using whole

end

theorem passes_rest (q : Qualifier) (b : Bool) (stack : List Bool) (chains : List JoinChain) :
    Passes q ⟨b, stack, false⟩ (restLexemes chains) (restHits q b chains)
      ⟨restFlag b chains, stack, false⟩ := by
  induction chains generalizing b with
  | nil => exact .nil q _
  | cons c cs ih =>
    have comma := passes_one q ⟨b, stack, false⟩ (l := .comma) rfl rfl
    have chain := JoinChain.passes q b true stack c
    rw [Bool.and_true] at chain
    have whole := (comma.append chain).append (ih (c.flag b))
    simpa [restLexemes, restHits, restFlag] using whole

/-! ## A chain in a text -/

def start : Context := ⟨false, [], false⟩

/-- What comes behind a list of references: nothing, a keyword that ends the
list, or the parenthesis that closes one opened in front of it. -/
def Ends (head : List Lexeme) : List Lexeme → Prop
  | [] => True
  | .keyword k :: _ => clauseOff.contains k = true
  | .closing :: _ => (reached start head).stack ≠ []
  | _ => False

/-- A text around a chain: what is in front of it, the references behind it in
the same list, and what is behind the list. -/
structure Surroundings where
  head : List Lexeme
  behind : List JoinChain
  tail : List Lexeme
  undottedHead : undotted head = true
  undottedTail : undotted tail = true
  ends : Ends head tail

def Surroundings.lexemes (p : Surroundings) (c : JoinChain) : List Lexeme :=
  p.head ++ (c.lexemes ++ (restLexemes p.behind ++ p.tail))

/-- The context of the chain. -/
def Surroundings.context (p : Surroundings) : Context := reached start p.head

theorem Surroundings.starts (p : Surroundings) : p.tail.head?.any isDot = false := by
  have ends := p.ends
  cases h : p.tail with
  | nil => rfl
  | cons l ls =>
    rw [h] at ends
    cases l with
    | dot => exact ends.elim
    | _ => rfl

/-- Behind the list the flag is forgotten. -/
theorem Surroundings.references_tail (p : Surroundings) (q : Qualifier) (b b' : Bool) :
    references q ⟨b, p.context.stack, false⟩ p.tail =
      references q ⟨b', p.context.stack, false⟩ p.tail := by
  have ends := p.ends
  cases h : p.tail with
  | nil => rfl
  | cons l ls =>
    rw [h] at ends
    cases l with
    | keyword k =>
      have off : clauseOff.contains k = true := ends
      simp only [references, reference, nextContext, off, if_true]
    | closing =>
      obtain ⟨top, stack, hstack⟩ := List.exists_cons_of_ne_nil (show p.context.stack ≠ [] from ends)
      rw [hstack]
      rfl
    | _ => exact ends.elim

theorem Surroundings.occurrences_eq (p : Surroundings) (q : Qualifier) (c : JoinChain)
    (l : Layout (p.lexemes c)) :
    occurrences q l =
      references q start p.head ++ (c.hits q p.context.open ++
        (restHits q (c.flag p.context.inFrom) p.behind ++
          references q ⟨true, p.context.stack, false⟩ p.tail)) := by
  have chain := JoinChain.passes q p.context.inFrom p.context.behind p.context.stack c
  have list := chain.append (passes_rest q (c.flag p.context.inFrom) p.context.stack p.behind)
  have whole : undotted (p.lexemes c) = true := by
    refine undotted_append p.undottedHead ?_ ?_
    · rw [← List.append_assoc]
      exact undotted_append list.undotted p.undottedTail p.starts
    · cases hc : c.lexemes with
      | nil =>
        cases hr : restLexemes p.behind with
        | nil => exact p.starts
        | cons m ms =>
          have starts := list.starts
          rwa [hc, hr] at starts
      | cons m ms =>
        have starts := chain.starts
        rwa [hc] at starts
  rw [References.occurrences_eq q l whole, Surroundings.lexemes, references_append, ← List.append_assoc,
    references_append]
  have read : references q (reached start p.head) (c.lexemes ++ restLexemes p.behind) =
      c.hits q p.context.open ++ restHits q (c.flag p.context.inFrom) p.behind := list.hits
  have ends : reached (reached start p.head) (c.lexemes ++ restLexemes p.behind) =
      ⟨restFlag (c.flag p.context.inFrom) p.behind, p.context.stack, false⟩ := list.ends
  rw [show (⟨false, [], false⟩ : Context) = start from rfl, read, ends,
    p.references_tail q _ true, List.append_assoc]

/-! ## Two spellings -/

theorem equals_isSym : isSym '=' = true := rfl

/-- `left.key = right.key`. -/
def equi (left key right : Ident) : Items false :=
  .item (.name left [some key]) (.item (.sym ⟨'=', equals_isSym⟩) (.item (.name right [some key]) .nil))

/-- A join on equal columns spelled with `USING`, or the beginning of a chain
put in parentheses. -/
inductive Respelling
  | columns (first : Operand) (joins : JoinList) (words : List JoinWord) (right : Operand)
      (leftName key rightName : Ident) (rest : JoinList)
  | parens (first : Operand) (joins rest : JoinList)

def Respelling.old : Respelling → JoinChain
  | .columns first joins words right leftName key rightName rest =>
    .mk first (joins.append (.join words right (.on (equi leftName key rightName)) rest))
  | .parens first joins rest => .mk first (joins.append rest)

def Respelling.new : Respelling → JoinChain
  | .columns first joins words right _ key _ rest =>
    .mk first (joins.append (.join words right (.columns key []) rest))
  | .parens first joins rest => .mk (.parens (.mk first joins)) rest

/-- A reference behind the chain names a benchmark table, up to the next join. -/
def exposed (q : Qualifier) : List JoinChain → Bool
  | [] => false
  | .mk first .nil :: cs => first.names q || exposed q cs
  | .mk first _ :: _ => first.names q

/-- No benchmark table is missed, and none is reached, in the other spelling. -/
def Respelling.Harmless (q : Qualifier) (s : Context) (behind : List JoinChain) : Respelling → Prop
  | .columns _ _ _ _ _ _ _ rest => rest = .nil → exposed q behind = false
  | .parens first joins rest =>
    (s.open = true → first.names q = false) ∧
      (rest = .nil → joins.flag s.inFrom ≠ s.inFrom → exposed q behind = false)

theorem JoinList.hits_append (q : Qualifier) : ∀ joins rest : JoinList,
    (joins.append rest).hits q = joins.hits q ++ rest.hits q
  | .nil, _ => rfl
  | .join words right condition joins, rest => by
    have tail := JoinList.hits_append q joins rest
    simp only [JoinList.append, JoinList.hits, tail, List.append_assoc]

theorem JoinList.flag_append (b : Bool) : ∀ joins rest : JoinList,
    (joins.append rest).flag b = rest.flag (joins.flag b)
  | .nil, _ => rfl
  | .join _ _ condition joins, rest => JoinList.flag_append condition.flag joins rest

theorem Operand.hits_placed (q : Qualifier) (o : Operand) :
    o.hits q true = o.hits q false ↔ o.names q = false := by
  cases o with
  | primary p =>
    cases p with
    | table name label => simp [Operand.hits, Operand.names]
    | derived query label columns => simp [Operand.hits, Operand.names]
  | parens c => simp [Operand.hits, Operand.names]

theorem Operand.length_hits (q : Qualifier) (placed placed' : Bool) (o : Operand) :
    (o.hits q placed).length = (o.hits q placed').length := by
  cases o with
  | primary p => cases p <;> rfl
  | parens c => rfl

theorem append_eq_iff {a b c d : List Bool} (h : a.length = b.length) :
    a ++ c = b ++ d ↔ a = b ∧ c = d :=
  ⟨fun e => List.append_inj e h, fun ⟨hab, hcd⟩ => by rw [hab, hcd]⟩

/-- The flag behind the chain is seen where a table is exposed. -/
theorem restHits_iff (q : Qualifier) (chains : List JoinChain) :
    restHits q true chains = restHits q false chains ↔ exposed q chains = false := by
  induction chains with
  | nil => simp [restHits, exposed]
  | cons c cs ih =>
    obtain ⟨first, joins⟩ := c
    have length := Operand.length_hits q true false first
    have hits := Operand.hits_placed q first
    cases joins with
    | nil =>
      have step : ∀ b, restHits q b (.mk first .nil :: cs) = first.hits q b ++ restHits q b cs := by
        intro b
        simp only [restHits, JoinChain.hits, JoinList.hits, List.append_nil, JoinChain.flag,
          JoinList.flag]
      rw [step, step, append_eq_iff length, hits, ih, exposed, Bool.or_eq_false_iff]
    | join words right condition rest =>
      -- the join sets the flag for the rest of the list
      have step : ∀ b, restHits q b (.mk first (.join words right condition rest) :: cs) =
          first.hits q b ++ ((JoinList.join words right condition rest).hits q ++
            restHits q (rest.flag condition.flag) cs) := by
        intro b
        simp only [restHits, JoinChain.hits, JoinChain.flag, JoinList.flag, List.append_assoc]
      have first_only : exposed q (.mk first (.join words right condition rest) :: cs) =
          first.names q := rfl
      rw [step, step, append_eq_iff length, hits, first_only, and_iff_left rfl]

theorem restHits_flags (q : Qualifier) (chains : List JoinChain) (b b' : Bool) :
    restHits q b chains = restHits q b' chains ↔ (b ≠ b' → exposed q chains = false) := by
  have iff := restHits_iff q chains
  cases b <;> cases b' <;> simp [← iff, eq_comm]

/-- Both spellings have the references of the surroundings in common. -/
theorem Surroundings.occurrences_iff (p : Surroundings) (q : Qualifier) {c c' : JoinChain}
    (l : Layout (p.lexemes c)) (l' : Layout (p.lexemes c'))
    (h : (c.hits q p.context.open).length = (c'.hits q p.context.open).length) :
    occurrences q l = occurrences q l' ↔
      c.hits q p.context.open = c'.hits q p.context.open ∧
        (c.flag p.context.inFrom ≠ c'.flag p.context.inFrom → exposed q p.behind = false) := by
  rw [p.occurrences_eq q c l, p.occurrences_eq q c' l', List.append_right_inj, append_eq_iff h,
    List.append_left_inj, restHits_flags]

/-- `USING` has no reference less than the predicate. -/
theorem JoinList.hits_columns (q : Qualifier) (joins : JoinList) (words : List JoinWord)
    (right : Operand) (leftName key rightName : Ident) (rest : JoinList) :
    (joins.append (.join words right (.on (equi leftName key rightName)) rest)).hits q =
      (joins.append (.join words right (.columns key []) rest)).hits q := by
  simp only [JoinList.hits_append, JoinList.hits, Condition.hits]
  rfl

theorem JoinList.flag_last (b : Bool) (joins : JoinList) (words : List JoinWord) (right : Operand)
    (condition : Condition) (rest : JoinList) :
    (joins.append (.join words right condition rest)).flag b = rest.flag condition.flag := by
  simp only [JoinList.flag_append, JoinList.flag]

/-- The joins of a chain set its flag, unless there are none. -/
theorem JoinList.flag_ne_iff (rest : JoinList) (b b' : Bool) :
    rest.flag b ≠ rest.flag b' ↔ rest = .nil ∧ b ≠ b' := by
  cases rest with
  | nil => simp [JoinList.flag]
  | join words right condition rest => simp [JoinList.flag]

/-- **The spelling of a join does not matter to the rewriter exactly when it
hides no table reference**: behind `USING`, a comma reference before the next
join; behind a parenthesis, the first table of the chain. -/
theorem respelling_iff (q : Qualifier) (p : Surroundings) (r : Respelling)
    (l : Layout (p.lexemes r.old)) (l' : Layout (p.lexemes r.new)) :
    occurrences q l = occurrences q l' ↔ r.Harmless q p.context p.behind := by
  cases r with
  | columns first joins words right leftName key rightName rest =>
    have hits := JoinList.hits_columns q joins words right leftName key rightName rest
    have same : (Respelling.columns first joins words right leftName key rightName rest).old.hits q
          p.context.open =
        (Respelling.columns first joins words right leftName key rightName rest).new.hits q
          p.context.open := by
      simp only [Respelling.old, Respelling.new, JoinChain.hits, hits]
    rw [p.occurrences_iff q l l' (congrArg _ same), and_iff_right same, Respelling.old,
      Respelling.new, JoinChain.flag, JoinChain.flag, JoinList.flag_last, JoinList.flag_last,
      JoinList.flag_ne_iff, Respelling.Harmless]
    simp [Condition.flag]
  | parens first joins rest =>
    have length := Operand.length_hits q p.context.open false first
    have hits : (Respelling.parens first joins rest).old.hits q p.context.open =
        first.hits q p.context.open ++ (joins.hits q ++ rest.hits q) := by
      simp only [Respelling.old, JoinChain.hits, JoinList.hits_append]
    have hits' : (Respelling.parens first joins rest).new.hits q p.context.open =
        first.hits q false ++ (joins.hits q ++ rest.hits q) := by
      simp only [Respelling.new, JoinChain.hits, Operand.hits, List.append_assoc]
    have lengths := congrArg (· + (joins.hits q ++ rest.hits q).length) length
    simp only [← List.length_append, ← hits, ← hits'] at lengths
    rw [p.occurrences_iff q l l' lengths, hits, hits', append_eq_iff length, Respelling.old,
      Respelling.new, JoinChain.flag, JoinChain.flag, JoinList.flag_append, JoinList.flag_ne_iff,
      Respelling.Harmless, and_imp]
    simp only [and_true]
    refine and_congr_left' ?_
    cases p.context.open with
    | true => simp [Operand.hits_placed]
    | false => simp

/-! ## The `FROM` list of a query -/

/-- Joins as the query files spell them. -/
def spelledJoins : Joins → JoinList
  | .nil => .nil
  | .on words right predicate rest =>
    .join words (.primary right) (.on predicate) (spelledJoins rest)
  | .cross words right rest => .join words (.primary right) .none (spelledJoins rest)

def spelledChain : Chain → JoinChain
  | .mk first joins => .mk (.primary first) (spelledJoins joins)

theorem lexemes_spelledJoins (joins : Joins) : (spelledJoins joins).lexemes = joins.lexemes := by
  cases joins with
  | nil => simp only [spelledJoins, JoinList.lexemes, Joins.lexemes]
  | on words right predicate rest =>
    have tail := lexemes_spelledJoins rest
    simp [spelledJoins, JoinList.lexemes, Joins.lexemes, Operand.lexemes, Condition.lexemes, tail]
  | cross words right rest =>
    have tail := lexemes_spelledJoins rest
    simp [spelledJoins, JoinList.lexemes, Joins.lexemes, Operand.lexemes, Condition.lexemes, tail]

theorem lexemes_spelledChain (c : Chain) : (spelledChain c).lexemes = c.lexemes := by
  obtain ⟨first, joins⟩ := c
  simp only [spelledChain, JoinChain.lexemes, Operand.lexemes, Chain.lexemes, lexemes_spelledJoins]

/-- A list of references around one of its chains. -/
def around : List Chain → Chain → List Chain → Refs
  | [], c, [] => .one c
  | [], c, d :: ds => .cons c (around [] d ds)
  | b :: bs, c, cs => .cons b (around bs c cs)

def inFront (chains : List Chain) : List Lexeme := chains.flatMap fun c => c.lexemes ++ [.comma]

theorem lexemes_around (before : List Chain) (c : Chain) (behind : List Chain) :
    (around before c behind).lexemes =
      inFront before ++ ((spelledChain c).lexemes ++ restLexemes (behind.map spelledChain)) := by
  induction before with
  | nil =>
    induction behind generalizing c with
    | nil => simp [around, inFront, restLexemes, Refs.lexemes, lexemes_spelledChain]
    | cons d ds ih =>
      have tail := ih d
      simp only [inFront, List.flatMap_nil, List.nil_append] at tail ⊢
      rw [around, Refs.lexemes, tail]
      simp [restLexemes, lexemes_spelledChain]
  | cons b bs ih =>
    rw [around, Refs.lexemes, ih]
    simp [inFront]

theorem leads_inFront (stack : List Bool) (before : List Chain) :
    Leads ⟨true, stack, true⟩ (inFront before) ⟨true, stack, true⟩ := by
  induction before with
  | nil => exact .nil _
  | cons c cs ih => exact ((Chain.reads stack [] c).leads.append leads_comma).append ih

/-- What is in front of a chain of the `FROM` list of a query. -/
def headLexemes (withList : Ctes) (items : Items false) (before : List Chain) : List Lexeme :=
  withList.lexemes false true ++ [.keyword "select".toList] ++ items.lexemes false ++
    [.keyword "from".toList] ++ inFront before

theorem leads_head (withList : Ctes) (items : Items false) (before : List Chain) :
    Leads start (headLexemes withList items before) ⟨true, [], true⟩ := by
  obtain ⟨b, hitems, -⟩ := Items.reads false [] [] items
  have select : Leads ⟨false, [], false⟩ [.keyword "select".toList] ⟨false, [], false⟩ :=
    reads_select.leads
  exact ((((Ctes.reads false true [] [] withList).leads.append select).append hitems.leads).append
    reads_from.leads).append (leads_inFront [] before)

theorem undotted_clauses (clauses : Clauses) : undotted clauses.lexemes = true := by
  obtain ⟨b, hclauses⟩ := Clauses.reads true [] [] clauses
  exact undotted_of_walks hclauses.leads.walks

theorem ends_clauses (head : List Lexeme) (clauses : Clauses) : Ends head clauses.lexemes := by
  cases clauses with
  | nil => exact trivial
  | cons word items rest => cases word <;> exact rfl

/-- A chain of the `FROM` list of a query, in its text. -/
def fromList (withList : Ctes) (items : Items false) (before behind : List Chain)
    (clauses : Clauses) : Surroundings where
  head := headLexemes withList items before
  behind := behind.map spelledChain
  tail := clauses.lexemes
  undottedHead := undotted_of_walks (leads_head withList items before).walks
  undottedTail := undotted_clauses clauses
  ends := ends_clauses _ clauses

/-- Its lexemes are those of the query. -/
theorem lexemes_fromList (withList : Ctes) (items : Items false) (before : List Chain) (c : Chain)
    (behind : List Chain) (clauses : Clauses) :
    (Query.mk withList (.core (.mk items (around before c behind) clauses))).lexemes false =
      (fromList withList items before behind clauses).lexemes (spelledChain c) := by
  simp only [Query.lexemes, Body.lexemes, Core.lexemes, lexemes_around, Surroundings.lexemes, fromList,
    headLexemes]
  simp

/-- There the chain stands where a table is rewritten. -/
theorem context_fromList (withList : Ctes) (items : Items false) (before behind : List Chain)
    (clauses : Clauses) :
    (fromList withList items before behind clauses).context = ⟨true, [], true⟩ :=
  reached_of_walks (leads_head withList items before).walks

theorem flag_spelledJoins (joins : Joins) : (spelledJoins joins).flag true = true := by
  cases joins with
  | nil => rfl
  | on words right predicate rest => exact flag_spelledJoins rest
  | cross words right rest => exact flag_spelledJoins rest

/-- Where all joins are spelled `ON`, parentheses only hide the table right
behind them. -/
theorem parens_harmless_iff (q : Qualifier) (withList : Ctes) (items : Items false)
    (before behind : List Chain) (clauses : Clauses) (first : Primary) (joins rest : Joins) :
    (Respelling.parens (.primary first) (spelledJoins joins) (spelledJoins rest)).Harmless q
        (fromList withList items before behind clauses).context
        (fromList withList items before behind clauses).behind ↔
      (Operand.primary first).names q = false := by
  rw [context_fromList, Respelling.Harmless, flag_spelledJoins]
  simp [Context.open]

/-! ## Three spellings of one list -/

theorem sales_isIdent : isIdent "sales".toList = true := rfl

theorem key_isIdent : isIdent "k".toList = true := rfl

theorem other_isIdent : isIdent "b".toList = true := rfl

def sales : Ident := ident "sales" sales_isIdent

def key : Ident := ident "k" key_isIdent

def other : Ident := ident "b" other_isIdent

def twoTables : Qualifier := { itemTables with tables := ["sales".toList, "item".toList] }

def tableOf (name : Ident) : Operand := .primary (.table name .none)

/-- `select 1 from` in front, and `, item` behind. -/
def salesList : Surroundings where
  head := [.keyword "select".toList, .sym ⟨'1', one_isSym⟩, .keyword "from".toList]
  behind := [.mk (tableOf item) .nil]
  tail := []
  undottedHead := rfl
  undottedTail := rfl
  ends := trivial

/-- `sales join b on sales.k = b.k`, and with `using (k)`. -/
def salesUsing : Respelling := .columns (tableOf sales) .nil [] (tableOf other) sales key other .nil

/-- The same chain, and in parentheses. -/
def salesParens : Respelling :=
  .parens (tableOf sales) (.join [] (tableOf other) (.on (equi sales key other)) .nil) .nil

def selectTexts : List (Str × Lexeme × Str) :=
  [([], .keyword "select".toList, "select".toList), ([' '], .sym ⟨'1', one_isSym⟩, ['1']),
   ([' '], .keyword "from".toList, "from".toList)]

/-- `sales join b`, with what stands before it. -/
def joinTexts (gap : Str) : List (Str × Lexeme × Str) :=
  [(gap, .word .table sales, "sales".toList), ([' '], .keyword "join".toList, "join".toList),
   ([' '], .word .table other, "b".toList)]

def onTexts : List (Str × Lexeme × Str) :=
  [([' '], .keyword "on".toList, "on".toList), ([' '], .word .plain sales, "sales".toList),
   ([], .dot, ['.']), ([], .word .plain key, "k".toList), ([' '], .sym ⟨'=', equals_isSym⟩, ['=']),
   ([' '], .word .plain other, "b".toList), ([], .dot, ['.']), ([], .word .plain key, "k".toList)]

def usingTexts : List (Str × Lexeme × Str) :=
  [([' '], .keyword "using".toList, "using".toList), ([' '], .opening, ['(']),
   ([], .word .guarded key, "k".toList), ([], .closing, [')'])]

def itemTexts : List (Str × Lexeme × Str) :=
  [([], .comma, [',']), ([' '], .word .table item, "item".toList)]

/-- A gap, a lexeme and its text. -/
def Written (t : Str × Lexeme × Str) : Prop := t.1.all isSpace = true ∧ Spells t.2.1 t.2.2

theorem keyword_written {gap k : Str} (hgap : gap.all isSpace = true) (hword : isWord k = true)
    (hlower : lower k = k) : Written (gap, .keyword k, k) :=
  ⟨hgap, hword, hlower⟩

theorem selectTexts_written : ∀ t ∈ selectTexts, Written t := by
  simp only [selectTexts, List.forall_mem_cons]
  exact ⟨keyword_written rfl rfl rfl, ⟨rfl, rfl⟩, keyword_written rfl rfl rfl, List.forall_mem_nil _⟩

theorem joinTexts_written {gap : Str} (h : gap.all isSpace = true) : ∀ t ∈ joinTexts gap, Written t := by
  simp only [joinTexts, List.forall_mem_cons]
  exact ⟨⟨h, rfl⟩, keyword_written rfl rfl rfl, ⟨rfl, rfl⟩, List.forall_mem_nil _⟩

theorem onTexts_written : ∀ t ∈ onTexts, Written t := by
  simp only [onTexts, List.forall_mem_cons]
  exact ⟨keyword_written rfl rfl rfl, ⟨rfl, rfl⟩, ⟨rfl, rfl⟩, ⟨rfl, rfl⟩, ⟨rfl, rfl⟩, ⟨rfl, rfl⟩,
    ⟨rfl, rfl⟩, ⟨rfl, rfl⟩, List.forall_mem_nil _⟩

theorem usingTexts_written : ∀ t ∈ usingTexts, Written t := by
  simp only [usingTexts, List.forall_mem_cons]
  exact ⟨keyword_written rfl rfl rfl, ⟨rfl, rfl⟩, ⟨rfl, rfl⟩, ⟨rfl, rfl⟩, List.forall_mem_nil _⟩

theorem itemTexts_written : ∀ t ∈ itemTexts, Written t := by
  simp only [itemTexts, List.forall_mem_cons]
  exact ⟨⟨rfl, rfl⟩, ⟨rfl, rfl⟩, List.forall_mem_nil _⟩

def piecesOf (texts : List (Str × Lexeme × Str)) (h : ∀ t ∈ texts, Written t) : List Piece :=
  texts.pmap (fun t h => ⟨t.1, t.2.1, t.2.2, h.1, h.2⟩) h

/-- `select 1 from sales join b on sales.k = b.k, item`. -/
def onLayout : Layout (salesList.lexemes salesUsing.old) where
  pieces := piecesOf selectTexts selectTexts_written ++
    piecesOf (joinTexts [' ']) (joinTexts_written rfl) ++ piecesOf onTexts onTexts_written ++
    piecesOf itemTexts itemTexts_written
  trailing := []
  writes := rfl
  apart := apart_of_all (by decide)
  blank := List.all_nil

/-- `select 1 from sales join b using (k), item`. -/
def usingLayout : Layout (salesList.lexemes salesUsing.new) where
  pieces := piecesOf selectTexts selectTexts_written ++
    piecesOf (joinTexts [' ']) (joinTexts_written rfl) ++ piecesOf usingTexts usingTexts_written ++
    piecesOf itemTexts itemTexts_written
  trailing := []
  writes := rfl
  apart := apart_of_all (by decide)
  blank := List.all_nil

theorem opening_written : ∀ t ∈ [([' '], Lexeme.opening, ['('])], Written t :=
  List.forall_mem_singleton.mpr ⟨rfl, rfl⟩

theorem closing_written : ∀ t ∈ [(([] : Str), Lexeme.closing, [')'])], Written t :=
  List.forall_mem_singleton.mpr ⟨rfl, rfl⟩

/-- `select 1 from (sales join b on sales.k = b.k), item`. -/
def parensLayout : Layout (salesList.lexemes salesParens.new) where
  pieces := piecesOf selectTexts selectTexts_written ++ piecesOf _ opening_written ++
    piecesOf (joinTexts []) (joinTexts_written rfl) ++ piecesOf onTexts onTexts_written ++
    piecesOf _ closing_written ++ piecesOf itemTexts itemTexts_written
  trailing := []
  writes := rfl
  apart := apart_of_all (by decide)
  blank := List.all_nil

/-- Behind `USING` the rewriter misses `item`, and behind a parenthesis `sales`. -/
theorem join_spelling_hides_tables :
    (dfQualify twoTables onLayout.text =
        "select 1 from z.s.sales join b on sales.k = b.k, z.s.item".toList ∧
      dfQualify twoTables usingLayout.text =
        "select 1 from z.s.sales join b using (k), item".toList ∧
      dfQualify twoTables parensLayout.text =
        "select 1 from (sales join b on sales.k = b.k), z.s.item".toList) ∧
    ¬ ∀ (q : Qualifier) (p : Surroundings) (r : Respelling) (l : Layout (p.lexemes r.old))
        (l' : Layout (p.lexemes r.new)), occurrences q l = occurrences q l' := by
  refine ⟨⟨rfl, rfl, rfl⟩, fun h => ?_⟩
  have same := h twoTables salesList salesUsing onLayout usingLayout
  have old : occurrences twoTables onLayout = [true, false, true] := rfl
  have new : occurrences twoTables usingLayout = [true, false, false] := rfl
  rw [old, new] at same
  simp at same

end DeltaForgeBench.Workloads.JoinSpelling
