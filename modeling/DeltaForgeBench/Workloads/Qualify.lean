import DeltaForgeBench.Workloads.Layouts
import DeltaForgeBench.Workloads.Scope

/-! # What `df_qualify` does to a query

The rewriter's state over the tokens of a layout is the context over its
lexemes, so the tokens it prefixes are known from the grammar alone: the table
references, and the heads of dotted names that stand where a table reference
could and have white space before their dot. -/
namespace DeltaForgeBench.Workloads.Qualify
open DeltaForgeBench.Base.Text DeltaForgeBench.Workloads.DfCatalog
open DeltaForgeBench.Workloads.SqlGrammar DeltaForgeBench.Workloads.Layouts
open DeltaForgeBench.Workloads.FromContext DeltaForgeBench.Workloads.Scope

/-- What the context keeps of the rewriter's state. -/
def context (s : State) : Context := ⟨s.inFrom, s.stack, s.afterFrom⟩

/-! ## One token -/

theorem isName_ascii (q : Qualifier) {c : Char} {cs : Str} (h : isWordStart c = false)
    (hc : c.toNat < 128) : q.isName (c :: cs) = false := by
  simp [Qualifier.isName, h, show ¬ 128 ≤ c.toNat by omega]

theorem isName_blank (q : Qualifier) {c : Char} (h : isSpace c = true) : q.isName [c] = false := by
  simp [Qualifier.isName, isWordChar_false (isSpace_not_word h), q.letters.alpha_space c h]

theorem isName_word (q : Qualifier) {t : Str} (h : isWord t = true) :
    q.isName t = true ∧ t.head? ≠ some '\'' ∧ t ≠ ['('] ∧ t ≠ [')'] := by
  cases t with
  | nil => exact absurd h nofun
  | cons c cs =>
    have hc : isWordStart c = true := ((Bool.and_eq_true _ _).mp h).1
    have other : ∀ d, isWordStart d = false → c ≠ d := fun d hd e => by simp [← e, hc] at hd
    refine ⟨by simp [Qualifier.isName, hc], fun e => ?_, fun e => ?_, fun e => ?_⟩
    · exact other '\'' rfl (Option.some.inj e)
    · exact other '(' rfl (List.cons.inj e).1
    · exact other ')' rfl (List.cons.inj e).1

theorem toLower_other {c : Char} (h : isWordStart c = false) : c.toLower = c := by
  simp only [isWordStart, Bool.or_eq_false_iff, Bool.and_eq_false_iff, decide_eq_false_iff_not,
    Char.le_def] at h
  unfold Char.toLower
  split
  · rename_i hu
    rcases h.1.2 with h' | h'
    · exact absurd hu.1 h'
    · exact absurd hu.2 h'
  · rfl

theorem isSym_other {s : Sym} : s.char.toNat < 128 ∧ isSpace s.char = false ∧
    isWordStart s.char = false ∧ s.char ≠ '\'' ∧ s.char ≠ '(' ∧ s.char ≠ ')' ∧ s.char ≠ ',' ∧
    s.char ≠ '.' := by
  have wf := s.wf
  simp only [isSym, Bool.and_eq_true, Bool.not_eq_true', decide_eq_true_eq, List.contains_eq_mem,
    decide_eq_false_iff_not, List.mem_cons, List.not_mem_nil, or_false, not_or] at wf
  obtain ⟨⟨⟨h1, h2⟩, h3⟩, h4⟩ := wf
  exact ⟨h1, h2, h3, h4⟩

theorem advance_blank (q : Qualifier) (s : State) {c : Char} (h : isSpace c = true) :
    q.advance s [c] = s := by
  have opening : c ≠ '(' := ne_of_test h rfl
  have closing : c ≠ ')' := ne_of_test h rfl
  simp [Qualifier.advance, isSpace_ne_quote h, opening, closing, isName_blank q h, strip, lstrip,
    rstrip, h]

theorem toLower_comma {c : Char} (h : c.toLower = ',') : c = ',' := by
  unfold Char.toLower at h
  split at h
  · rename_i hu
    have hval := congrArg (fun d : Char => d.val.toNat) h
    simp only [UInt32.toNat_add, ge_iff_le, UInt32.le_iff_toNat_le] at hval hu
    simp only [UInt32.toNat_sub, Char.reduceVal, UInt32.reduceToNat] at hval hu
    omega
  · exact h

/-- A keyword is recognised in any letter case. -/
theorem advance_word (q : Qualifier) (s : State) {t : Str} (h : isWord t = true) :
    context (q.advance s t) = nextContext (context s) (.keyword (lower t)) := by
  obtain ⟨hname, hquote, hopening, hclosing⟩ := isName_word q h
  have comma : lower t ≠ [','] := by
    intro e
    obtain ⟨c, rfl, hc⟩ := List.map_eq_singleton_iff.mp e
    obtain rfl := toLower_comma hc
    exact absurd h (by decide)
  have after : ∀ b stack, State.afterFrom ⟨b, stack, t⟩ = fromOn.contains (lower t) := by
    intro b stack
    simp [State.afterFrom, fromOn, comma]
  simp only [Qualifier.advance, hquote, hopening, hclosing, hname, if_true, if_false]
  cases hf : fromOn.contains (lower t) with
  | true => simp only [context, nextContext, after, hf, if_true]
  | false =>
    cases hc : clauseOff.contains (lower t) <;>
      simp only [context, nextContext, after, hf, hc, Bool.false_eq_true, if_true, if_false]

theorem advance_sym (q : Qualifier) (s : State) {c : Char} (hascii : c.toNat < 128)
    (hspace : isSpace c = false) (hword : isWordStart c = false) (hquote : c ≠ '\'')
    (hopening : c ≠ '(') (hclosing : c ≠ ')') :
    context (q.advance s [c]) = { context s with behind := decide (c = ',') } := by
  have strip : strip [c] ≠ [] := by simp [strip, lstrip, rstrip, hspace]
  have after : ∀ b stack, State.afterFrom ⟨b, stack, [c]⟩ = decide (c = ',') := by
    intro b stack
    simp [State.afterFrom, lower, toLower_other hword]
  simp [Qualifier.advance, hquote, hopening, hclosing, isName_ascii q hword hascii, strip, context,
    after]

/-- The rewriter's state follows the context. -/
theorem advance_spelled (q : Qualifier) (s : State) {l : Lexeme} {t : Str} (h : Spells l t) :
    context (q.advance s t) = nextContext (context s) l := by
  cases l with
  | keyword k => rw [advance_word q s h.1, h.2]
  | word role w =>
    obtain rfl : t = w.text := h
    have wf := w.wf
    simp only [isIdent, Bool.and_eq_true, Bool.not_eq_true'] at wf
    rw [advance_word q s wf.1.1]
    simp only [nextContext, wf, Bool.false_eq_true, if_false]
  | literal body =>
    obtain rfl : t = '\'' :: doubled body ++ ['\''] := h
    simp [Qualifier.advance, context, nextContext, State.afterFrom, lower]
  | sym sy =>
    obtain rfl : t = [sy.char] := h
    obtain ⟨h1, h2, h3, h4, h5, h6, h7, -⟩ := isSym_other (s := sy)
    rw [advance_sym q s h1 h2 h3 h4 h5 h6, decide_eq_false h7]
    rfl
  | dot =>
    obtain rfl : t = ['.'] := h
    exact advance_sym q s (by decide) rfl rfl (by decide) (by decide) (by decide)
  | comma =>
    obtain rfl : t = [','] := h
    exact advance_sym q s (by decide) rfl rfl (by decide) (by decide) (by decide)
  | opening =>
    obtain rfl : t = ['('] := h
    rfl
  | closing =>
    obtain rfl : t = [')'] := h
    cases hs : s.stack <;> 
      simp [Qualifier.advance, context, nextContext, hs, State.afterFrom, lower]

/-! ## Which words are rewritten -/

/-- The word stands where a table reference could. -/
def stands : Lexeme → Bool
  | .word .table _ => true
  | .word .dotted _ => true
  | _ => false

theorem rewrites_word (q : Qualifier) (s : State) {t : Str} (h : isWord t = true) (next : Option Str) :
    q.rewrites s t next = (!fromOn.contains (lower t) && !clauseOff.contains (lower t) &&
      (context s).open && q.tables.contains t && decide (next ≠ some ['.'])) := by
  obtain ⟨hname, hquote, -⟩ := isName_word q h
  simp only [Qualifier.rewrites, hname, hquote, Context.open, context, ne_eq, not_false_eq_true,
    decide_true, Bool.true_and, Bool.and_assoc]
  congr 3
  rw [Bool.and_left_comm]

theorem rewrites_other (q : Qualifier) (s : State) {t : Str} (h : q.isName t = false)
    (next : Option Str) : q.rewrites s t next = false := by
  simp [Qualifier.rewrites, h]

theorem rewrites_spelled (q : Qualifier) (s : State) {l : Lexeme} {t : Str} {nextLexeme : Option Lexeme}
    (h : Spells l t) (hfits : Fits (context s) nextLexeme l)
    (hguarded : ∀ w, l = .word .guarded w → q.tables.contains w.text = false) (next : Option Str) :
    q.rewrites s t next = (stands l && q.tables.contains t && decide (next ≠ some ['.'])) := by
  cases l with
  | keyword k =>
    rw [rewrites_word q s h.1, h.2]
    rcases hfits with hf | hf | hf <;> simp only [hf, stands, Bool.not_true, Bool.false_and,
      Bool.and_false]
  | word role w =>
    obtain rfl : t = w.text := h
    have wf := w.wf
    simp only [isIdent, Bool.and_eq_true, Bool.not_eq_true'] at wf
    rw [rewrites_word q s wf.1.1]
    simp only [wf, Bool.not_false, Bool.true_and]
    cases role with
    | plain => simp only [show (context s).open = false from hfits, stands, Bool.false_and]
    | table => simp only [hfits.1, stands]
    | guarded => simp only [hguarded w rfl, stands, Bool.and_false, Bool.false_and]
    | dotted => simp only [hfits.1, stands]
  | literal body =>
    obtain rfl : t = '\'' :: doubled body ++ ['\''] := h
    simp [Qualifier.rewrites, stands]
  | sym sy =>
    obtain rfl : t = [sy.char] := h
    obtain ⟨h1, -, h3, -⟩ := isSym_other (s := sy)
    exact rewrites_other q s (isName_ascii q h3 h1) next
  | dot =>
    obtain rfl : t = ['.'] := h
    exact rewrites_other q s (isName_ascii q rfl (by decide)) next
  | comma =>
    obtain rfl : t = [','] := h
    exact rewrites_other q s (isName_ascii q rfl (by decide)) next
  | opening =>
    obtain rfl : t = ['('] := h
    exact rewrites_other q s (isName_ascii q rfl (by decide)) next
  | closing =>
    obtain rfl : t = [')'] := h
    exact rewrites_other q s (isName_ascii q rfl (by decide)) next

/-! ## The whole text -/

/-- Nothing right behind the piece before it. -/
def detached : List Piece → Bool
  | [] => true
  | p :: _ => !p.gap.isEmpty

/-- The text with the prefix in front of the table references. -/
def qualified (q : Qualifier) : List Piece → Str
  | [] => []
  | p :: ps =>
    p.gap ++ (if p.reference && q.tables.contains p.text then q.namePrefix else []) ++ p.text ++
      qualified q ps

/-- The text with the prefix where the rewriter puts it. -/
def rewritten (q : Qualifier) : List Piece → Str
  | [] => []
  | p :: ps =>
    p.gap ++ (if (p.reference || p.dotted && detached ps) && q.tables.contains p.text
      then q.namePrefix else []) ++ p.text ++ rewritten q ps

theorem run_blank (q : Qualifier) (s : State) {gap : Str} (h : gap.all isSpace = true)
    (ts : List Str) : q.run s (gap.map (fun c => [c]) ++ ts) = gap ++ q.run s ts := by
  induction gap with
  | nil => rfl
  | cons c cs ih =>
    obtain ⟨hc, hcs⟩ := (Bool.and_eq_true _ _).mp h
    simp only [List.map_cons, List.cons_append, Qualifier.run]
    rw [rewrites_other q s (isName_blank q hc), advance_blank q s hc, ih hcs]
    rfl

theorem spells_dot {l : Lexeme} (h : Spells l ['.']) : l = .dot := by
  cases l with
  | dot => rfl
  | keyword k => exact absurd h.1 (by decide)
  | word role w =>
    have wf := w.wf
    rw [← show ['.'] = w.text from h] at wf
    exact absurd wf (by decide)
  | literal body => exact absurd (List.cons.inj h).1 (by decide)
  | sym s => exact absurd (List.cons.inj h).1.symm isSym_other.2.2.2.2.2.2.2
  | comma => exact absurd (List.cons.inj h).1 (by decide)
  | opening => exact absurd (List.cons.inj h).1 (by decide)
  | closing => exact absurd (List.cons.inj h).1 (by decide)

/-- The token behind a piece is a dot when the next lexeme is one, written
without white space before it. -/
theorem next_dot (ps : List Piece) {trailing : Str} (h : trailing.all isSpace = true) :
    (ps.flatMap Piece.tokens ++ trailing.map fun c => [c]).head? = some ['.'] ↔
      (ps.map (·.lexeme)).head? = some .dot ∧ detached ps = false := by
  have blank : ∀ {c : Char} {cs : Str}, (c :: cs).all isSpace = true → [c] ≠ ['.'] := by
    intro c cs hc e
    obtain rfl := (List.cons.inj e).1
    exact absurd (List.all_eq_true.mp hc _ List.mem_cons_self) (by decide)
  cases ps with
  | nil =>
    cases trailing with
    | nil => simp
    | cons c cs => simpa [detached] using blank h
  | cons p ps =>
    cases hgap : p.gap with
    | nil =>
      have spelled : p.text = ['.'] ↔ p.lexeme = .dot :=
        ⟨fun e => spells_dot (e ▸ p.spells), fun e => by simpa [e, Spells] using p.spells⟩
      simp [Piece.tokens, hgap, detached, spelled]
    | cons c cs =>
      have hb := blank (hgap ▸ p.blank)
      simpa [Piece.tokens, hgap, detached] using hb

/-- One piece of a layout: its white space, and its lexeme with the prefix where
the rewriter puts it. -/
theorem run_piece (q : Qualifier) (s : State) (p : Piece) (ps : List Piece) {trailing : Str}
    (hblank : trailing.all isSpace = true)
    (hfits : Fits (context s) (ps.map (·.lexeme)).head? p.lexeme)
    (hguarded : ∀ w, p.lexeme = .word .guarded w → q.tables.contains w.text = false) :
    q.run s (p.tokens ++ (ps.flatMap Piece.tokens ++ trailing.map fun c => [c])) =
      p.gap ++ (if (p.reference || p.dotted && detached ps) && q.tables.contains p.text
        then q.namePrefix else []) ++ p.text ++
        q.run (q.advance s p.text) (ps.flatMap Piece.tokens ++ trailing.map fun c => [c]) := by
  rw [Piece.tokens, List.append_assoc, run_blank q s p.blank]
  simp only [List.singleton_append, Qualifier.run]
  rw [rewrites_spelled q s p.spells hfits hguarded]
  have dot := next_dot ps hblank
  generalize (ps.flatMap Piece.tokens ++ trailing.map fun c => [c]).head? = next at dot ⊢
  have turn : (stands p.lexeme && q.tables.contains p.text && decide (next ≠ some ['.'])) =
      ((p.reference || p.dotted && detached ps) && q.tables.contains p.text) := by
    rw [Bool.and_right_comm]
    congr 1
    unfold Piece.reference Piece.dotted
    cases hl : p.lexeme with
    | word role w =>
      rw [hl] at hfits
      cases role with
      | table =>
        have other : next ≠ some ['.'] := fun e => hfits.2 (dot.mp e).1
        simp [stands, other]
      | dotted => simp [stands, dot, show (ps.map (·.lexeme)).head? = some .dot from hfits.2]
      | _ => rfl
    | _ => rfl
  rw [turn]
  split <;> simp

theorem run_pieces (q : Qualifier) {trailing : Str} (hblank : trailing.all isSpace = true) :
    ∀ (ps : List Piece) (s : State) {s' : Context},
      Walks (context s) (ps.map (·.lexeme)) s' →
      (∀ w, .word .guarded w ∈ ps.map (·.lexeme) → q.tables.contains w.text = false) →
      q.run s (ps.flatMap Piece.tokens ++ trailing.map fun c => [c]) = rewritten q ps ++ trailing
  | [], s, _, _, _ => by simpa [Qualifier.run, rewritten] using run_blank q s hblank []
  | p :: ps, s, _, hwalks, hguarded => by
    have next := advance_spelled q s p.spells
    have tail := run_pieces q hblank ps (q.advance s p.text) (next ▸ hwalks.2)
      fun w hw => hguarded w (List.mem_cons_of_mem _ hw)
    have piece := run_piece q s p ps hblank hwalks.1
      fun w hw => hguarded w (List.mem_cons.mpr (.inl hw.symm))
    rw [List.flatMap_cons, List.append_assoc, piece, tail]
    simp [rewritten]

/-! ## When that is the intended text -/

/-- Every dotted name with a benchmark table's name for its head, where a table
reference could stand, has its dot right behind its head. -/
def Attached (q : Qualifier) : List Piece → Prop
  | [] => True
  | p :: ps =>
    (p.dotted = true → q.tables.contains p.text = true → detached ps = false) ∧ Attached q ps

theorem namePrefix_ne_nil (q : Qualifier) : 0 < q.namePrefix.length := by
  simp only [Qualifier.namePrefix, List.length_append, List.length_singleton]
  omega

theorem reference_dotted {p : Piece} (h : p.dotted = true) : p.reference = false := by
  unfold Piece.dotted at h
  split at h
  · rename_i hl
    simp [Piece.reference, hl]
  · cases h

theorem length_qualified_le (q : Qualifier) (ps : List Piece) :
    (qualified q ps).length ≤ (rewritten q ps).length := by
  induction ps with
  | nil => exact le_rfl
  | cons p ps ih =>
    simp only [qualified, rewritten, List.length_append]
    cases p.reference <;> cases q.tables.contains p.text <;> cases (p.dotted && detached ps) <;>
      simp <;> omega

theorem rewritten_eq_iff (q : Qualifier) (ps : List Piece) :
    rewritten q ps = qualified q ps ↔ Attached q ps := by
  induction ps with
  | nil => exact ⟨fun _ => trivial, fun _ => rfl⟩
  | cons p ps ih =>
    have longer := length_qualified_le q ps
    have hprefix := namePrefix_ne_nil q
    by_cases bad : p.dotted = true ∧ q.tables.contains p.text = true ∧ detached ps = true
    · obtain ⟨hdot, htable, hdetached⟩ := bad
      refine ⟨fun e => ?_, fun h => ?_⟩
      · -- one more prefix makes the text longer
        have hlen := congrArg List.length e
        simp only [rewritten, qualified, reference_dotted hdot, hdot, htable, hdetached,
          Bool.and_self, Bool.or_true, Bool.false_and, Bool.false_eq_true, if_true, if_false,
          List.length_append, List.length_nil] at hlen
        omega
      · exact absurd (h.1 hdot htable) (by simp [hdetached])
    · have same : ((p.reference || p.dotted && detached ps) && q.tables.contains p.text) =
          (p.reference && q.tables.contains p.text) := by
        cases hd : p.dotted <;> cases ht : q.tables.contains p.text <;> cases hg : detached ps <;>
          simp_all
      simp only [rewritten, qualified, Attached, same, List.append_cancel_left_eq, ih]
      refine ⟨fun h => ⟨fun hdot htable => ?_, h⟩, fun h => h.2⟩
      cases hg : detached ps with
      | false => rfl
      | true => exact absurd ⟨hdot, htable, hg⟩ bad

/-- The text of a layout with the prefix in front of the table references. -/
def qualifiedText {lexemes : List Lexeme} (q : Qualifier) (l : Layout lexemes) : Str :=
  qualified q l.pieces ++ l.trailing

theorem dfQualify_eq {query : Query} (q : Qualifier) (l : Layout (query.lexemes false))
    (hguarded : ∀ w, .word .guarded w ∈ query.lexemes false → q.tables.contains w.text = false) :
    dfQualify q l.text = rewritten q l.pieces ++ l.trailing := by
  obtain ⟨b, hreads⟩ := Query.reads false [] [] query
  rw [dfQualify, l.tokens_text]
  refine @run_pieces q l.trailing l.blank l.pieces {} ⟨b, [], false⟩ ?_ ?_
  · rw [l.writes]
    exact hreads.leads.walks
  · rw [l.writes]
    exact hguarded

/-- **A query comes out with exactly its table references qualified when no
dotted name in the place of one is written with white space before its dot.** -/
theorem dfQualify_exact_iff {query : Query} (q : Qualifier) (l : Layout (query.lexemes false))
    (hguarded : ∀ w, .word .guarded w ∈ query.lexemes false → q.tables.contains w.text = false) :
    dfQualify q l.text = qualifiedText q l ↔ Attached q l.pieces := by
  rw [dfQualify_eq q l hguarded, qualifiedText, List.append_left_inj, rewritten_eq_iff]

/-! ## Two queries -/

def itemTables : Qualifier :=
  { tables := ["item".toList], zone := "z".toList, schema := "s".toList
    letters := ⟨fun _ => false, fun _ _ => rfl⟩ }

def ident (t : String) (h : isIdent t.toList = true) : Ident := ⟨t.toList, h⟩

def one : Item := .sym ⟨'1', rfl⟩

/-- `select 1 from (select 1 from item) item`. -/
def aliased : Query :=
  let item := ident "item" rfl
  .mk .nil (.core (.mk (.item one .nil)
    (.one (.mk (.derived (.mk .nil (.core (.mk (.item one .nil)
      (.one (.mk (.table item .none) .nil)) .nil))) (.bare item) []) .nil)) .nil))

def aliasedLayout : Layout (aliased.lexemes false) where
  pieces :=
    [⟨[], .keyword "select".toList, "select".toList, rfl, rfl, rfl⟩,
     ⟨[' '], .sym ⟨'1', rfl⟩, ['1'], rfl, rfl⟩,
     ⟨[' '], .keyword "from".toList, "FROM".toList, rfl, rfl, rfl⟩,
     ⟨[' '], .opening, ['('], rfl, rfl⟩,
     ⟨[], .keyword "select".toList, "select".toList, rfl, rfl, rfl⟩,
     ⟨[' '], .sym ⟨'1', rfl⟩, ['1'], rfl, rfl⟩,
     ⟨[' '], .keyword "from".toList, "from".toList, rfl, rfl, rfl⟩,
     ⟨[' '], .word .table (ident "item" rfl), "item".toList, rfl, rfl⟩,
     ⟨[], .closing, [')'], rfl, rfl⟩,
     ⟨[' '], .word .plain (ident "item" rfl), "item".toList, rfl, rfl⟩]
  trailing := []
  writes := rfl
  apart := apart_of_all (by decide)
  blank := rfl

theorem dfQualify_exact_iff_aliased :
    dfQualify itemTables aliasedLayout.text = "select 1 FROM (select 1 from z.s.item) item".toList := by
  refine ((dfQualify_exact_iff itemTables aliasedLayout ?_).mpr ?_).trans rfl
  · intro w hw
    rw [← aliasedLayout.writes] at hw
    simp [aliasedLayout] at hw
  · simp [aliasedLayout, Attached, Piece.dotted]

/-- `select 1 from a join b on f(a.x,item .c)`. -/
def spaced : Query :=
  let predicate : Items false :=
    .item (.name (ident "f" rfl) []) (.item (.group
      (.item (.name (ident "a" rfl) [some (ident "x" rfl)])
        (.comma (.name (ident "item" rfl) [some (ident "c" rfl)]) .nil))) .nil)
  .mk .nil (.core (.mk (.item one .nil)
    (.one (.mk (.table (ident "a" rfl) .none) (.on [] (.table (ident "b" rfl) .none) predicate .nil)))
    .nil))

def spacedLayout : Layout (spaced.lexemes false) where
  pieces :=
    [⟨[], .keyword "select".toList, "select".toList, rfl, rfl, rfl⟩,
     ⟨[' '], .sym ⟨'1', rfl⟩, ['1'], rfl, rfl⟩,
     ⟨[' '], .keyword "from".toList, "from".toList, rfl, rfl, rfl⟩,
     ⟨[' '], .word .table (ident "a" rfl), "a".toList, rfl, rfl⟩,
     ⟨[' '], .keyword "join".toList, "join".toList, rfl, rfl, rfl⟩,
     ⟨[' '], .word .table (ident "b" rfl), "b".toList, rfl, rfl⟩,
     ⟨[' '], .keyword "on".toList, "on".toList, rfl, rfl, rfl⟩,
     ⟨[' '], .word .plain (ident "f" rfl), "f".toList, rfl, rfl⟩,
     ⟨[], .opening, ['('], rfl, rfl⟩,
     ⟨[], .word .plain (ident "a" rfl), "a".toList, rfl, rfl⟩,
     ⟨[], .dot, ['.'], rfl, rfl⟩,
     ⟨[], .word .plain (ident "x" rfl), "x".toList, rfl, rfl⟩,
     ⟨[], .comma, [','], rfl, rfl⟩,
     ⟨[], .word .dotted (ident "item" rfl), "item".toList, rfl, rfl⟩,
     ⟨[' '], .dot, ['.'], rfl, rfl⟩,
     ⟨[], .word .plain (ident "c" rfl), "c".toList, rfl, rfl⟩,
     ⟨[], .closing, [')'], rfl, rfl⟩]
  trailing := []
  writes := rfl
  apart := apart_of_all (by decide)
  blank := rfl

/-- A column of `item` is taken for the table. -/
theorem dfQualify_rewrites_column :
    (∀ w, .word .guarded w ∈ spaced.lexemes false → itemTables.tables.contains w.text = false) ∧
    dfQualify itemTables spacedLayout.text = "select 1 from a join b on f(a.x,z.s.item .c)".toList ∧
    qualifiedText itemTables spacedLayout = "select 1 from a join b on f(a.x,item .c)".toList := by
  refine ⟨fun w hw => ?_, rfl, rfl⟩
  rw [← spacedLayout.writes] at hw
  simp [spacedLayout] at hw

end DeltaForgeBench.Workloads.Qualify
