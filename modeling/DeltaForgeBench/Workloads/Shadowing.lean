import DeltaForgeBench.Workloads.Lossless

/-! # Names that coincide with tables

A query may use a benchmark table's name for something else. The rewriter has
no scopes: it prefixes a reference to a CTE of that name, and any other name
behind `FROM` or a comma of an open list. -/
namespace DeltaForgeBench.Workloads.Shadowing
open DeltaForgeBench.Base.Text DeltaForgeBench.Workloads.DfCatalog
open DeltaForgeBench.Workloads.SqlGrammar DeltaForgeBench.Workloads.Layouts
open DeltaForgeBench.Workloads.FromContext DeltaForgeBench.Workloads.Scope
open DeltaForgeBench.Workloads.Qualify DeltaForgeBench.Workloads.Lossless

/-! ## The occurrences that are rewritten -/

/-- The marks of the tokens that are not white space. -/
def visible (marked : List (Str × Bool)) : List Bool :=
  (marked.filter fun m => strip m.1 ≠ []).map Prod.snd

/-- For each lexeme of a query, whether `df_qualify` rewrites it. -/
def rewrittenAt (q : Qualifier) {lexemes : List Lexeme} (l : Layout lexemes) : List Bool :=
  visible (marks q {} (tokens l.text))

/-- Only occurrences that scoping resolves to a table are rewritten. -/
def OnlyBase (q : Qualifier) {query : Query} (l : Layout (query.lexemes false)) : Prop :=
  List.Forall₂ (fun hit e => hit = true → e = Sense.base) (rewrittenAt q l)
    (Query.senses false [] query)

/-- No reference to a CTE, and no other name that stands where a table reference
could, is spelled like a benchmark table. -/
def Unshadowed (q : Qualifier) (query : Query) : Prop :=
  ∀ role w e, (Lexeme.word role w, e) ∈ (query.lexemes false).zip (Query.senses false [] query) →
    e = .cte ∨ e = .exposed → q.tables.contains w.text = false

/-! ## By the senses -/

/-- What the rewriter does to a piece of a sense, by its text and what follows. -/
def hit (q : Qualifier) (p : Piece) (ps : List Piece) : Sense → Bool
  | .base => q.tables.contains p.text
  | .cte => q.tables.contains p.text
  | .exposed => q.tables.contains p.text
  | .dotted => q.tables.contains p.text && detached ps
  | .other => false

def hits (q : Qualifier) : List Piece → List Sense → List Bool
  | p :: ps, e :: es => hit q p ps e :: hits q ps es
  | _, _ => []

theorem strip_spelled {l : Lexeme} {t : Str} (h : Spells l t) : strip t ≠ [] := by
  have head : ∀ {c : Char} {cs : Str}, isSpace c = false → strip (c :: cs) ≠ [] := fun hc =>
    List.ne_nil_of_mem (mem_strip_of_not_space List.mem_cons_self hc)
  have word : ∀ {t : Str}, isWord t = true → strip t ≠ [] := by
    intro t ht
    cases t with
    | nil => cases ht
    | cons c cs =>
      obtain ⟨hc, -⟩ := (Bool.and_eq_true _ _).mp ht
      refine head ?_
      by_contra hspace
      have hnot := isWordChar_false (isSpace_not_word (by simpa using hspace))
      rw [hc] at hnot
      cases hnot
  cases l with
  | keyword k => exact word h.1
  | word role w =>
    obtain rfl : t = w.text := h
    have wf := w.wf
    simp only [isIdent, Bool.and_eq_true] at wf
    exact word wf.1.1
  | literal body =>
    obtain rfl : t = '\'' :: doubled body ++ ['\''] := h
    exact head rfl
  | sym s =>
    obtain rfl : t = [s.char] := h
    exact head isSym_other.2.1
  | dot => exact h ▸ head rfl
  | comma => exact h ▸ head rfl
  | opening => exact h ▸ head rfl
  | closing => exact h ▸ head rfl

theorem visible_blank (q : Qualifier) (s : State) {gap : Str} (h : gap.all isSpace = true)
    (ts : List Str) :
    visible (marks q s (gap.map (fun c => [c]) ++ ts)) = visible (marks q s ts) := by
  induction gap with
  | nil => rfl
  | cons c cs ih =>
    obtain ⟨hc, hcs⟩ := (Bool.and_eq_true _ _).mp h
    have blank : strip [c] = [] := by simp [strip, lstrip, rstrip, hc]
    have tail := ih hcs
    rw [List.map_cons, List.cons_append, marks, advance_blank q s hc]
    simpa [visible, blank] using tail

theorem visible_spelled (q : Qualifier) (s : State) {t : Str} (h : strip t ≠ []) (ts : List Str) :
    visible (marks q s (t :: ts)) =
      q.rewrites s t ts.head? :: visible (marks q (q.advance s t) ts) := by
  simp [visible, marks, h]

/-- The rewriter treats a lexeme by its sense. -/
theorem rewrites_suited (q : Qualifier) (s : State) (p : Piece) (ps : List Piece) {e : Sense}
    {next : Option Str} (hfits : Fits (context s) (ps.map (·.lexeme)).head? p.lexeme)
    (hsuits : Suits (context s) (ps.map (·.lexeme)).head? p.lexeme e)
    (dot : next = some ['.'] ↔ (ps.map (·.lexeme)).head? = some .dot ∧ detached ps = false) :
    q.rewrites s p.text next = hit q p ps e := by
  have spelled := p.spells
  cases hl : p.lexeme with
  | word role w =>
    rw [hl] at hfits hsuits spelled
    cases role with
    | guarded =>
      have htext : p.text = w.text := spelled
      have wf := w.wf
      simp only [isIdent, Bool.and_eq_true, Bool.not_eq_true'] at wf
      have free : next ≠ some ['.'] := fun he => hsuits.2 (dot.mp he).1
      rw [htext, rewrites_word q s wf.1.1, hsuits.1]
      cases hopen : (context s).open with
      | true => simp only [wf, hit, htext, ne_eq, free, not_false_eq_true, decide_true,
          Bool.not_false, Bool.and_true, Bool.true_and, if_true]
      | false => simp [hit]
    | table =>
      have free : next ≠ some ['.'] := fun he => hfits.2 (dot.mp he).1
      rw [rewrites_spelled q s spelled hfits (fun _ e => by cases e)]
      rcases hsuits with rfl | rfl <;> simp [stands, hit, free]
    | dotted =>
      obtain rfl : e = .dotted := hsuits
      rw [rewrites_spelled q s spelled hfits (fun _ e => by cases e)]
      simp [stands, hit, dot, show (ps.map (·.lexeme)).head? = some .dot from hfits.2]
    | plain =>
      obtain rfl : e = .other := hsuits
      rw [rewrites_spelled q s spelled hfits (fun _ e => by cases e)]
      simp [stands, hit]
  | _ =>
    rw [hl] at hfits hsuits spelled
    obtain rfl : e = .other := hsuits
    rw [rewrites_spelled q s spelled hfits (fun _ e => by cases e)]
    simp [stands, hit]

theorem visible_pieces (q : Qualifier) {trailing : Str} (hblank : trailing.all isSpace = true) :
    ∀ (ps : List Piece) (es : List Sense) (s : State) {s' : Context},
      Walks (context s) (ps.map (·.lexeme)) s' → Suited (context s) (ps.map (·.lexeme)) es →
      visible (marks q s (ps.flatMap Piece.tokens ++ trailing.map fun c => [c])) = hits q ps es
  | [], [], s, _, _, _ => by
    rw [List.flatMap_nil, List.nil_append, ← List.append_nil (trailing.map _),
      visible_blank q s hblank []]
    rfl
  | [], e :: es, s, _, _, hsuited => hsuited.elim
  | p :: ps, [], s, _, _, hsuited => hsuited.elim
  | p :: ps, e :: es, s, _, hwalks, hsuited => by
    have next := advance_spelled q s p.spells
    have tail := visible_pieces q hblank ps es (q.advance s p.text) (next ▸ hwalks.2)
      (next ▸ hsuited.2)
    rw [List.flatMap_cons, List.append_assoc, Piece.tokens, List.append_assoc,
      visible_blank q s p.blank, List.singleton_append, visible_spelled q s (strip_spelled p.spells),
      tail, hits, rewrites_suited q s p ps hwalks.1 hsuited.1 (next_dot ps hblank)]

/-- What is rewritten in a layout of a query. -/
theorem rewrittenAt_eq {query : Query} (q : Qualifier) (l : Layout (query.lexemes false)) :
    rewrittenAt q l = hits q l.pieces (Query.senses false [] query) := by
  obtain ⟨b, hreads⟩ := Query.reads false [] [] query
  rw [rewrittenAt, l.tokens_text]
  refine @visible_pieces q l.trailing l.blank l.pieces _ {} ⟨b, [], false⟩ ?_ ?_
  · rw [l.writes]
    exact hreads.leads.walks
  · rw [l.writes]
    exact hreads.suited

/-! ## When only tables are rewritten -/

/-- One word: what is rewritten is a table unless its name is spelled like one. -/
theorem hit_base_iff (q : Qualifier) {s : Context} (p : Piece) (ps : List Piece) {e : Sense}
    {next : Option Lexeme} (hsuits : Suits s next p.lexeme e) :
    (hit q p ps e = true → e = .base) ↔
      (∀ role w, p.lexeme = .word role w → e = .cte ∨ e = .exposed →
        q.tables.contains w.text = false) ∧
      (p.dotted = true → q.tables.contains p.text = true → detached ps = false) := by
  have spelled := p.spells
  cases hl : p.lexeme with
  | word role w =>
    rw [hl] at hsuits spelled
    have htext : p.text = w.text := spelled
    have only : (∀ role' w', Lexeme.word role w = .word role' w' → e = .cte ∨ e = .exposed →
        q.tables.contains w'.text = false) ↔
        (e = .cte ∨ e = .exposed → q.tables.contains w.text = false) :=
      ⟨fun h => h role w rfl, fun h _ _ heq => (Lexeme.word.inj heq).2 ▸ h⟩
    rw [only]
    cases role with
    | table =>
      have undotted : p.dotted = false := by simp [Piece.dotted, hl]
      rcases hsuits with rfl | rfl <;> simp [hit, undotted, htext]
    | dotted =>
      obtain rfl : e = .dotted := hsuits
      have dotted : p.dotted = true := by simp [Piece.dotted, hl]
      simp [hit, dotted]
    | guarded =>
      have undotted : p.dotted = false := by simp [Piece.dotted, hl]
      rcases hsuits with ⟨rfl, -⟩
      cases s.open <;> simp [hit, undotted, htext]
    | plain =>
      obtain rfl : e = .other := hsuits
      have undotted : p.dotted = false := by simp [Piece.dotted, hl]
      simp [hit, undotted]
  | _ =>
    rw [hl] at hsuits
    obtain rfl : e = .other := hsuits
    have undotted : p.dotted = false := by simp [Piece.dotted, hl]
    simp [hit, undotted]

theorem hits_base_iff (q : Qualifier) : ∀ (ps : List Piece) (es : List Sense) {s : Context},
    Suited s (ps.map (·.lexeme)) es →
    (List.Forall₂ (fun hit e => hit = true → e = Sense.base) (hits q ps es) es ↔
      (∀ role w e, (Lexeme.word role w, e) ∈ (ps.map (·.lexeme)).zip es →
        e = .cte ∨ e = .exposed → q.tables.contains w.text = false) ∧ Attached q ps)
  | [], [], _, _ => by simp [hits, Attached]
  | [], _ :: _, _, h => h.elim
  | _ :: _, [], _, h => h.elim
  | p :: ps, e :: es, s, h => by
    have head := hit_base_iff q p ps h.1
    have tail := hits_base_iff q ps es h.2
    rw [hits, List.forall₂_cons, head, tail]
    constructor
    · rintro ⟨⟨hp, hdotted⟩, hps, hattached⟩
      refine ⟨fun role w d hmem => ?_, hdotted, hattached⟩
      rcases List.mem_cons.mp hmem with heq | hmem
      · obtain ⟨hlex, rfl⟩ := Prod.mk.inj heq
        exact hp role w hlex.symm
      · exact hps role w d hmem
    · rintro ⟨hall, hdotted, hattached⟩
      refine ⟨⟨fun role w hlex => ?_, hdotted⟩, fun role w d hmem => ?_, hattached⟩
      · exact hall role w e (hlex ▸ List.mem_cons_self)
      · exact hall role w d (List.mem_cons_of_mem _ hmem)

/-- **Only table references are rewritten when no reference to a CTE, and no
other name in the place of a table reference, is spelled like a table.** -/
theorem onlyBase_iff (q : Qualifier) {query : Query} (l : Layout (query.lexemes false)) :
    OnlyBase q l ↔ Unshadowed q query ∧ Attached q l.pieces := by
  obtain ⟨b, hreads⟩ := Query.reads false [] [] query
  have suited := hreads.suited
  rw [← l.writes] at suited
  rw [OnlyBase, rewrittenAt_eq, hits_base_iff q l.pieces _ suited, l.writes]
  rfl

/-! ## A CTE named like a table -/

theorem item_isIdent : isIdent "item".toList = true := rfl

theorem one_isSym : isSym '1' = true := rfl

def item : Ident := ident "item" item_isIdent

/-- `with item as (select 1) select 1 from item`. -/
def shadowed : Query :=
  .mk (.cons item [] (.mk .nil (.core (.bare (.item one .nil) .nil))) .nil)
    (.core (.mk (.item one .nil) (.one (.mk (.table item .none) .nil)) .nil))

/-- Its lexemes, each with the white space before it and its text. -/
def shadowedTexts : List (Str × Lexeme × Str) :=
  [([], .keyword "with".toList, "with".toList),
   ([' '], .word .guarded item, "item".toList),
   ([' '], .keyword "as".toList, "as".toList),
   ([' '], .opening, ['(']),
   ([], .keyword "select".toList, "select".toList),
   ([' '], .sym ⟨'1', one_isSym⟩, ['1']),
   ([], .closing, [')']),
   ([' '], .keyword "select".toList, "select".toList),
   ([' '], .sym ⟨'1', one_isSym⟩, ['1']),
   ([' '], .keyword "from".toList, "from".toList),
   ([' '], .word .table item, "item".toList)]

theorem shadowedTexts_spelled :
    ∀ t ∈ shadowedTexts, t.1.all isSpace = true ∧ Spells t.2.1 t.2.2 := by
  have keyword : ∀ {k : Str}, isWord k = true → lower k = k → Spells (.keyword k) k :=
    fun hword hlower => ⟨hword, hlower⟩
  simp only [shadowedTexts, List.forall_mem_cons]
  exact ⟨⟨rfl, keyword rfl rfl⟩, ⟨rfl, rfl⟩, ⟨rfl, keyword rfl rfl⟩, ⟨rfl, rfl⟩,
    ⟨rfl, keyword rfl rfl⟩, ⟨rfl, rfl⟩, ⟨rfl, rfl⟩, ⟨rfl, keyword rfl rfl⟩, ⟨rfl, rfl⟩,
    ⟨rfl, keyword rfl rfl⟩, ⟨rfl, rfl⟩, List.forall_mem_nil _⟩

def shadowedLayout : Layout (shadowed.lexemes false) where
  pieces := shadowedTexts.pmap (fun t h => ⟨t.1, t.2.1, t.2.2, h.1, h.2⟩) shadowedTexts_spelled
  trailing := []
  writes := rfl
  apart := apart_of_all (by decide)
  blank := List.all_nil

/-- The reference to the CTE is sent to the benchmark table. -/
theorem reference_to_cte_rewritten :
    dfQualify itemTables shadowedLayout.text =
      "with item as (select 1) select 1 from z.s.item".toList ∧
    ¬ ∀ (q : Qualifier) (query : Query) (l : Layout (query.lexemes false)), OnlyBase q l := by
  refine ⟨rfl, fun h => ?_⟩
  have only := h itemTables shadowed shadowedLayout
  have hits : rewrittenAt itemTables shadowedLayout =
      [false, false, false, false, false, false, false, false, false, false, true] := rfl
  have senses : Query.senses false [] shadowed =
      [.other, .other, .other, .other, .other, .other, .other, .other, .other, .other, .cte] := rfl
  rw [OnlyBase, hits, senses] at only
  simp at only

end DeltaForgeBench.Workloads.Shadowing
