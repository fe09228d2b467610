import DeltaForgeBench.Workloads.Positions

/-! # The table references the rewriter reaches

Over the lexemes of a text, whatever is around them: which table references are
rewritten only depends on the flag and on what was read last. The references of
a whole query do not even depend on the flag around it. -/
namespace DeltaForgeBench.Workloads.References
open DeltaForgeBench.Base.Text DeltaForgeBench.Workloads.DfCatalog
open DeltaForgeBench.Workloads.SqlGrammar DeltaForgeBench.Workloads.Layouts
open DeltaForgeBench.Workloads.FromContext DeltaForgeBench.Workloads.Scope
open DeltaForgeBench.Workloads.Qualify DeltaForgeBench.Workloads.Shadowing
open DeltaForgeBench.Workloads.Positions

/-- The name of a table reference. -/
def reference : Lexeme → Option Ident
  | .word .table w => some w
  | _ => none

/-- For each table reference of a text, whether `df_qualify` rewrites it. -/
def occurrences (q : Qualifier) {lexemes : List Lexeme} (l : Layout lexemes) : List Bool :=
  ((lexemes.zip (rewrittenAt q l)).filter fun p => (reference p.1).isSome).map Prod.snd

/-- The context behind some lexemes. -/
def reached (s : Context) (ls : List Lexeme) : Context := ls.foldl nextContext s

/-- The references among the lexemes that are rewritten, by the context alone. -/
def references (q : Qualifier) : Context → List Lexeme → List Bool
  | _, [] => []
  | s, l :: ls =>
    match reference l with
    | some w => (s.open && q.tables.contains w.text) :: references q (nextContext s l) ls
    | none => references q (nextContext s l) ls

/-- The references that name a benchmark table. -/
def named (q : Qualifier) (ls : List Lexeme) : List Bool :=
  (ls.filterMap reference).map fun w => q.tables.contains w.text

/-- No table reference is the head of a dotted name. -/
def undotted : List Lexeme → Bool
  | [] => true
  | l :: ls => !((reference l).isSome && (ls.head?.any isDot)) && undotted ls

theorem eq_of_reference {l : Lexeme} {w : Ident} (h : reference l = some w) :
    l = .word .table w := by
  unfold reference at h
  split at h
  · rw [Option.some.inj h]
  · cases h

theorem reached_append (s : Context) (ls ms : List Lexeme) :
    reached s (ls ++ ms) = reached (reached s ls) ms :=
  List.foldl_append

theorem references_append (q : Qualifier) (s : Context) (ls ms : List Lexeme) :
    references q s (ls ++ ms) = references q s ls ++ references q (reached s ls) ms := by
  induction ls generalizing s with
  | nil => rfl
  | cons l ls ih =>
    have step : reached s (l :: ls) = reached (nextContext s l) ls := rfl
    rw [List.cons_append, references, references, ih, step]
    cases reference l <;> rfl

theorem undotted_append {ls ms : List Lexeme} (h : undotted ls = true) (h' : undotted ms = true)
    (hms : ms.head?.any isDot = false) : undotted (ls ++ ms) = true := by
  induction ls with
  | nil => exact h'
  | cons l ls ih =>
    simp only [undotted, Bool.and_eq_true] at h
    rw [List.cons_append, undotted, ih h.2, Bool.and_true]
    cases ls with
    | nil => simp [hms]
    | cons m ls => exact h.1

/-! ## The references of a layout -/

theorem dotBehind_lexeme {ps : List Piece} (h : (ps.map (·.lexeme)).head?.any isDot = false) :
    dotBehind ps = false := by
  cases ps with
  | nil => rfl
  | cons p ps =>
    have dot : isDot p.lexeme = false := h
    rw [dotBehind, dot, Bool.false_and]

theorem references_pieces (q : Qualifier) : ∀ (ps : List Piece) (s : Context),
    undotted (ps.map (·.lexeme)) = true →
    (((ps.map (·.lexeme)).zip (readPieces q s ps)).filter fun p => (reference p.1).isSome).map
      Prod.snd = references q s (ps.map (·.lexeme))
  | [], _, _ => rfl
  | p :: ps, s, h => by
    simp only [List.map_cons, undotted, Bool.and_eq_true] at h
    have tail := references_pieces q ps (nextContext s p.lexeme) h.2
    rw [List.map_cons, readPieces, List.zip_cons_cons, List.filter_cons, references]
    cases hl : reference p.lexeme with
    | none => simpa using tail
    | some w =>
      have word := eq_of_reference hl
      have spelled := p.spells
      rw [word] at spelled
      have text : p.text = w.text := spelled
      have wf := w.wf
      simp only [isIdent, Bool.and_eq_true, Bool.not_eq_true'] at wf
      have free : dotBehind ps = false := by
        refine dotBehind_lexeme ?_
        simpa [hl] using h.1
      have here : readPiece q s p ps = (s.open && q.tables.contains w.text) := by
        simp only [readPiece, word, text, wf, free, Bool.not_false, Bool.true_and, Bool.and_true]
      simp only [Option.isSome_some, if_true, List.map_cons, here]
      rw [tail]

theorem occurrences_eq (q : Qualifier) {lexemes : List Lexeme} (l : Layout lexemes)
    (h : undotted lexemes = true) : occurrences q l = references q ⟨false, [], false⟩ lexemes := by
  have read := references_pieces q l.pieces ⟨false, [], false⟩ (l.writes.symm ▸ h)
  rw [l.writes] at read
  rw [occurrences, rewrittenAt_read, read]

/-! ## Passing over lexemes -/

/-- From one context to another, with the references rewritten on the way. -/
structure Passes (q : Qualifier) (s : Context) (ls : List Lexeme) (hits : List Bool)
    (s' : Context) : Prop where
  starts : ls.head?.any isDot = false
  undotted : undotted ls = true
  hits : references q s ls = hits
  ends : reached s ls = s'

theorem Passes.append {q : Qualifier} {s t u : Context} {ls ms : List Lexeme} {hs is : List Bool}
    (h : Passes q s ls hs t) (h' : Passes q t ms is u) : Passes q s (ls ++ ms) (hs ++ is) u where
  starts := by
    cases ls with
    | nil => exact h'.starts
    | cons l ls => exact h.starts
  undotted := undotted_append h.undotted h'.undotted h'.starts
  hits := by rw [references_append, h.hits, h.ends, h'.hits]
  ends := by rw [reached_append, h.ends, h'.ends]

theorem Passes.nil (q : Qualifier) (s : Context) : Passes q s [] [] s := ⟨rfl, rfl, rfl, rfl⟩

theorem any_isDot {l : Option Lexeme} (h : l ≠ some .dot) : l.any isDot = false := by
  cases l with
  | none => rfl
  | some l =>
    cases l with
    | dot => exact absurd rfl h
    | _ => rfl

theorem undotted_of_walks {s s' : Context} {ls : List Lexeme} (h : Walks s ls s') :
    undotted ls = true := by
  induction ls generalizing s with
  | nil => rfl
  | cons l ls ih =>
    cases href : reference l with
    | none => simp [undotted, href, ih h.2]
    | some w =>
      obtain rfl := eq_of_reference href
      have fits : s.open = true ∧ ls.head? ≠ some .dot := h.1
      simp [undotted, ih h.2, any_isDot fits.2]

/-- A walk meets every reference in an open position. -/
theorem references_of_walks (q : Qualifier) {s s' : Context} {ls : List Lexeme} (h : Walks s ls s') :
    references q s ls = named q ls := by
  induction ls generalizing s with
  | nil => rfl
  | cons l ls ih =>
    have tail := ih h.2
    cases href : reference l with
    | none => simpa [references, named, href] using tail
    | some w =>
      obtain rfl := eq_of_reference href
      have fits : s.open = true ∧ ls.head? ≠ some .dot := h.1
      rw [references, named, List.filterMap_cons, href, fits.1, tail]
      rfl

theorem reached_of_walks {s s' : Context} {ls : List Lexeme} (h : Walks s ls s') :
    reached s ls = s' := by
  induction ls generalizing s with
  | nil => exact h
  | cons l ls ih => exact ih h.2

theorem Passes.of_leads (q : Qualifier) {s s' : Context} {ls : List Lexeme} (h : Leads s ls s') :
    Passes q s ls (named q ls) s' :=
  ⟨any_isDot h.starts, undotted_of_walks h.walks, references_of_walks q h.walks,
    reached_of_walks h.walks⟩

/-! ## Labels of other names -/

/-- A lexeme that forgets the role of a name that is no table reference. -/
def erase : Lexeme → Lexeme
  | .word .table w => .word .table w
  | .word _ w => .word .plain w
  | l => l

theorem reference_erase (l : Lexeme) : reference (erase l) = reference l := by
  cases l with
  | word role w => cases role <;> rfl
  | _ => rfl

theorem isDot_erase (l : Lexeme) : isDot (erase l) = isDot l := by
  cases l with
  | word role w => cases role <;> rfl
  | _ => rfl

theorem nextContext_erase (s : Context) (l : Lexeme) : nextContext s (erase l) = nextContext s l := by
  cases l with
  | word role w => cases role <;> rfl
  | _ => rfl

theorem Passes.erase {q : Qualifier} {s s' : Context} {ls : List Lexeme} {hits : List Bool} :
    Passes q s (ls.map References.erase) hits s' ↔ Passes q s ls hits s' := by
  have head : ∀ ls : List Lexeme,
      (ls.map References.erase).head?.any isDot = ls.head?.any isDot := by
    intro ls
    cases ls with
    | nil => rfl
    | cons l ls => exact isDot_erase l
  have undotted : ∀ ls : List Lexeme,
      References.undotted (ls.map References.erase) = References.undotted ls := by
    intro ls
    induction ls with
    | nil => rfl
    | cons l ls ih => rw [List.map_cons, References.undotted, References.undotted, ih, head,
        reference_erase]
  have references : ∀ (ls : List Lexeme) (s : Context),
      references q s (ls.map References.erase) = references q s ls := by
    intro ls
    induction ls with
    | nil => exact fun _ => rfl
    | cons l ls ih =>
      intro s
      rw [List.map_cons, References.references, References.references, reference_erase,
        nextContext_erase, ih]
  have reached : reached s (ls.map References.erase) = reached s ls := by
    rw [References.reached, References.reached, List.foldl_map]
    simp only [nextContext_erase]
  constructor
  · intro h
    exact ⟨head ls ▸ h.starts, undotted ls ▸ h.undotted, references ls s ▸ h.hits, reached ▸ h.ends⟩
  · intro h
    exact ⟨(head ls).trans h.starts, (undotted ls).trans h.undotted, (references ls s).trans h.hits,
      reached.trans h.ends⟩

theorem named_erase (q : Qualifier) (ls : List Lexeme) :
    named q (ls.map erase) = named q ls := by
  rw [named, named, List.filterMap_map]
  congr 2
  exact funext reference_erase

theorem erase_head (b b' : Bool) (parts : List Part) (head : Ident) :
    erase (.word (headRole b parts) head) = erase (.word (headRole b' parts) head) := by
  unfold headRole
  cases b <;> cases b' <;> cases parts.isEmpty <;> rfl

mutual

/-- The flag around a query only shows in the roles of other names. -/
theorem Query.erase_lexemes (b b' : Bool) : ∀ q : Query,
    (q.lexemes b).map erase = (q.lexemes b').map erase
  | .mk withList body => by
    have first := Ctes.erase_lexemes b b' true withList
    simp only [Query.lexemes, List.map_append, first]

theorem Ctes.erase_lexemes (b b' first : Bool) : ∀ c : Ctes,
    (c.lexemes b first).map erase = (c.lexemes b' first).map erase
  | .nil => by simp only [Ctes.lexemes]
  | .cons name columns query rest => by
    have inner := Query.erase_lexemes b b' query
    have tail := Ctes.erase_lexemes b b' false rest
    simp only [Ctes.lexemes, List.map_append, inner, tail]

theorem Items.erase_lexemes {g : Bool} (b b' : Bool) : ∀ items : Items g,
    (items.lexemes b).map erase = (items.lexemes b').map erase
  | .nil => by simp only [Items.lexemes]
  | .item i rest => by
    have item := Item.erase_lexemes b b' false i
    have tail := Items.erase_lexemes b b' rest
    simp only [Items.lexemes, List.map_append, item, tail]
  | .comma i rest => by
    have item := Item.erase_lexemes b b' true i
    have tail := Items.erase_lexemes b b' rest
    simp only [Items.lexemes, List.map_append, item, tail]
  | .fromWord i rest => by simp only [Items.lexemes]
  | .orderWord rest => by simp only [Items.lexemes]

theorem Item.erase_lexemes (b b' behind : Bool) : ∀ i : Item,
    (i.lexemes b behind).map erase = (i.lexemes b' behind).map erase
  | .literal body => by simp only [Item.lexemes]
  | .sym s => by simp only [Item.lexemes]
  | .number first whole fraction => by simp only [Item.lexemes]
  | .name head parts => by
    have label := erase_head (b && behind) (b' && behind) parts head
    simp only [Item.lexemes, List.map_append, List.map_cons, List.map_nil, label]
  | .group items => by
    have inner := Items.erase_lexemes b b' items
    simp only [Item.lexemes, List.map_append, inner]
  | .query q => by
    have inner := Query.erase_lexemes b b' q
    simp only [Item.lexemes, List.map_append, inner]

end

/-- A query, whatever the flag around it: all its references are rewritten that
name a table, and the stack comes back. -/
theorem passes_query (q : Qualifier) (b b' : Bool) (stack : List Bool) (query : Query) :
    ∃ after, Passes q ⟨b, stack, false⟩ (query.lexemes b') (named q (query.lexemes b'))
      ⟨after, stack, false⟩ := by
  obtain ⟨after, hreads⟩ := Query.reads b stack [] query
  have relabel := Query.erase_lexemes b' b query
  refine ⟨after, ?_⟩
  rw [← Passes.erase, ← named_erase, relabel, named_erase, Passes.erase]
  exact .of_leads q hreads.leads

end DeltaForgeBench.Workloads.References
