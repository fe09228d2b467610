import DeltaForgeBench.Workloads.Shadowing

/-! # What the rewriter reads in any text

No grammar here: the pieces of a text may come in any order, and its tokens may
be those of any two texts one behind the other. A word is rewritten by the
context it stands in and the piece behind it. -/
namespace DeltaForgeBench.Workloads.Positions
open DeltaForgeBench.Base.Text DeltaForgeBench.Workloads.DfCatalog
open DeltaForgeBench.Workloads.SqlGrammar DeltaForgeBench.Workloads.Layouts
open DeltaForgeBench.Workloads.FromContext DeltaForgeBench.Workloads.Qualify
open DeltaForgeBench.Workloads.Lossless DeltaForgeBench.Workloads.Shadowing

/-! ## Pieces -/

def isDot : Lexeme → Bool
  | .dot => true
  | _ => false

/-- A dot follows, without white space before it. -/
def dotBehind : List Piece → Bool
  | [] => false
  | p :: _ => isDot p.lexeme && p.gap.isEmpty

/-- Whether the rewriter puts the prefix in front of a piece. -/
def readPiece (q : Qualifier) (s : Context) (p : Piece) (ps : List Piece) : Bool :=
  match p.lexeme with
  | .keyword _ | .word _ _ =>
    !fromOn.contains (lower p.text) && !clauseOff.contains (lower p.text) && s.open &&
      q.tables.contains p.text && !dotBehind ps
  | _ => false

/-- Piece by piece, whether it gets the prefix. -/
def readPieces (q : Qualifier) : Context → List Piece → List Bool
  | _, [] => []
  | s, p :: ps => readPiece q s p ps :: readPieces q (nextContext s p.lexeme) ps

theorem dotBehind_iff (ps : List Piece) {trailing : Str} (h : trailing.all isSpace = true) :
    (ps.flatMap Piece.tokens ++ trailing.map fun c => [c]).head? = some ['.'] ↔
      dotBehind ps = true := by
  rw [next_dot ps h]
  cases ps with
  | nil => simp [dotBehind]
  | cons p ps =>
    have dot : (p.lexeme = .dot) ↔ isDot p.lexeme = true := by
      cases p.lexeme <;> simp [isDot]
    simp [dotBehind, detached, dot]

theorem rewrites_read (q : Qualifier) (s : State) (p : Piece) (ps : List Piece) {next : Option Str}
    (hdot : next = some ['.'] ↔ dotBehind ps = true) :
    q.rewrites s p.text next = readPiece q (context s) p ps := by
  have spelled := p.spells
  have free : decide (next ≠ some ['.']) = !dotBehind ps := by
    cases hd : dotBehind ps <;> simp_all
  cases hl : p.lexeme with
  | keyword k =>
    rw [hl] at spelled
    simp only [readPiece, hl, rewrites_word q s spelled.1, free]
  | word role w =>
    rw [hl] at spelled
    have htext : p.text = w.text := spelled
    have wf := w.wf
    simp only [isIdent, Bool.and_eq_true] at wf
    simp only [readPiece, hl, rewrites_word q s (htext ▸ wf.1.1), free]
  | _ =>
    rw [hl] at spelled
    rw [@rewrites_spelled q s _ _ none spelled trivial (fun _ e => by cases e)]
    simp [stands, readPiece, hl]

/-- The marks of any pieces. -/
theorem visible_read (q : Qualifier) {trailing : Str} (hblank : trailing.all isSpace = true) :
    ∀ (ps : List Piece) (s : State),
      visible (marks q s (ps.flatMap Piece.tokens ++ trailing.map fun c => [c])) =
        readPieces q (context s) ps
  | [], s => by
    rw [List.flatMap_nil, List.nil_append, ← List.append_nil (trailing.map _),
      visible_blank q s hblank []]
    rfl
  | p :: ps, s => by
    have tail := visible_read q hblank ps (q.advance s p.text)
    rw [advance_spelled q s p.spells] at tail
    rw [List.flatMap_cons, List.append_assoc, Piece.tokens, List.append_assoc,
      visible_blank q s p.blank, List.singleton_append, visible_spelled q s (strip_spelled p.spells),
      tail, readPieces, rewrites_read q s p ps (dotBehind_iff ps hblank)]

theorem rewrittenAt_read (q : Qualifier) {lexemes : List Lexeme} (l : Layout lexemes) :
    rewrittenAt q l = readPieces q ⟨false, [], false⟩ l.pieces := by
  rw [rewrittenAt, l.tokens_text]
  exact visible_read q l.blank l.pieces {}

/-! ## Two texts one behind the other -/

/-- The state behind some tokens. -/
def Qualifier.after (q : Qualifier) (s : State) (ts : List Str) : State := ts.foldl q.advance s

/-- The marks of tokens with more behind them, the first of which is `next`. -/
def marksUpTo (q : Qualifier) (next : Option Str) : State → List Str → List (Str × Bool)
  | _, [] => []
  | s, t :: ts => (t, q.rewrites s t (ts.head?.or next)) :: marksUpTo q next (q.advance s t) ts

theorem marks_append (q : Qualifier) (s : State) (ts us : List Str) :
    marks q s (ts ++ us) = marksUpTo q us.head? s ts ++ marks q (Qualifier.after q s ts) us := by
  induction ts generalizing s with
  | nil => rfl
  | cons t ts ih =>
    rw [List.cons_append, marks, ih, marksUpTo, List.head?_append]
    rfl

theorem marksUpTo_tokens (q : Qualifier) (next : Option Str) (s : State) (ts : List Str) :
    (marksUpTo q next s ts).map Prod.fst = ts := by
  induction ts generalizing s with
  | nil => rfl
  | cons t ts ih => rw [marksUpTo, List.map_cons, ih]

/-- Only a dot behind them matters. -/
theorem rewrites_next (q : Qualifier) (s : State) (t : Str) {next next' : Option Str}
    (h : next = some ['.'] ↔ next' = some ['.']) : q.rewrites s t next = q.rewrites s t next' := by
  simp only [Qualifier.rewrites, ne_eq, h]

theorem marksUpTo_next (q : Qualifier) {next next' : Option Str}
    (h : next = some ['.'] ↔ next' = some ['.']) (s : State) (ts : List Str) :
    marksUpTo q next s ts = marksUpTo q next' s ts := by
  induction ts generalizing s with
  | nil => rfl
  | cons t ts ih =>
    rw [marksUpTo, marksUpTo, ih]
    cases ts with
    | nil => simp only [List.head?_nil, Option.none_or, rewrites_next q s t h]
    | cons u us => rfl

theorem marksUpTo_none (q : Qualifier) (s : State) (ts : List Str) :
    marksUpTo q none s ts = marks q s ts := by
  induction ts generalizing s with
  | nil => rfl
  | cons t ts ih => rw [marksUpTo, ih, Option.or_none, marks]

theorem marksUpTo_snoc (q : Qualifier) (next : Option Str) (s : State) (ts : List Str) (t : Str) :
    marksUpTo q next s (ts ++ [t]) =
      marksUpTo q (some t) s ts ++ [(t, q.rewrites (Qualifier.after q s ts) t next)] := by
  induction ts generalizing s with
  | nil => rfl
  | cons u us ih =>
    rw [List.cons_append, marksUpTo, ih, marksUpTo, List.head?_append, List.head?_cons]
    cases us.head? <;> rfl


end DeltaForgeBench.Workloads.Positions
