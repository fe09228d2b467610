import DeltaForgeBench.Workloads.SqlGrammar
import Mathlib.Data.List.Chain

/-! # Layouts of a query

The texts a list of lexemes is written as: keywords in any letter case, white
space anywhere between two lexemes, and at least where they would run together.
The tokenizer takes such a text apart into its lexemes and single characters of
white space. -/
namespace DeltaForgeBench.Workloads.Layouts
open DeltaForgeBench.Base.Text DeltaForgeBench.Workloads.DfCatalog
open DeltaForgeBench.Workloads.SqlGrammar

def doubled (body : Str) : Str :=
  body.flatMap fun c => if c = '\'' then ['\'', '\''] else [c]

/-- The texts of a lexeme. -/
def Spells : Lexeme → Str → Prop
  | .keyword k, t => isWord t = true ∧ lower t = k
  | .word _ w, t => t = w.text
  | .literal body, t => t = '\'' :: doubled body ++ ['\'']
  | .sym s, t => t = [s.char]
  | .dot, t => t = ['.']
  | .comma, t => t = [',']
  | .opening, t => t = ['(']
  | .closing, t => t = [')']

/-- The token would go on with this character. -/
def takes : Lexeme → Char → Bool
  | .keyword _, c => isWordChar c
  | .word _ _, c => isWordChar c
  | .literal _, c => c = '\''
  | _, _ => false

/-- A lexeme as written, and the white space before it. -/
structure Piece where
  gap : Str
  lexeme : Lexeme
  text : Str
  blank : gap.all isSpace = true
  spells : Spells lexeme text

def Piece.source (p : Piece) : Str := p.gap ++ p.text

def Piece.tokens (p : Piece) : List Str := p.gap.map (fun c => [c]) ++ [p.text]

/-- The name of a table reference. -/
def Piece.reference (p : Piece) : Bool :=
  match p.lexeme with
  | .word .table _ => true
  | _ => false

/-- The head of a dotted name that stands where a table reference could. -/
def Piece.dotted (p : Piece) : Bool :=
  match p.lexeme with
  | .word .dotted _ => true
  | _ => false

structure Layout (lexemes : List Lexeme) where
  pieces : List Piece
  trailing : Str
  writes : pieces.map (·.lexeme) = lexemes
  apart : pieces.IsChain fun p q => ∀ c ∈ q.source.head?, takes p.lexeme c = false
  blank : trailing.all isSpace = true

/-- No two pieces run together, one character after each piece. -/
theorem apart_of_all {pieces : List Piece}
    (h : pieces.IsChain fun p q => (q.source.head?.all fun c => !takes p.lexeme c) = true) :
    pieces.IsChain fun p q => ∀ c ∈ q.source.head?, takes p.lexeme c = false :=
  h.imp fun p q hpq c hc => by
    rw [hc] at hpq
    simpa using hpq

def Layout.text {lexemes : List Lexeme} (l : Layout lexemes) : Str :=
  l.pieces.flatMap Piece.source ++ l.trailing

/-! ## Characters -/

theorem isSpace_not_word {c : Char} (h : isSpace c = true) : isWordChar c = false := by
  simp only [isSpace, Bool.or_eq_true, Bool.and_eq_true, decide_eq_true_eq,
    List.contains_eq_mem, List.mem_cons, List.not_mem_nil, or_false] at h
  simp only [isWordChar, isWordStart, Bool.or_eq_false_iff, Bool.and_eq_false_iff,
    decide_eq_false_iff_not, Char.le_def, UInt32.le_iff_toNat_le]
  have hval : c.val.toNat = c.toNat := rfl
  have hunder : c = '_' → c.toNat = 95 := fun e => e ▸ rfl
  simp only [hval, Char.reduceVal, UInt32.reduceToNat]
  refine ⟨⟨⟨?_, ?_⟩, fun e => ?_⟩, ?_⟩
  · omega
  · omega
  · have := hunder e
    omega
  · omega

theorem isWordChar_false {c : Char} (h : isWordChar c = false) : isWordStart c = false := by
  simp only [isWordChar, Bool.or_eq_false_iff] at h
  exact h.1

theorem isSpace_ne_quote {c : Char} (h : isSpace c = true) : c ≠ '\'' := ne_of_test h rfl

theorem takes_blank {l : Lexeme} {c : Char} (h : isSpace c = true) : takes l c = false := by
  cases l with
  | keyword k => exact isSpace_not_word h
  | word role w => exact isSpace_not_word h
  | literal body => exact decide_eq_false (isSpace_ne_quote h)
  | _ => rfl

/-! ## The token at a lexeme -/

theorem nextToken_char {c : Char} {cs : Str} (h : c ≠ '\'') (h' : isWordStart c = false) :
    nextToken c cs = ([c], cs) := by
  simp [nextToken, h, h']

theorem nextToken_word {c : Char} {cs rest : Str} (hc : isWordStart c = true)
    (hcs : cs.all isWordChar = true) (hrest : ∀ d ∈ rest.head?, isWordChar d = false) :
    nextToken c (cs ++ rest) = (c :: cs, rest) := by
  have quote : c ≠ '\'' := ne_of_test hc rfl
  have all : ∀ d ∈ cs, isWordChar d = true := List.all_eq_true.mp hcs
  have stop : rest.takeWhile isWordChar = [] ∧ rest.dropWhile isWordChar = rest := by
    cases rest with
    | nil => exact ⟨rfl, rfl⟩
    | cons d ds => simp [hrest d rfl]
  simp [nextToken, quote, hc, List.takeWhile_append_of_pos all, List.dropWhile_append_of_pos all, stop]

/-- A quoted text ends at the first quote that is not doubled. -/
theorem stringTail_doubled (body : Str) {rest : Str} (hrest : rest.head? ≠ some '\'') :
    stringTail (doubled body ++ '\'' :: rest) = some (doubled body ++ ['\''], rest) := by
  induction body with
  | nil =>
    cases rest with
    | nil => rfl
    | cons d ds =>
      have hd : d ≠ '\'' := fun e => hrest (congrArg some e)
      simp only [doubled, List.flatMap_nil, List.nil_append]
      rw [stringTail]
      intro cs e
      exact hd (List.cons.inj e).1
  | cons c cs ih =>
    by_cases hc : c = '\''
    · subst hc
      have two : doubled ('\'' :: cs) = '\'' :: '\'' :: doubled cs := rfl
      rw [two, List.cons_append, List.cons_append, stringTail, ih]
      rfl
    · have one : doubled (c :: cs) = c :: doubled cs := by
        simp [doubled, hc]
      rw [one, List.cons_append, stringTail, ih]
      · rfl
      · exact fun _ e => absurd e hc
      · exact hc

theorem nextToken_spelled {l : Lexeme} {t rest : Str} (h : Spells l t)
    (hrest : ∀ c ∈ rest.head?, takes l c = false) :
    ∃ c cs, t = c :: cs ∧ nextToken c (cs ++ rest) = (t, rest) := by
  have word : ∀ {t : Str}, isWord t = true → (∀ c ∈ rest.head?, isWordChar c = false) →
      ∃ c cs, t = c :: cs ∧ nextToken c (cs ++ rest) = (t, rest) := by
    intro t ht hrest
    cases t with
    | nil => exact absurd ht nofun
    | cons c cs =>
      obtain ⟨hc, hcs⟩ := (Bool.and_eq_true _ _).mp ht
      exact ⟨c, cs, rfl, nextToken_word hc hcs hrest⟩
  cases l with
  | keyword k => exact word h.1 hrest
  | word role w =>
    obtain rfl : t = w.text := h
    have wf := w.wf
    simp only [isIdent, Bool.and_eq_true] at wf
    exact word wf.1.1 hrest
  | literal body =>
    obtain rfl : t = '\'' :: doubled body ++ ['\''] := h
    refine ⟨'\'', doubled body ++ ['\''], rfl, ?_⟩
    have free : rest.head? ≠ some '\'' := fun e => by simpa [takes] using hrest _ e
    simp [nextToken, stringTail_doubled body free]
  | sym s =>
    obtain rfl : t = [s.char] := h
    have wf := s.wf
    simp only [isSym, Bool.and_eq_true, Bool.not_eq_true', List.contains_eq_mem,
      decide_eq_false_iff_not, List.mem_cons, not_or] at wf
    exact ⟨s.char, [], rfl, nextToken_char wf.2.1 wf.1.2⟩
  | dot => exact ⟨_, _, h, h ▸ rfl⟩
  | comma => exact ⟨_, _, h, h ▸ rfl⟩
  | opening => exact ⟨_, _, h, h ▸ rfl⟩
  | closing => exact ⟨_, _, h, h ▸ rfl⟩

/-! ## The tokens of a layout -/

theorem tokens_blank {gap : Str} (h : gap.all isSpace = true) (rest : Str) :
    tokens (gap ++ rest) = gap.map (fun c => [c]) ++ tokens rest := by
  induction gap with
  | nil => rfl
  | cons c cs ih =>
    obtain ⟨hc, hcs⟩ := (Bool.and_eq_true _ _).mp h
    rw [List.cons_append, tokens_cons, nextToken_char (isSpace_ne_quote hc)
      (isWordChar_false (isSpace_not_word hc)), ih hcs]
    rfl

theorem tokens_spelled {l : Lexeme} {t rest : Str} (h : Spells l t)
    (hrest : ∀ c ∈ rest.head?, takes l c = false) : tokens (t ++ rest) = t :: tokens rest := by
  obtain ⟨c, cs, rfl, hnext⟩ := nextToken_spelled h hrest
  rw [List.cons_append, tokens_cons, hnext]

theorem Spells.ne_nil {l : Lexeme} {t : Str} (h : Spells l t) : t ≠ [] := by
  obtain ⟨c, cs, rfl, -⟩ := @nextToken_spelled l t [] h nofun
  exact List.cons_ne_nil c cs

theorem tokens_pieces : ∀ (pieces : List Piece) {trailing : Str},
    (pieces.IsChain fun p q => ∀ c ∈ q.source.head?, takes p.lexeme c = false) →
    trailing.all isSpace = true →
    tokens (pieces.flatMap Piece.source ++ trailing) =
      pieces.flatMap Piece.tokens ++ trailing.map fun c => [c]
  | [], trailing, _, hblank => by
    simpa using tokens_blank hblank []
  | p :: ps, trailing, hapart, hblank => by
    have tail := tokens_pieces ps hapart.tail hblank
    have stop : ∀ c ∈ (ps.flatMap Piece.source ++ trailing).head?, takes p.lexeme c = false := by
      intro c hc
      cases ps with
      | nil =>
        cases trailing with
        | nil => cases hc
        | cons d ds =>
          obtain rfl := Option.some.inj hc
          exact takes_blank (List.all_eq_true.mp hblank _ List.mem_cons_self)
      | cons q qs =>
        have nonempty : q.source ≠ [] := by
          simp [Piece.source, q.spells.ne_nil]
        rw [List.flatMap_cons, List.append_assoc, List.head?_append_of_ne_nil _ nonempty] at hc
        exact (List.isChain_cons_cons.mp hapart).1 c hc
    calc tokens ((p :: ps).flatMap Piece.source ++ trailing)
        = tokens (p.gap ++ (p.text ++ (ps.flatMap Piece.source ++ trailing))) := by
          simp [Piece.source]
      _ = p.gap.map (fun c => [c]) ++ p.text :: tokens (ps.flatMap Piece.source ++ trailing) := by
          rw [tokens_blank p.blank, tokens_spelled p.spells stop]
      _ = (p :: ps).flatMap Piece.tokens ++ trailing.map fun c => [c] := by
          simp [tail, Piece.tokens]

/-- The tokens of a layout are its lexemes and its white space. -/
theorem Layout.tokens_text {lexemes : List Lexeme} (l : Layout lexemes) :
    tokens l.text = l.pieces.flatMap Piece.tokens ++ l.trailing.map fun c => [c] :=
  tokens_pieces l.pieces l.apart l.blank

end DeltaForgeBench.Workloads.Layouts
