import DeltaForgeBench.Workloads.Clauses
import DeltaForgeBench.Workloads.Readings

/-! # Line comments and the rewriter

The tokenizer has no token for a comment: what is behind `--` is read like any
other text. A comment is harmless exactly when its quotes close where they open,
or hide and show no table reference; when it stands between no reference and what
decides it; and when its parentheses and keywords leave the table names of the
lists it is in inside, or outside, their FROM clauses. -/
namespace DeltaForgeBench.Workloads.Comments
open DeltaForgeBench.Base.Text DeltaForgeBench.Workloads.DfCatalog
open DeltaForgeBench.Workloads.SqlGrammar DeltaForgeBench.Workloads.Layouts
open DeltaForgeBench.Workloads.Qualify DeltaForgeBench.Workloads.Lossless
open DeltaForgeBench.Workloads.Shadowing DeltaForgeBench.Workloads.Positions
open DeltaForgeBench.Workloads.Seams DeltaForgeBench.Workloads.Clauses
open DeltaForgeBench.Workloads.Readings

/-- What is behind the dashes, up to the end of the line. -/
structure LineComment where
  body : Str
  line : '\n' ∉ body

def LineComment.text (c : LineComment) : Str := '-' :: '-' :: c.body ++ ['\n']

/-- The output for the text with the comment, less what it has for the comment. -/
def uncommented (q : Qualifier) (before comment behind : Str) : Str :=
  let placed := places (marks q {} (tokens (before ++ comment ++ behind)))
  written q (placed.take before.length ++ placed.drop (before.length + comment.length))

/-! ## When a comment is harmless -/

/-- A text up to its last quote. -/
def upToQuote (t : Str) : Str := (t.reverse.dropWhile (· ≠ '\'')).reverse

/-- The part of the rest in which the quotes pair differently with the comment: up to
the last quote, where the comment leaves one open. -/
def swapped (before : Str) (c : LineComment) (behind : Str) : Str :=
  if Even (before.count '\'') ∧ Odd (c.text.count '\'') then upToQuote behind else []

/-- The part of the rest behind that. -/
def level (before : Str) (c : LineComment) (behind : Str) : Str :=
  behind.drop (swapped before c behind).length

/-- When the comment, between the two parts of a text, changes no qualification. -/
structure Harmless (q : Qualifier) (before : Str) (c : LineComment) (behind : Str) : Prop where
  /-- It does not part a reference from a dot. -/
  undotted : Even (before.count '\'') ∨ '\'' ∉ c.text → ∀ ts t, tokens before = ts ++ [t] →
    Reference q ts t none → behind.head? ≠ some '.'
  /-- Where it closes a quote, no reference stands between the two. -/
  unhidden : Odd (before.count '\'') → '\'' ∈ c.text → ∀ ts t us, tokens before = ts ++ t :: us →
    ['\''] ∈ ts → ¬ Reference q ts t (us ++ tokens behind).head?
  /-- Where the quotes pair differently, there is no reference, neither without the
  comment nor with it. -/
  unpaired : ∀ ts t us, tokens (before ++ swapped before c behind) = ts ++ t :: us →
    before.length ≤ ts.flatten.length →
    ¬ Reference q ts t (us ++ tokens (level before c behind)).head?
  repaired : ∀ ts t us, tokens (before ++ c.text ++ swapped before c behind) = ts ++ t :: us →
    (before ++ c.text).length ≤ ts.flatten.length →
    ¬ Reference q ts t (us ++ tokens (level before c behind)).head?
  /-- A table's name that comes first behind it is in a FROM clause and right behind
  `FROM`, `JOIN` or a comma with it as without it. -/
  first : ∀ ts t us, tokens (level before c behind) = ts ++ t :: us → (∀ u ∈ ts, strip u = []) →
    isTable q t = true → us.head? ≠ some ['.'] →
    ((inFromClause (tokens (before ++ swapped before c behind)) = true ∧
        behindFrom (tokens (before ++ swapped before c behind)) = true) ↔
      (inFromClause (tokens (before ++ c.text ++ swapped before c behind)) = true ∧
        behindFrom (tokens (before ++ c.text ++ swapped before c behind)) = true))
  /-- One that comes behind a comma is in a FROM clause with it as without it. -/
  listed : ∀ ts t us, tokens (level before c behind) = ts ++ t :: us → lastSeen ts = [','] →
    isTable q t = true → us.head? ≠ some ['.'] →
    (inFromClause (tokens (before ++ swapped before c behind) ++ ts) = true ↔
      inFromClause (tokens (before ++ c.text ++ swapped before c behind) ++ ts) = true)

/-! ## The tokens around a comment -/

/-- A comment ends with its line. -/
theorem LineComment.tokens_text (c : LineComment) {before x : Str}
    (h : Even ((before ++ c.text).count '\'') ∨ '\'' ∉ x) :
    tokens (before ++ c.text ++ x) = tokens (before ++ c.text) ++ tokens x := by
  have split : ∀ y, before ++ c.text ++ y = (before ++ '-' :: '-' :: c.body) ++ '\n' :: y := by
    simp [LineComment.text]
  have line : Even ((before ++ '-' :: '-' :: c.body).count '\'') ∨ '\'' ∉ x :=
    h.imp (fun even => by simpa [LineComment.text, List.count_append] using even) id
  rw [split x, tokens_newline _ line, ← List.append_nil (before ++ c.text), split [],
    tokens_newline _ (.inr (by simp)), tokens_nil, List.append_nil]

theorem upToQuote_append (t : Str) : ∃ x, t = upToQuote t ++ x ∧ '\'' ∉ x := by
  refine ⟨(t.reverse.takeWhile (· ≠ '\'')).reverse, ?_, fun hmem => ?_⟩
  · rw [upToQuote, ← List.reverse_append, List.takeWhile_append_dropWhile, List.reverse_reverse]
  · have free := List.mem_takeWhile_imp (List.mem_reverse.mp hmem)
    simp at free

theorem upToQuote_last (t : Str) : upToQuote t = [] ∨ (upToQuote t).getLast? = some '\'' := by
  cases hrest : t.reverse.dropWhile (· ≠ '\'') with
  | nil => exact .inl (by rw [upToQuote, hrest, List.reverse_nil])
  | cons d ds =>
    have quote := List.head?_dropWhile_not (p := (· ≠ '\'')) (l := t.reverse)
    rw [hrest] at quote
    refine .inr ?_
    rw [upToQuote, hrest, List.getLast?_reverse]
    simpa using quote

/-- The two ways the quotes of a rest can pair: as before, or, up to the last one,
differently. -/
inductive Pairing (before : Str) (c : LineComment) (behind : Str) : Prop
  | same : swapped before c behind = [] → level before c behind = behind →
    Even ((before ++ c.text).count '\'') ∨ '\'' ∉ behind → Pairing before c behind
  | swapped : Even (before.count '\'') → Odd (c.text.count '\'') →
    (swapped before c behind).getLast? = some '\'' →
    behind = swapped before c behind ++ level before c behind →
    '\'' ∉ level before c behind → Pairing before c behind

theorem exists_pairing (q : Qualifier) {before behind : Str} (c : LineComment)
    (h : Between before behind) : Pairing before c behind := by
  by_cases hodd : Even (before.count '\'') ∧ Odd (c.text.count '\'')
  · have here : Comments.swapped before c behind = upToQuote behind := if_pos hodd
    obtain ⟨x, hx, hfree⟩ := upToQuote_append behind
    have rest : level before c behind = x := by
      have dropped := congrArg (List.drop (upToQuote behind).length) hx
      rw [List.drop_left] at dropped
      rw [level, here, dropped]
    rcases upToQuote_last behind with hnil | hlast
    · rw [hnil, List.nil_append] at hx
      exact .same (here.trans hnil) (rest.trans hx.symm) (.inr (hx ▸ hfree))
    · exact .swapped hodd.1 hodd.2 (here ▸ hlast) (here ▸ rest.symm ▸ hx) (rest ▸ hfree)
  · have none : Comments.swapped before c behind = [] := if_neg hodd
    refine .same none (by rw [level, none]; rfl) ?_
    rcases Nat.even_or_odd (before.count '\'') with heven | hbefore
    · have closed : Even (c.text.count '\'') :=
        Nat.not_odd_iff_even.mp fun hc => hodd ⟨heven, hc⟩
      exact .inl (by rw [List.count_append]; exact heven.add closed)
    · exact .inr (free_behind_odd q hbefore h)

section
variable {q : Qualifier} {before behind : Str} {c : LineComment}

theorem Pairing.tokens_plain (h : Pairing before c behind) (hbetween : Between before behind) :
    tokens (before ++ behind) =
      tokens (before ++ Comments.swapped before c behind) ++ tokens (level before c behind) := by
  cases h with
  | same hnone hall _ => rw [hnone, hall, List.append_nil, hbetween.tokens]
  | swapped _ _ hlast htext hfree =>
    have last : (before ++ Comments.swapped before c behind).getLast? = some '\'' := by
      rw [List.getLast?_append, hlast]
      rfl
    rw [← tokens_quote hfree (.inr last), List.append_assoc, ← htext]

theorem Pairing.tokens_commented (h : Pairing before c behind) :
    tokens (before ++ c.text ++ behind) = tokens (before ++ c.text ++ Comments.swapped before c behind) ++
      tokens (level before c behind) := by
  cases h with
  | same hnone hall hclosed => rw [hnone, hall, List.append_nil, c.tokens_text hclosed]
  | swapped _ _ hlast htext hfree =>
    have last : (before ++ c.text ++ Comments.swapped before c behind).getLast? = some '\'' := by
      rw [List.getLast?_append, hlast]
      rfl
    rw [← tokens_quote hfree (.inr last), List.append_assoc _ (Comments.swapped _ _ _), ← htext]

/-! ## The marks of a text in two parts -/

theorem places_marks_text (q : Qualifier) (s : State) (sql : Str) :
    (places (marks q s (tokens sql))).map Prod.fst = sql := by
  rw [places_text, marks_tokens, tokens_flatten]

theorem places_upTo_text (q : Qualifier) (next : Option Str) (s : State) (sql : Str) :
    (places (marksUpTo q next s (tokens sql))).map Prod.fst = sql := by
  rw [places_text, marksUpTo_tokens, tokens_flatten]

theorem dfQualify_written (q : Qualifier) (sql : Str) :
    dfQualify q sql = written q (places (marks q {} (tokens sql))) := by
  rw [dfQualify, ← spelled_marks, (spelled_places q (marks_tokens q {} (tokens sql))).1]

theorem marksUpTo_append (q : Qualifier) (next : Option Str) (s : State) (ts us : List Str) :
    marksUpTo q next s (ts ++ us) =
      marksUpTo q (us.head?.or next) s ts ++ marksUpTo q next (Qualifier.after q s ts) us := by
  induction ts generalizing s with
  | nil => rfl
  | cons t ts ih =>
    rw [List.cons_append, marksUpTo, ih, marksUpTo, List.head?_append, Option.or_assoc]
    rfl

/-- No token of a text that stands where `P` says is prefixed. -/
theorem forall_marksUpTo (q : Qualifier) (next : Option Str) (s : State) (ts : List Str)
    (P : List Str → Prop) :
    (∀ a m b, marksUpTo q next s ts = a ++ m :: b → P (a.map Prod.fst) → m.2 = false) ↔
      ∀ us t vs, ts = us ++ t :: vs → P us →
        q.rewrites (Qualifier.after q s us) t (vs.head?.or next) = false := by
  constructor
  · rintro h us t vs rfl hP
    refine h _ _ _ (marksUpTo_append q next s us (t :: vs)) ?_
    rwa [marksUpTo_tokens]
  · intro h a m b hmarks hP
    have split : ts = a.map Prod.fst ++ m.1 :: b.map Prod.fst := by
      have text := congrArg (List.map Prod.fst) hmarks
      rwa [marksUpTo_tokens, List.map_append, List.map_cons] at text
    have here := h _ _ _ split hP
    rw [split, marksUpTo_append] at hmarks
    have length : (marksUpTo q ((m.1 :: b.map Prod.fst).head?.or next) s (a.map Prod.fst)).length =
        a.length := by
      have text := congrArg List.length (marksUpTo_tokens q ((m.1 :: b.map Prod.fst).head?.or next) s
        (a.map Prod.fst))
      rwa [List.length_map, List.length_map] at text
    obtain ⟨-, hrest⟩ := List.append_inj hmarks length
    rw [marksUpTo] at hrest
    rw [← (List.cons.inj hrest).1]
    exact here

theorem drop_unmarked_iff {marked : List (Str × Bool)} (hne : ∀ m ∈ marked, m.1 ≠ []) (n : Nat) :
    (∀ p ∈ (places marked).drop n, p.2 = false) ↔
      ∀ a m b, marked = a ++ m :: b → n ≤ (a.map Prod.fst).flatten.length → m.2 = false := by
  induction marked generalizing n with
  | nil =>
    refine ⟨fun _ a m b h => ?_, fun _ => by simp [places_nil]⟩
    exact absurd h.symm (List.append_ne_nil_of_right_ne_nil a (List.cons_ne_nil m b))
  | cons m marked ih =>
    obtain ⟨hm, hrest⟩ := List.forall_mem_cons.mp hne
    have tail := ih hrest (n - m.1.length)
    have here : (∀ p ∈ (block m).drop n, p.2 = false) ↔ (n = 0 → m.2 = false) := by
      obtain ⟨t, hit⟩ := m
      cases t with
      | nil => exact absurd rfl hm
      | cons c cs =>
        cases n with
        | zero => simp [block]
        | succ n => simp [block, List.mem_iff_getElem?]
    rw [places_cons, List.drop_append, List.forall_mem_append, block_length, here, tail]
    constructor
    · rintro ⟨hfirst, hall⟩ a r b hsplit hlen
      cases a with
      | nil =>
        obtain ⟨rfl, rfl⟩ := List.cons.inj hsplit
        exact hfirst (Nat.le_zero.mp hlen)
      | cons d a =>
        obtain ⟨rfl, rfl⟩ := List.cons.inj hsplit
        refine hall a r b rfl ?_
        simp only [List.map_cons, List.flatten_cons, List.length_append] at hlen
        omega
    · intro h
      refine ⟨fun hn => h [] m marked rfl (hn ▸ Nat.le_refl 0), fun a r b hsplit hlen => ?_⟩
      refine h (m :: a) r b (by rw [hsplit, List.cons_append]) ?_
      simp only [List.map_cons, List.flatten_cons, List.length_append]
      omega

theorem places_injective {a b : List (Str × Bool)} (htext : a.map Prod.fst = b.map Prod.fst)
    (hne : ∀ m ∈ a, m.1 ≠ []) (h : places a = places b) : a = b := by
  induction a generalizing b with
  | nil => exact (List.map_eq_nil_iff.mp htext.symm).symm
  | cons m a ih =>
    obtain ⟨r, b, rfl, hmr, hrest⟩ := List.map_eq_cons_iff.mp htext.symm
    obtain ⟨t, hit⟩ := m
    obtain ⟨u, hit'⟩ := r
    obtain rfl : u = t := hmr
    have length : (block (u, hit)).length = (block (u, hit')).length := by
      rw [block_length, block_length]
    obtain ⟨hblock, hplaces⟩ := List.append_inj h length
    have tail := ih hrest.symm (fun m hm => hne m (List.mem_cons_of_mem _ hm)) hplaces
    cases u with
    | nil => exact absurd rfl (hne ([], hit) List.mem_cons_self)
    | cons c cs =>
      have same : hit = hit' := (Prod.mk.inj (List.cons.inj hblock).1).2
      rw [same, tail]

theorem places_tokens_inj (q : Qualifier) {next next' : Option Str} {s s' : State} {sql : Str} :
    places (marksUpTo q next s (tokens sql)) = places (marksUpTo q next' s' (tokens sql)) ↔
      marksUpTo q next s (tokens sql) = marksUpTo q next' s' (tokens sql) := by
  refine ⟨places_injective ?_ fun m hm => ?_, congrArg places⟩
  · rw [marksUpTo_tokens, marksUpTo_tokens]
  · exact tokens_ne_nil sql _ (marksUpTo_tokens q next s (tokens sql) ▸ List.mem_map_of_mem hm)

/-- Two states mark tokens alike when they do so at each of them. -/
theorem marks_eq_iff (q : Qualifier) (s s' : State) (ts : List Str) :
    marks q s ts = marks q s' ts ↔ ∀ us t vs, ts = us ++ t :: vs →
      (q.rewrites (Qualifier.after q s us) t vs.head? = true ↔
        q.rewrites (Qualifier.after q s' us) t vs.head? = true) := by
  induction ts generalizing s s' with
  | nil =>
    refine ⟨fun _ us t vs h => ?_, fun _ => rfl⟩
    exact absurd h.symm (List.append_ne_nil_of_right_ne_nil us (List.cons_ne_nil t vs))
  | cons t ts ih =>
    rw [marks, marks, List.cons.injEq, ih, Prod.mk.injEq]
    constructor
    · rintro ⟨⟨-, hhead⟩, htail⟩ us r vs hsplit
      cases us with
      | nil =>
        obtain ⟨rfl, rfl⟩ := List.cons.inj hsplit
        exact iff_of_eq (congrArg (· = true) hhead)
      | cons u us =>
        obtain ⟨rfl, rfl⟩ := List.cons.inj hsplit
        exact htail us r vs rfl
    · intro h
      refine ⟨⟨rfl, Bool.eq_iff_iff.mpr (h [] t ts rfl)⟩, fun us r vs hsplit => ?_⟩
      exact h (t :: us) r vs (by rw [hsplit, List.cons_append])

theorem after_append (q : Qualifier) (s : State) (ts us : List Str) :
    Qualifier.after q (Qualifier.after q s ts) us = Qualifier.after q s (ts ++ us) :=
  List.foldl_append.symm

/-! ## In front of the comment -/

/-- Where no quote pairs with one of the text before, that text comes out as it
does by itself: a comment is no dot. -/
theorem marks_before (q : Qualifier) {before : Str} (c : LineComment) {x : Str}
    (h : Even (before.count '\'') ∨ '\'' ∉ c.text ++ x) :
    marks q {} (tokens (before ++ (c.text ++ x))) =
      marks q {} (tokens before) ++
        marks q (Qualifier.after q {} (tokens before)) (tokens (c.text ++ x)) := by
  have dash : (tokens (c.text ++ x)).head? = some ['-'] := by
    rw [LineComment.text, List.cons_append, List.cons_append, tokens_cons,
      nextToken_char (by simp) rfl]
    rfl
  have none : (tokens (c.text ++ x)).head? = some ['.'] ↔ (none : Option Str) = some ['.'] := by
    rw [dash]
    simp
  rw [tokens_append (by simp [LineComment.text, isWordChar, isWordStart]) _ h, marks_append,
    marksUpTo_next q none, marksUpTo_none]

/-- What follows decides on the last token only, where that is a reference. -/
theorem marksUpTo_eq_iff (q : Qualifier) (next : Option Str) (ts : List Str) :
    marks q {} ts = marksUpTo q next {} ts ↔
      ∀ us t, ts = us ++ [t] → Reference q us t none → next ≠ some ['.'] := by
  rcases List.eq_nil_or_concat ts with rfl | ⟨us, t, rfl⟩
  · refine ⟨fun _ us t h => ?_, fun _ => rfl⟩
    exact absurd h.symm (List.append_ne_nil_of_right_ne_nil us (List.cons_ne_nil t []))
  · rw [List.concat_eq_append, ← marksUpTo_none, marksUpTo_snoc, marksUpTo_snoc,
      List.append_right_inj, List.cons.injEq, Prod.mk.injEq, Bool.eq_iff_iff,
      rewrites_reference_iff, rewrites_reference_iff]
    constructor
    · rintro ⟨⟨-, h⟩, -⟩ vs u hsplit href
      obtain ⟨rfl, hu⟩ := List.append_inj' hsplit rfl
      obtain rfl := (List.cons.inj hu).1
      exact (h.mp href).undotted
    · intro h
      refine ⟨⟨rfl, fun href => ?_, fun href => ?_⟩, rfl⟩
      · exact ⟨href.table, href.clause, href.behind, h us t rfl href⟩
      · exact ⟨href.table, href.clause, href.behind, nofun⟩

/-- Characters without a prefix. -/
theorem unmarked_eq_iff {x : Str} {placed : List (Char × Bool)} (h : placed.map Prod.fst = x) :
    (x.map fun d => (d, false)) = placed ↔ ∀ p ∈ placed, p.2 = false := by
  subst h
  rw [List.map_map]
  constructor
  · intro he p hp
    rw [← he] at hp
    obtain ⟨r, -, rfl⟩ := List.mem_map.mp hp
    rfl
  · intro hall
    refine (List.map_congr_left fun p hp => ?_).trans (List.map_id placed)
    exact Prod.ext rfl (hall p hp).symm

theorem take_places (q : Qualifier) (next : Option Str) (s : State) (sql : Str)
    (placed : List (Char × Bool)) :
    (places (marksUpTo q next s (tokens sql)) ++ placed).take sql.length =
      places (marksUpTo q next s (tokens sql)) := by
  have text := congrArg List.length (places_upTo_text q next s sql)
  rw [List.length_map] at text
  exact List.take_left' text

/-- Where a quote is open, what stands behind it has no prefix exactly when it has no
reference. -/
theorem unmarked_opened_iff (q : Qualifier) {ts : List Str} {left : Str}
    (h : Opened q before ts left) (next : Option Str) :
    (∀ p ∈ places (marksUpTo q next (Qualifier.after q {} ts) (['\''] :: tokens left)),
        p.2 = false) ↔
      ∀ us t vs, tokens before = us ++ t :: vs → ['\''] ∈ us →
        ¬ Reference q us t (vs.head?.or next) := by
  have nonempty : ∀ m ∈ marksUpTo q next (Qualifier.after q {} ts) (['\''] :: tokens left),
      m.1 ≠ [] := by
    intro m hm
    have token : m.1 ∈ ['\''] :: tokens left :=
      marksUpTo_tokens q next (Qualifier.after q {} ts) (['\''] :: tokens left) ▸
        List.mem_map_of_mem hm
    exact tokens_ne_nil before _ (h.parts ▸ List.mem_append_right _ token)
  have hits := drop_unmarked_iff nonempty 0
  have each := forall_marksUpTo q next (Qualifier.after q {} ts) (['\''] :: tokens left)
    fun _ => True
  simp only [List.drop_zero, Nat.zero_le, forall_const] at hits each
  rw [hits, each]
  simp only [← Bool.not_eq_true, after_append, rewrites_reference_iff]
  constructor
  · intro hall us t vs hsplit hquote
    rw [h.parts] at hsplit
    rcases List.append_eq_append_iff.mp hsplit with ⟨ws, rfl, hws⟩ | ⟨ws, rfl, hws⟩
    · exact hall ws t vs hws
    · exact absurd (List.mem_append_left ws hquote) h.first
  · intro hall us t vs hsplit href
    cases us with
    | nil =>
      -- the quote itself is no name
      obtain ⟨rfl, -⟩ := List.cons.inj hsplit
      have table := href.table
      simp [isTable] at table
    | cons u us =>
      obtain ⟨rfl, hleft⟩ := List.cons.inj hsplit
      refine hall (ts ++ ['\''] :: us) t vs ?_ (by simp) href
      rw [h.parts, hleft]
      simp

/-- The part in front of the comment is read as it is without it. -/
theorem front_iff (q : Qualifier) (c : LineComment) (h : Between before behind) :
    (places (marks q {} (tokens (before ++ c.text ++ behind)))).take before.length =
        (places (marks q {} (tokens (before ++ behind)))).take before.length ↔
      (Even (before.count '\'') ∨ '\'' ∉ c.text → ∀ ts t, tokens before = ts ++ [t] →
        Reference q ts t none → behind.head? ≠ some '.') ∧
      (Odd (before.count '\'') → '\'' ∈ c.text → ∀ ts t us, tokens before = ts ++ t :: us →
        ['\''] ∈ ts → ¬ Reference q ts t (us ++ tokens behind).head?) := by
  have plain : (places (marks q {} (tokens (before ++ behind)))).take before.length =
      places (marksUpTo q (tokens behind).head? {} (tokens before)) := by
    rw [h.tokens, marks_append, places_append, take_places]
  have dot : behind.head? = some '.' ↔ (tokens behind).head? = some ['.'] := by
    cases behind with
    | nil => simp
    | cons d ds => rw [head_dot, List.head?_cons, Option.some.injEq]
  rw [plain, List.append_assoc]
  by_cases hclosed : Even (before.count '\'') ∨ '\'' ∉ c.text
  · have apart : Even (before.count '\'') ∨ '\'' ∉ c.text ++ behind := by
      rcases Nat.even_or_odd (before.count '\'') with heven | hodd
      · exact .inl heven
      · have free := hclosed.resolve_left (Nat.not_even_iff_odd.mpr hodd)
        exact .inr fun hmem => (List.mem_append.mp hmem).elim free (free_behind_odd q hodd h)
    have other : Odd (before.count '\'') → '\'' ∉ c.text := fun hodd =>
      hclosed.resolve_left (Nat.not_even_iff_odd.mpr hodd)
    rw [marks_before q c apart, places_append, ← marksUpTo_none q {} (tokens before), take_places,
      places_tokens_inj, marksUpTo_none, marksUpTo_eq_iff]
    simp only [ne_eq, dot]
    exact ⟨fun hall => ⟨fun _ => hall, fun hodd hmem => absurd hmem (other hodd)⟩,
      fun hall => hall.1 hclosed⟩
  · obtain ⟨hodd, hmem⟩ := not_or.mp hclosed
    rw [Nat.not_even_iff_odd] at hodd
    rw [not_not] at hmem
    obtain ⟨ts, left, hopened⟩ := exists_opened q before hodd
    have front := hopened.closed (c.text ++ behind) {} (List.mem_append_left _ hmem)
    have parts : marksUpTo q (tokens behind).head? {} (tokens before) =
        marksUpTo q (some ['\'']) {} ts ++ marksUpTo q (tokens behind).head? (Qualifier.after q {} ts)
          (['\''] :: tokens left) := by
      rw [hopened.parts, marksUpTo_append]
      rfl
    have text : (places (marksUpTo q (tokens behind).head? (Qualifier.after q {} ts)
        (['\''] :: tokens left))).map Prod.fst = '\'' :: left := by
      rw [places_text, marksUpTo_tokens, List.flatten_cons, tokens_flatten]
      rfl
    rw [front, parts, places_append, List.append_right_inj, unmarked_eq_iff text,
      unmarked_opened_iff q hopened]
    simp only [List.head?_append]
    exact ⟨fun hall => ⟨fun hclosed' => absurd hclosed' hclosed, fun _ _ => hall⟩,
      fun hall => hall.2 hodd hmem⟩

/-! ## Behind it -/

/-- The marks behind a place, up to where the rest is level, and from there on. -/
theorem drop_places (q : Qualifier) (front : Str) (us : List Str) {n : Nat} (h : n ≤ front.length) :
    (places (marks q {} (tokens front ++ us))).drop n =
      (places (marksUpTo q us.head? {} (tokens front))).drop n ++
        places (marks q (Qualifier.after q {} (tokens front)) us) := by
  have text := congrArg List.length (places_upTo_text q us.head? {} front)
  rw [List.length_map] at text
  rw [marks_append, places_append, List.drop_append_of_le_length (text ▸ h)]

theorem unmarked_iff (q : Qualifier) (front : Str) (us : List Str) (n : Nat) :
    (∀ p ∈ (places (marksUpTo q us.head? {} (tokens front))).drop n, p.2 = false) ↔
      ∀ ts t vs, tokens front = ts ++ t :: vs → n ≤ ts.flatten.length →
        ¬ Reference q ts t (vs ++ us).head? := by
  have nonempty : ∀ m ∈ marksUpTo q us.head? {} (tokens front), m.1 ≠ [] := fun m hm =>
    tokens_ne_nil front _ (marksUpTo_tokens q us.head? {} (tokens front) ▸ List.mem_map_of_mem hm)
  rw [drop_unmarked_iff nonempty, forall_marksUpTo q us.head? {} (tokens front)
    fun ts => n ≤ ts.flatten.length]
  simp only [← Bool.not_eq_true, rewrites_reference_iff, List.head?_append]

/-- The marks of what follows a text, where a token begins behind it. -/
theorem drop_upTo (q : Qualifier) (next : Option Str) {front y : Str}
    (h : tokens (front ++ y) = tokens front ++ tokens y) :
    (places (marksUpTo q next {} (tokens (front ++ y)))).drop front.length =
      places (marksUpTo q next (Qualifier.after q {} (tokens front)) (tokens y)) := by
  have length := congrArg List.length (places_upTo_text q ((tokens y).head?.or next) {} front)
  rw [List.length_map] at length
  rw [h, marksUpTo_append, places_append, ← length, List.drop_left]

/-- A prefix at one place of two readings whose quotes pair differently would stand
inside a quote in one of them. -/
theorem unmarked_of_swapped (q : Qualifier) (next : Option Str) (s : State) {y : Str}
    (hodd : Odd (c.text.count '\'')) (hlast : y.getLast? = some '\'')
    (heq : (places (marksUpTo q next s (tokens (c.text ++ y)))).drop c.text.length =
      places (marksUpTo q next s (tokens y))) :
    ∀ p ∈ places (marksUpTo q next s (tokens y)), p.2 = false := by
  have last : (c.text ++ y).getLast? = some '\'' := by
    rw [List.getLast?_append, hlast]
    rfl
  have plain := evenHits_marks q next y (.inr hlast) s Even.zero
  have commented := evenHits_marks q next (c.text ++ y) (.inr last) s Even.zero
  have taken : ((places (marksUpTo q next s (tokens (c.text ++ y)))).take c.text.length).map
      Prod.fst = c.text := by
    rw [List.map_take, places_upTo_text, List.take_left]
  rw [← List.take_append_drop c.text.length (places _), EvenHits.append, taken, Nat.zero_add, heq]
    at commented
  exact unmarked_of_parities Even.zero hodd plain commented.2

/-- Where the quotes pair differently, the two readings have the same prefixes only
when they have none. -/
theorem Pairing.swapped_iff (h : Pairing before c behind) (hbetween : Between before behind)
    (q : Qualifier) (us : List Str) :
    (places (marksUpTo q us.head? {} (tokens (before ++ c.text ++ Comments.swapped before c behind)))).drop
        (before ++ c.text).length =
      (places (marksUpTo q us.head? {} (tokens (before ++ Comments.swapped before c behind)))).drop
        before.length ↔
      (∀ ts t vs, tokens (before ++ Comments.swapped before c behind) = ts ++ t :: vs →
        before.length ≤ ts.flatten.length → ¬ Reference q ts t (vs ++ us).head?) ∧
      (∀ ts t vs, tokens (before ++ c.text ++ Comments.swapped before c behind) = ts ++ t :: vs →
        (before ++ c.text).length ≤ ts.flatten.length → ¬ Reference q ts t (vs ++ us).head?) := by
  have text : ∀ front : Str, ((places (marksUpTo q us.head? {}
      (tokens (front ++ Comments.swapped before c behind)))).drop front.length).map Prod.fst =
      Comments.swapped before c behind := by
    intro front
    rw [List.map_drop, places_upTo_text, List.drop_left]
  have pairing := h
  rw [← unmarked_iff, ← unmarked_iff]
  constructor
  · intro heq
    cases h with
    | same hnone _ _ =>
      have nothing : ∀ front : Str, ∀ p ∈ (places (marksUpTo q us.head? {}
          (tokens (front ++ Comments.swapped before c behind)))).drop front.length, p.2 = false := by
        intro front
        have empty := text front
        rw [hnone, List.map_eq_nil_iff] at empty
        rw [hnone, empty]
        nofun
      exact ⟨nothing before, nothing (before ++ c.text)⟩
    | swapped heven hodd hlast hrest hfree =>
      have plain : tokens (before ++ Comments.swapped before c behind) =
          tokens before ++ tokens (Comments.swapped before c behind) := by
        have whole := pairing.tokens_plain hbetween
        rw [hbetween.tokens] at whole
        conv_lhs at whole => rw [hrest]
        rw [tokens_quote hfree (.inr hlast), ← List.append_assoc] at whole
        exact (List.append_cancel_right whole).symm
      have dash : ∀ d ∈ (c.text ++ Comments.swapped before c behind).head?,
          d ≠ '\'' ∧ isWordChar d = false := by
        simp [LineComment.text, isWordChar, isWordStart]
      have commented : (places (marksUpTo q us.head? {}
          (tokens (before ++ c.text ++ Comments.swapped before c behind)))).drop
            (before ++ c.text).length =
          (places (marksUpTo q us.head? (Qualifier.after q {} (tokens before))
            (tokens (c.text ++ Comments.swapped before c behind)))).drop c.text.length := by
        rw [List.length_append, ← List.drop_drop, List.append_assoc,
          drop_upTo q us.head? (tokens_append dash before (.inl heven))]
      rw [commented, drop_upTo q us.head? plain] at heq
      have hidden := unmarked_of_swapped q us.head? _ hodd hlast heq
      rw [commented, drop_upTo q us.head? plain, heq]
      exact ⟨hidden, hidden⟩
  · rintro ⟨hplain, hcommented⟩
    have first := (unmarked_eq_iff (text before)).mpr hplain
    have second := (unmarked_eq_iff (text (before ++ c.text))).mpr hcommented
    exact second.symm.trans first

/-- **A comment changes no qualification exactly when it is harmless where it
stands.** -/
theorem harmless_iff (q : Qualifier) (hzone : isWord q.zone = true) (before behind : Str)
    (c : LineComment) (h : Between before behind) :
    uncommented q before c.text behind = dfQualify q (before ++ behind) ↔
      Harmless q before c behind := by
  have pairing := exists_pairing q c h
  have commentedText := places_marks_text q {} (before ++ c.text ++ behind)
  have plainText := places_marks_text q {} (before ++ behind)
  have commentedProper := proper_marks q {} (before ++ c.text ++ behind)
  have plainProper := proper_marks q {} (before ++ behind)
  have within : ∀ front : Str, front.length ≤ (front ++ swapped before c behind).length :=
    fun front => by simp
  have plainRest := drop_places q _ (tokens (level before c behind)) (within before)
  have commentedRest := drop_places q _ (tokens (level before c behind)) (within (before ++ c.text))
  rw [← pairing.tokens_plain h] at plainRest
  rw [← pairing.tokens_commented] at commentedRest
  have fronts := front_iff q c h
  have swaps := pairing.swapped_iff h q (tokens (level before c behind))
  have levels := marks_eq_iff q (Qualifier.after q {} (tokens (before ++ swapped before c behind)))
    (Qualifier.after q {} (tokens (before ++ c.text ++ swapped before c behind)))
    (tokens (level before c behind))
  simp only [after_append, rewrites_reference_iff] at levels
  rw [forall_reference_iff] at levels
  have length : ((places (marksUpTo q (tokens (level before c behind)).head? {}
      (tokens (before ++ c.text ++ swapped before c behind)))).drop (before ++ c.text).length).length =
      ((places (marksUpTo q (tokens (level before c behind)).head? {}
        (tokens (before ++ swapped before c behind)))).drop before.length).length := by
    rw [← List.length_map Prod.fst, ← List.length_map Prod.fst, List.map_drop, List.map_drop,
      places_upTo_text, places_upTo_text, List.drop_left, List.drop_left]
  have rests : (places (marks q {} (tokens (before ++ c.text ++ behind)))).drop
        (before.length + c.text.length) =
          (places (marks q {} (tokens (before ++ behind)))).drop before.length ↔
      (places (marksUpTo q (tokens (level before c behind)).head? {}
        (tokens (before ++ c.text ++ swapped before c behind)))).drop (before ++ c.text).length =
      (places (marksUpTo q (tokens (level before c behind)).head? {}
        (tokens (before ++ swapped before c behind)))).drop before.length ∧
      marks q (Qualifier.after q {} (tokens (before ++ swapped before c behind)))
          (tokens (level before c behind)) =
        marks q (Qualifier.after q {} (tokens (before ++ c.text ++ swapped before c behind)))
          (tokens (level before c behind)) := by
    rw [← List.length_append, commentedRest, plainRest]
    constructor
    · intro heq
      obtain ⟨hswapped, hlevel⟩ := List.append_inj heq length
      rw [← marksUpTo_none, ← marksUpTo_none, places_tokens_inj, marksUpTo_none, marksUpTo_none]
        at hlevel
      exact ⟨hswapped, hlevel.symm⟩
    · rintro ⟨hswapped, hlevel⟩
      rw [hswapped, hlevel]
  rw [dfQualify_written, ← List.take_append_drop before.length (places (marks q {} (tokens (before ++ behind)))),
    uncommented]
  rw [written_eq_iff hzone ?_ ?_ (commentedProper.take _) (plainProper.take _)
    (commentedProper.drop _) (plainProper.drop _)]
  · rw [fronts, rests, swaps, levels]
    constructor
    · rintro ⟨⟨hundotted, hunhidden⟩, ⟨hunpaired, hrepaired⟩, hfirst, hlisted⟩
      exact ⟨hundotted, hunhidden, hunpaired, hrepaired, hfirst, hlisted⟩
    · rintro ⟨hundotted, hunhidden, hunpaired, hrepaired, hfirst, hlisted⟩
      exact ⟨⟨hundotted, hunhidden⟩, ⟨hunpaired, hrepaired⟩, hfirst, hlisted⟩
  · rw [List.map_take, List.map_take, commentedText, plainText, List.append_assoc, List.take_left,
      List.take_left]
  · rw [List.map_drop, List.map_drop, commentedText, plainText, ← List.length_append,
      List.drop_left, List.drop_left]

end

/-! ## Comments without quotes, parentheses, commas and keywords -/

/-- Such a comment is harmless unless it stands right behind `FROM`, `JOIN` or a comma
of a FROM clause, or between a table's name and a dot. -/
theorem harmless_of_calm (q : Qualifier) {before behind : Str} (c : LineComment)
    (hquote : '\'' ∉ c.text) (hcalm : ∀ t ∈ tokens c.text, calm t = true)
    (hbehind : inFromClause (tokens before) = true → behindFrom (tokens before) = false)
    (hdot : behind.head? ≠ some '.') : Harmless q before c behind := by
  have none : swapped before c behind = [] := by
    refine if_neg fun hodd => ?_
    rw [List.count_eq_zero.mpr hquote] at hodd
    exact Nat.not_odd_zero hodd.2
  have commented : tokens (before ++ c.text) = tokens before ++ tokens c.text :=
    tokens_append (by simp [LineComment.text, isWordChar, isWordStart]) before (.inr hquote)
  have dash : ∃ t ∈ tokens c.text, strip t ≠ [] := by
    refine ⟨['-'], ?_, by decide⟩
    rw [LineComment.text, List.cons_append, tokens_cons, nextToken_char (by simp) rfl]
    exact List.mem_cons_self
  -- no token begins behind the whole text
  have whole : ∀ (front : Str) ts t us, tokens (front ++ []) = ts ++ t :: us →
      ¬ front.length ≤ ts.flatten.length := by
    intro front ts t us hsplit hlen
    rw [List.append_nil] at hsplit
    have text := congrArg (fun ts : List Str => ts.flatten.length) hsplit
    have filled := List.length_pos_iff.mpr (tokens_ne_nil front t (hsplit ▸ by simp))
    simp only [tokens_flatten, List.flatten_append, List.flatten_cons, List.length_append] at text
    omega
  refine ⟨fun _ _ _ _ _ => hdot, fun _ hmem => absurd hmem hquote, ?_, ?_, ?_, ?_⟩
  · rw [none]
    exact fun ts t us hsplit hlen => absurd hlen (whole before ts t us hsplit)
  · rw [none]
    exact fun ts t us hsplit hlen => absurd hlen (whole (before ++ c.text) ts t us hsplit)
  · rw [none, List.append_nil, List.append_nil, commented, not_behindFrom_calm hcalm dash]
    refine fun _ _ _ _ _ _ _ => iff_of_false (fun h => ?_) fun h => Bool.false_ne_true h.2
    have hafter := h.2
    rw [hbehind h.1] at hafter
    exact Bool.false_ne_true hafter
  · rw [none, List.append_nil, List.append_nil, commented]
    exact fun ts _ _ _ _ _ _ => by rw [inFromClause_calm hcalm]

/-! ## Two comments -/

theorem items_line : '\n' ∉ " the items".toList := by decide

def theItems : LineComment := ⟨" the items".toList, items_line⟩

/-- Behind the table, the comment does no harm. -/
theorem harmless_iff_theItems :
    uncommented itemTables "select 1 from item".toList theItems.text " where i = 1".toList =
        dfQualify itemTables "select 1 from item where i = 1".toList ∧
      Harmless itemTables "select 1 from item".toList theItems " where i = 1".toList := by
  have between : Between "select 1 from item".toList " where i = 1".toList :=
    ⟨["select".toList, [' '], ['1'], [' '], "from".toList, [' '], "item".toList],
      [[' '], "where".toList, [' '], "i".toList, [' '], ['='], [' '], ['1']], rfl, rfl⟩
  have same : uncommented itemTables "select 1 from item".toList theItems.text
      " where i = 1".toList = dfQualify itemTables "select 1 from item where i = 1".toList := rfl
  exact ⟨same, (harmless_iff itemTables rfl _ _ theItems between).mp same⟩

/-- Between `FROM` and the table, it keeps the table from being qualified. -/
theorem comment_hides_table :
    dfQualify itemTables "select 1 from item".toList = "select 1 from z.s.item".toList ∧
    uncommented itemTables "select 1 from ".toList theItems.text "item".toList =
      "select 1 from item".toList ∧
    ¬ ∀ (q : Qualifier) (before : Str) (c : LineComment) (behind : Str), Between before behind →
      uncommented q before c.text behind = dfQualify q (before ++ behind) := by
  have commented : uncommented itemTables "select 1 from ".toList theItems.text "item".toList =
      "select 1 from item".toList := rfl
  have original : dfQualify itemTables "select 1 from item".toList =
      "select 1 from z.s.item".toList := rfl
  refine ⟨original, commented, fun h => ?_⟩
  have between : Between "select 1 from ".toList "item".toList :=
    ⟨["select".toList, [' '], ['1'], [' '], "from".toList, [' ']], ["item".toList], rfl, rfl⟩
  have same := h itemTables _ theItems _ between
  rw [commented] at same
  exact absurd same (by decide)

end DeltaForgeBench.Workloads.Comments
