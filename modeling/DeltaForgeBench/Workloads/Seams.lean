import DeltaForgeBench.Workloads.Positions
import Mathlib.Algebra.Ring.Parity

/-! # Texts put together

Where the tokens of two texts are the tokens of the whole, and what a quote does
that the first text leaves open: the next one makes a literal of everything
between them, and nothing in a literal is rewritten. -/
namespace DeltaForgeBench.Workloads.Seams
open DeltaForgeBench.Base.Text DeltaForgeBench.Workloads.DfCatalog
open DeltaForgeBench.Workloads.SqlGrammar DeltaForgeBench.Workloads.Layouts
open DeltaForgeBench.Workloads.FromContext DeltaForgeBench.Workloads.Qualify
open DeltaForgeBench.Workloads.Lossless DeltaForgeBench.Workloads.Shadowing
open DeltaForgeBench.Workloads.Positions

/-- The two parts of a text meet between two of its tokens. -/
def Between (before behind : Str) : Prop :=
  ∃ ts us, tokens (before ++ behind) = ts ++ us ∧ ts.flatten = before

/-! ## The characters of marked tokens -/

/-- The characters of a token, and which of them the prefix goes in front of. -/
def block : Str × Bool → List (Char × Bool)
  | ([], _) => []
  | (c :: cs, hit) => (c, hit) :: cs.map fun d => (d, false)

def places (marked : List (Str × Bool)) : List (Char × Bool) := marked.flatMap block

def written (q : Qualifier) (placed : List (Char × Bool)) : Str :=
  placed.flatMap fun p => (if p.2 then q.namePrefix else []) ++ [p.1]

theorem block_text (m : Str × Bool) : (block m).map Prod.fst = m.1 := by
  obtain ⟨t, hit⟩ := m
  cases t with
  | nil => rfl
  | cons c cs =>
    rw [block, List.map_cons, List.map_map]
    exact congrArg _ (List.map_id cs)

theorem block_length (m : Str × Bool) : (block m).length = m.1.length := by
  have text := congrArg List.length (block_text m)
  rwa [List.length_map] at text

theorem block_unmarked (t : Str) : block (t, false) = t.map fun d => (d, false) := by
  cases t <;> rfl

theorem places_nil : places [] = [] := rfl

theorem places_cons (m : Str × Bool) (marked : List (Str × Bool)) :
    places (m :: marked) = block m ++ places marked := rfl

theorem places_append (a b : List (Str × Bool)) : places (a ++ b) = places a ++ places b :=
  List.flatMap_append

theorem places_text (marked : List (Str × Bool)) :
    (places marked).map Prod.fst = (marked.map Prod.fst).flatten := by
  induction marked with
  | nil => rfl
  | cons m marked ih =>
    rw [places_cons, List.map_append, block_text, ih, List.map_cons, List.flatten_cons]

theorem written_append (q : Qualifier) (a b : List (Char × Bool)) :
    written q (a ++ b) = written q a ++ written q b :=
  List.flatMap_append

theorem written_unmarked (q : Qualifier) {placed : List (Char × Bool)}
    (h : ∀ p ∈ placed, p.2 = false) : written q placed = placed.map Prod.fst := by
  induction placed with
  | nil => rfl
  | cons p placed ih =>
    have tail := ih fun r hr => h r (List.mem_cons_of_mem _ hr)
    rw [written, List.flatMap_cons, ← written, tail, h p List.mem_cons_self]
    rfl

theorem written_block (q : Qualifier) {m : Str × Bool} (h : m.1 ≠ []) :
    written q (block m) = (if m.2 then q.namePrefix else []) ++ m.1 := by
  obtain ⟨t, hit⟩ := m
  cases t with
  | nil => exact absurd rfl h
  | cons c cs =>
    have rest : written q (block (cs, false)) = cs := by
      rw [block_unmarked, written_unmarked q (by simp), List.map_map]
      exact List.map_id cs
    rw [block_unmarked] at rest
    rw [block, ← List.singleton_append, written_append, rest]
    simp [written]

theorem written_places (q : Qualifier) (marked : List (Str × Bool))
    (h : ∀ m ∈ marked, m.1 ≠ []) : written q (places marked) = spelled q marked := by
  induction marked with
  | nil => rfl
  | cons m marked ih =>
    have tail := ih fun r hr => h r (List.mem_cons_of_mem _ hr)
    rw [places_cons, written_append, tail, written_block q (h m List.mem_cons_self)]
    rfl

theorem tokens_ne_nil (sql : Str) : ∀ t ∈ tokens sql, t ≠ [] := by
  induction sql using tokens_induction with
  | nil => nofun
  | token c cs ih =>
    rw [tokens_cons, List.forall_mem_cons]
    refine ⟨fun hnil => ?_, ih⟩
    have first := nextToken_head c cs
    rw [hnil] at first
    cases first

theorem spelled_places (q : Qualifier) {marked : List (Str × Bool)} {sql : Str}
    (h : marked.map Prod.fst = tokens sql) :
    written q (places marked) = spelled q marked ∧ (places marked).length = sql.length := by
  refine ⟨written_places q marked fun m hm => ?_, ?_⟩
  · exact tokens_ne_nil sql _ (h ▸ List.mem_map_of_mem hm)
  · rw [← tokens_flatten sql, ← h, ← places_text, List.length_map]

/-! ## The tokens of a text put together -/

theorem count_stringTail {cs taken rest : Str} (h : stringTail cs = some (taken, rest)) :
    Odd (taken.count '\'') := by
  induction cs using stringTail.induct generalizing taken rest with
  | case1 => cases h
  | case2 cs t r ht ih =>
    simp only [stringTail, ht, Option.some.injEq, Prod.mk.injEq] at h
    obtain ⟨rfl, -⟩ := h
    have tail := ih ht
    simpa [Nat.odd_add] using tail
  | case3 cs ht ih =>
    simp only [stringTail, ht, Option.some.injEq, Prod.mk.injEq] at h
    obtain ⟨rfl, -⟩ := h
    exact odd_one
  | case4 cs hne =>
    rw [stringTail] at h
    · obtain ⟨rfl, -⟩ := Prod.mk.inj (Option.some.inj h)
      exact odd_one
    · exact hne
  | case5 c cs h1 h2 ih =>
    rw [stringTail] at h
    · obtain ⟨⟨t, r⟩, ht, heq⟩ := Option.map_eq_some_iff.mp h
      obtain ⟨rfl, -⟩ := Prod.mk.inj heq
      rw [List.count_cons_of_ne h2]
      exact ih ht
    · exact h1
    · exact h2

theorem count_word {w : Str} (h : isWord w = true) : w.count '\'' = 0 :=
  List.count_eq_zero.mpr (quote_not_mem_word h)

/-- Only literals and open quotes have quotes. -/
theorem count_nextToken {c : Char} {cs : Str} (h : c ≠ '\'') : (nextToken c cs).1.count '\'' = 0 := by
  by_cases hw : isWordStart c = true
  · exact count_word (isWord_nextToken hw)
  · rw [nextToken_char h (by simpa using hw)]
    exact List.count_eq_zero.mpr (by simpa using Ne.symm h)

theorem odd_open {cs : Str} (h : '\'' ∉ cs) : Odd (('\'' :: cs).count '\'') := by
  rw [List.count_cons_self, List.count_eq_zero.mpr h]
  exact odd_one

/-- Where every quote is closed, a token has an even number of them, and so has
the rest. -/
theorem even_nextToken {c : Char} {cs : Str} (h : Even ((c :: cs).count '\'')) :
    Even ((nextToken c cs).1.count '\'') ∧ Even ((nextToken c cs).2.count '\'') := by
  have whole : Even ((nextToken c cs).1.count '\'' + (nextToken c cs).2.count '\'') := by
    rwa [← List.count_append, nextToken_append]
  suffices first : Even ((nextToken c cs).1.count '\'') from
    ⟨first, (Nat.even_add.mp whole).mp first⟩
  by_cases hc : c = '\''
  · subst hc
    cases hs : stringTail cs with
    | none =>
      have odd := odd_open (stringTail_eq_none_iff.mp hs)
      exact absurd h (Nat.not_even_iff_odd.mpr odd)
    | some pair =>
      rw [nextToken_closed hs, List.count_cons_self]
      exact (count_stringTail hs).add_one
  · rw [count_nextToken hc]
    exact Even.zero

/-- An open quote that what follows does not close. -/
theorem free_append {cs x : Str} (h : Even (('\'' :: cs).count '\'') ∨ '\'' ∉ x)
    (hcs : '\'' ∉ cs) : '\'' ∉ cs ++ x := by
  have hx := h.resolve_left (Nat.not_even_iff_odd.mpr (odd_open hcs))
  exact fun hmem => (List.mem_append.mp hmem).elim hcs hx

/-- The tokens start anew behind a text whose quotes are all closed, and in front
of one that closes none. -/
theorem tokens_append {x : Str} (hx : ∀ d ∈ x.head?, d ≠ '\'' ∧ isWordChar d = false) (a : Str)
    (h : Even (a.count '\'') ∨ '\'' ∉ x) : tokens (a ++ x) = tokens a ++ tokens x := by
  induction a using tokens_induction with
  | nil => rfl
  | token c cs ih =>
    have rest : Even ((nextToken c cs).2.count '\'') ∨ '\'' ∉ x :=
      h.imp (fun even => (even_nextToken even).2) id
    have again : tokens ((nextToken c cs).1 ++ ((nextToken c cs).2 ++ x)) =
        (nextToken c cs).1 :: tokens ((nextToken c cs).2 ++ x) := by
      refine tokens_again (fun hc => ?_) fun hw d hd => ?_
      · subst hc
        cases hs : stringTail cs with
        | none =>
          rw [nextToken_open hs]
          exact ⟨fun _ => free_append h (stringTail_eq_none_iff.mp hs),
            fun hsome => absurd rfl hsome⟩
        | some pair =>
          obtain ⟨taken, left⟩ := pair
          rw [nextToken_closed hs] at rest ⊢
          refine ⟨nofun, fun _ ds hds => ?_⟩
          cases left with
          | nil =>
            obtain rfl : x = '\'' :: ds := hds
            exact absurd rfl (hx '\'' rfl).1
          | cons d left =>
            obtain ⟨rfl, rfl⟩ := List.cons.inj hds
            exact free_append rest (stringTail_rest hs)
      · cases hrest : (nextToken c cs).2 with
        | nil => exact (hx d (by simpa [hrest] using hd)).2
        | cons e es =>
          rw [hrest] at hd
          exact @nextToken_stops c cs hw d (by rwa [hrest])
    calc tokens (c :: cs ++ x)
        = tokens ((nextToken c cs).1 ++ ((nextToken c cs).2 ++ x)) := by
          rw [← List.append_assoc, nextToken_append]
      _ = tokens (c :: cs) ++ tokens x := by
          rw [again, ih rest, tokens_cons, List.cons_append]

theorem tokens_cut {b : Str} {ts us : List Str} {a : Str} (h : tokens (a ++ b) = ts ++ us)
    (hts : ts.flatten = a) : tokens a = ts ∧ tokens b = us := by
  induction ts generalizing a with
  | nil =>
    obtain rfl : a = [] := hts.symm
    exact ⟨rfl, h⟩
  | cons t ts ih =>
    subst hts
    cases hab : (t :: ts).flatten ++ b with
    | nil => rw [hab] at h; cases h
    | cons c cs =>
      rw [hab, tokens_cons, List.cons_append] at h
      obtain ⟨rfl, hrest⟩ := List.cons.inj h
      have left : (nextToken c cs).2 = ts.flatten ++ b := by
        have whole := nextToken_append c cs
        rw [← hab, List.flatten_cons, List.append_assoc] at whole
        exact List.append_cancel_left whole
      obtain ⟨hcut, hus⟩ := ih (left ▸ hrest) rfl
      refine ⟨?_, hus⟩
      rw [List.flatten_cons, tokens_again (fun hc => ?_) fun hw d hd => ?_, hcut]
      · subst hc
        cases hs : stringTail cs with
        | none =>
          obtain rfl : cs = ts.flatten ++ b := by rwa [nextToken_open hs] at left
          have free := stringTail_eq_none_iff.mp hs
          exact ⟨fun _ hmem => free (List.mem_append_left _ hmem), fun hsome => absurd rfl hsome⟩
        | some pair =>
          obtain ⟨taken, rest⟩ := pair
          obtain rfl : rest = ts.flatten ++ b := by rwa [nextToken_closed hs] at left
          refine ⟨nofun, fun _ ds hds => ?_⟩
          rw [hds] at hs
          have free := stringTail_rest hs
          exact fun hmem => free (List.mem_append_left _ hmem)
      · have stops := @nextToken_stops c cs hw
        rw [left] at stops
        refine stops d ?_
        cases hf : ts.flatten with
        | nil => rw [hf] at hd; cases hd
        | cons e es => simpa [hf] using hd

theorem Between.tokens {before behind : Str} (h : Between before behind) :
    tokens (before ++ behind) = tokens before ++ tokens behind := by
  obtain ⟨ts, us, htokens, hflatten⟩ := h
  obtain ⟨rfl, rfl⟩ := tokens_cut htokens hflatten
  exact htokens

theorem tokens_newline (before : Str) {x : Str} (h : Even (before.count '\'') ∨ '\'' ∉ x) :
    tokens (before ++ '\n' :: x) = tokens before ++ [['\n']] ++ tokens x := by
  have newline : tokens ('\n' :: x) = ['\n'] :: tokens x := by
    rw [tokens_cons, nextToken_char (by simp) rfl]
  have closed : Even (before.count '\'') ∨ '\'' ∉ '\n' :: x :=
    h.imp id fun free => by simpa using free
  rw [tokens_append (by simp [isWordChar, isWordStart]) before closed, newline, List.append_assoc,
    List.singleton_append]

/-! ## Inside a literal nothing is rewritten -/

/-- Behind `n` quotes, the prefix only goes where their number is even. -/
def EvenHits : Nat → List (Char × Bool) → Prop
  | _, [] => True
  | n, p :: placed => (p.2 = true → Even n) ∧ EvenHits (if p.1 = '\'' then n + 1 else n) placed

theorem EvenHits.append {n : Nat} {a b : List (Char × Bool)} :
    EvenHits n (a ++ b) ↔ EvenHits n a ∧ EvenHits (n + (a.map Prod.fst).count '\'') b := by
  induction a generalizing n with
  | nil => simp [EvenHits]
  | cons p a ih =>
    have count : (if p.1 = '\'' then n + 1 else n) + (a.map Prod.fst).count '\'' =
        n + ((p :: a).map Prod.fst).count '\'' := by
      rw [List.map_cons, List.count_cons]
      by_cases hp : p.1 = '\''
      · simp [hp]
        omega
      · simp [hp]
    rw [List.cons_append, EvenHits, EvenHits, ih, count, and_assoc]

theorem EvenHits.unmarked {n : Nat} {placed : List (Char × Bool)} (h : ∀ p ∈ placed, p.2 = false) :
    EvenHits n placed := by
  induction placed generalizing n with
  | nil => trivial
  | cons p placed ih =>
    refine ⟨fun hp => ?_, ih fun r hr => h r (List.mem_cons_of_mem _ hr)⟩
    rw [h p List.mem_cons_self] at hp
    cases hp

theorem getLast_nextToken {c d : Char} {cs : Str} (h : (c :: cs).getLast? = some d) :
    (nextToken c cs).2 = [] ∨ (nextToken c cs).2.getLast? = some d := by
  by_cases hrest : (nextToken c cs).2 = []
  · exact .inl hrest
  · rw [← nextToken_append, List.getLast?_append] at h
    cases he : (nextToken c cs).2.getLast? with
    | none => exact absurd (List.getLast?_eq_none_iff.mp he) hrest
    | some e =>
      rw [he] at h
      exact .inr h

/-- The rest behind the first token of a text that is closed, or that ends in a
quote. -/
theorem closed_nextToken {c : Char} {cs : Str}
    (h : Even ((c :: cs).count '\'') ∨ (c :: cs).getLast? = some '\'') :
    (nextToken c cs).2 = [] ∨ (Even ((nextToken c cs).1.count '\'') ∧
      (Even ((nextToken c cs).2.count '\'') ∨ (nextToken c cs).2.getLast? = some '\'')) := by
  rcases h with heven | hlast
  · obtain ⟨htoken, hrest⟩ := even_nextToken heven
    exact .inr ⟨htoken, .inl hrest⟩
  · rcases getLast_nextToken hlast with hrest | last
    · exact .inl hrest
    refine .inr ⟨?_, .inr last⟩
    by_cases hc : c = '\''
    · subst hc
      cases hs : stringTail cs with
      | none =>
        rw [nextToken_open hs] at last
        exact absurd (List.mem_of_getLast? last) (stringTail_eq_none_iff.mp hs)
      | some pair =>
        rw [nextToken_closed hs, List.count_cons_self]
        exact (count_stringTail hs).add_one
    · rw [count_nextToken hc]
      exact Even.zero

theorem evenHits_marks (q : Qualifier) (next : Option Str) (y : Str)
    (h : Even (y.count '\'') ∨ y.getLast? = some '\'') (s : State) {n : Nat} (hn : Even n) :
    EvenHits n (places (marksUpTo q next s (tokens y))) := by
  induction y using tokens_induction generalizing s n with
  | nil => trivial
  | token c cs ih =>
    rw [tokens_cons, marksUpTo, places_cons, EvenHits.append, block_text]
    refine ⟨?_, ?_⟩
    · cases (nextToken c cs).1 with
      | nil => trivial
      | cons d ds => exact ⟨fun _ => hn, .unmarked (by simp)⟩
    · rcases closed_nextToken h with hrest | ⟨htoken, hrest⟩
      · rw [hrest]
        trivial
      · exact ih hrest _ (hn.add htoken)

/-- Outside the literals of two readings that pair the quotes differently there is
nothing. -/
theorem unmarked_of_parities {m n : Nat} (hm : Even m) (hn : Odd n) {placed : List (Char × Bool)}
    (h : EvenHits m placed) (h' : EvenHits n placed) : ∀ p ∈ placed, p.2 = false := by
  induction placed generalizing m n with
  | nil => nofun
  | cons p placed ih =>
    refine List.forall_mem_cons.mpr ⟨?_, ?_⟩
    · by_contra hhit
      exact (Nat.not_even_iff_odd.mpr hn) (h'.1 (by simpa using hhit))
    · have rest := h.2
      have rest' := h'.2
      by_cases hp : p.1 = '\''
      · rw [if_pos hp] at rest rest'
        -- a quote swaps the two
        exact ih hn.add_one hm.add_one rest' rest
      · rw [if_neg hp] at rest rest'
        exact ih hm hn rest rest'

/-- The tokens start anew behind the last quote of a text. -/
theorem tokens_quote {x : Str} (hx : '\'' ∉ x) {y : Str} (h : y = [] ∨ y.getLast? = some '\'') :
    tokens (y ++ x) = tokens y ++ tokens x := by
  induction y using tokens_induction with
  | nil => rfl
  | token c cs ih =>
    have last : (c :: cs).getLast? = some '\'' := h.resolve_left (List.cons_ne_nil c cs)
    have rest := getLast_nextToken last
    have again : tokens ((nextToken c cs).1 ++ ((nextToken c cs).2 ++ x)) =
        (nextToken c cs).1 :: tokens ((nextToken c cs).2 ++ x) := by
      refine tokens_again (fun hc => ?_) fun hw d hd => ?_
      · subst hc
        cases hs : stringTail cs with
        | none =>
          have free := stringTail_eq_none_iff.mp hs
          rw [nextToken_open hs]
          exact ⟨fun _ hmem => (List.mem_append.mp hmem).elim free hx, fun hsome => absurd rfl hsome⟩
        | some pair =>
          obtain ⟨taken, left⟩ := pair
          rw [nextToken_closed hs]
          refine ⟨nofun, fun _ ds hds hmem => ?_⟩
          cases left with
          | nil =>
            rw [List.nil_append] at hds
            exact hx (hds ▸ List.mem_cons_self)
          | cons d left =>
            obtain ⟨rfl, rfl⟩ := List.cons.inj hds
            exact (List.mem_append.mp hmem).elim (stringTail_rest hs) hx
      · cases hrest : (nextToken c cs).2 with
        | nil =>
          -- a word does not end in a quote
          have whole := nextToken_append c cs
          rw [hrest, List.append_nil] at whole
          rw [← whole] at last
          exact absurd (List.mem_of_getLast? last) (quote_not_mem_word (isWord_nextToken hw))
        | cons e es =>
          rw [hrest] at hd
          exact @nextToken_stops c cs hw d (by rwa [hrest])
    calc tokens (c :: cs ++ x)
        = tokens ((nextToken c cs).1 ++ ((nextToken c cs).2 ++ x)) := by
          rw [← List.append_assoc, nextToken_append]
      _ = tokens (c :: cs) ++ tokens x := by
          rw [again, ih rest, tokens_cons, List.cons_append]

/-! ## An open quote -/

/-- A quote further down closes an open one. -/
theorem stringTail_found {cs y : Str} (hcs : '\'' ∉ cs) (hy : '\'' ∈ y) :
    ∃ z rest, stringTail (cs ++ y) = some (cs ++ z, rest) := by
  induction cs with
  | nil =>
    cases hs : stringTail y with
    | none => exact absurd hy (stringTail_eq_none_iff.mp hs)
    | some pair => exact ⟨pair.1, pair.2, hs⟩
  | cons c cs ih =>
    simp only [List.mem_cons, not_or] at hcs
    obtain ⟨z, rest, hz⟩ := ih hcs.2
    refine ⟨z, rest, ?_⟩
    rw [List.cons_append, stringTail, hz]
    · rfl
    · exact fun _ hc => absurd hc.symm hcs.1
    · exact Ne.symm hcs.1

/-- It also does where a quote right behind a literal is the open one. -/
theorem stringTail_closed {cs y taken ds : Str} (h : stringTail cs = some (taken, '\'' :: ds))
    (hy : '\'' ∈ y) : ∃ z rest, stringTail (cs ++ y) = some (cs ++ z, rest) := by
  induction cs using stringTail.induct generalizing taken with
  | case1 => cases h
  | case2 cs t r ht ih =>
    simp only [stringTail, ht, Option.some.injEq, Prod.mk.injEq] at h
    obtain ⟨-, rfl⟩ := h
    obtain ⟨z, rest, hz⟩ := ih ht
    exact ⟨z, rest, by rw [List.cons_append, List.cons_append, stringTail, hz]; rfl⟩
  | case3 cs ht ih =>
    obtain ⟨z, rest, hz⟩ := stringTail_found (stringTail_eq_none_iff.mp ht) hy
    exact ⟨z, rest, by rw [List.cons_append, List.cons_append, stringTail, hz]; rfl⟩
  | case4 cs hne =>
    rw [stringTail] at h
    · exact absurd (Prod.mk.inj (Option.some.inj h)).2 (hne ds)
    · exact hne
  | case5 c cs h1 h2 ih =>
    rw [stringTail] at h
    · obtain ⟨⟨t, r⟩, ht, heq⟩ := Option.map_eq_some_iff.mp h
      obtain ⟨-, rfl⟩ := Prod.mk.inj heq
      obtain ⟨z, rest, hz⟩ := ih ht
      refine ⟨z, rest, ?_⟩
      rw [List.cons_append, stringTail, hz]
      · rfl
      · exact fun _ hc => absurd hc h2
      · exact h2
    · exact h1
    · exact h2

theorem head_dot (c : Char) (cs : Str) : (tokens (c :: cs)).head? = some ['.'] ↔ c = '.' := by
  rw [tokens_cons, List.head?_cons]
  constructor
  · intro h
    have first := nextToken_head c cs
    rw [Option.some.inj h] at first
    exact (Option.some.inj first).symm
  · rintro rfl
    rw [nextToken_char (by simp) rfl]

/-- A text with an odd number of quotes, taken apart at the open one; a quote
further down makes a literal of all that is behind it. -/
structure Opened (q : Qualifier) (before : Str) (ts : List Str) (left : Str) : Prop where
  parts : tokens before = ts ++ ['\''] :: tokens left
  first : ['\''] ∉ ts
  free : '\'' ∉ left
  closed : ∀ (y : Str) (s : State), '\'' ∈ y →
    (places (marks q s (tokens (before ++ y)))).take before.length =
      places (marksUpTo q (some ['\'']) s ts) ++ ('\'' :: left).map fun d => (d, false)

theorem marks_literal (q : Qualifier) (s : State) (cs : Str) (ts : List Str) :
    places (marks q s (('\'' :: cs) :: ts)) =
      ('\'' :: cs).map (fun d => (d, false)) ++ places (marks q (q.advance s ('\'' :: cs)) ts) := by
  have copied : q.rewrites s ('\'' :: cs) ts.head? = false := by simp [Qualifier.rewrites]
  rw [marks, places_cons, copied, block_unmarked]

/-- A token in front of the open quote. -/
theorem Opened.cons {q : Qualifier} {c : Char} {cs : Str} {ts : List Str} {left : Str}
    (h : Opened q (nextToken c cs).2 ts left) (hfirst : (nextToken c cs).1 ≠ ['\''])
    (hagain : ∀ y, tokens (c :: cs ++ y) =
      (nextToken c cs).1 :: tokens ((nextToken c cs).2 ++ y)) :
    Opened q (c :: cs) ((nextToken c cs).1 :: ts) left where
  parts := by rw [tokens_cons, h.parts, List.cons_append]
  first := by simpa using ⟨hfirst.symm, h.first⟩
  free := h.free
  closed := by
    intro y s hy
    have length : (c :: cs).length = (block ((nextToken c cs).1,
        q.rewrites s (nextToken c cs).1 (ts.head?.or (some ['\''])))).length +
          (nextToken c cs).2.length := by
      have text := congrArg List.length (nextToken_append c cs)
      rw [← text, List.length_append, block_length]
    have dot : (tokens ((nextToken c cs).2 ++ y)).head? = some ['.'] ↔
        ts.head?.or (some ['\'']) = some ['.'] := by
      have here := congrArg List.head? h.parts
      rw [List.head?_append, List.head?_cons] at here
      rw [← here]
      cases hrest : (nextToken c cs).2 with
      | nil =>
        have none := h.parts
        rw [hrest] at none
        exact absurd none (by simp)
      | cons d ds => rw [List.cons_append, head_dot, head_dot]
    rw [hagain, marks, places_cons, rewrites_next q s _ dot, length, List.take_length_add_append,
      h.closed y _ hy, marksUpTo, places_cons, List.append_assoc]

/-- A quote nothing closes. -/
theorem opened_lone (q : Qualifier) {cs : Str} (hs : stringTail cs = none) :
    Opened q ('\'' :: cs) [] cs where
  parts := by rw [tokens_cons, nextToken_open hs, List.nil_append]
  first := nofun
  free := stringTail_eq_none_iff.mp hs
  closed := by
    intro y s hy
    obtain ⟨z, rest, hz⟩ := stringTail_found (stringTail_eq_none_iff.mp hs) hy
    rw [List.cons_append, tokens_cons, nextToken_closed hz, marks_literal, ← List.cons_append,
      List.map_append, List.append_assoc]
    exact List.take_left' (List.length_map ..)

theorem stringTail_ne_nil {cs taken rest : Str} (hs : stringTail cs = some (taken, rest)) :
    taken ≠ [] := by
  rintro rfl
  exact Nat.not_odd_zero (count_stringTail hs)

/-- One right behind a literal, which a quote further down makes longer. -/
theorem opened_doubled (q : Qualifier) {cs taken ds : Str}
    (hs : stringTail cs = some (taken, '\'' :: ds)) :
    Opened q ('\'' :: cs) ['\'' :: taken] ds where
  parts := by
    have lone : stringTail ds = none := stringTail_eq_none_iff.mpr (stringTail_rest hs)
    rw [tokens_cons, nextToken_closed hs, tokens_cons, nextToken_open lone, List.singleton_append]
  first := by
    intro hmem
    exact stringTail_ne_nil hs (List.cons.inj (List.mem_singleton.mp hmem)).2.symm
  free := stringTail_rest hs
  closed := by
    intro y s hy
    obtain ⟨z, rest, hz⟩ := stringTail_closed hs hy
    have text : ('\'' :: taken).map (fun d => (d, false)) ++ ('\'' :: ds).map (fun d => (d, false)) =
        ('\'' :: cs).map fun d => (d, false) := by
      rw [← List.map_append, List.cons_append, stringTail_append hs]
    have copied : ∀ next, q.rewrites s ('\'' :: taken) next = false := by
      simp [Qualifier.rewrites]
    rw [marksUpTo, marksUpTo, copied, places_cons, block_unmarked, places_nil,
      List.append_nil, text, List.cons_append, tokens_cons, nextToken_closed hz, marks_literal,
      ← List.cons_append, List.map_append, List.append_assoc]
    exact List.take_left' (List.length_map ..)

/-- A token that is not the last one is found again in a longer text, unless a
quote follows it right behind its own. -/
theorem tokens_longer {c : Char} {cs : Str} (hrest : (nextToken c cs).2 ≠ [])
    (hquote : c = '\'' → stringTail cs ≠ none ∧ (nextToken c cs).2.head? ≠ some '\'') (y : Str) :
    tokens (c :: cs ++ y) = (nextToken c cs).1 :: tokens ((nextToken c cs).2 ++ y) := by
  obtain ⟨d, ds, hd⟩ := List.exists_cons_of_ne_nil hrest
  have again := @tokens_again c cs ((nextToken c cs).2 ++ y)
    (fun hc => ⟨fun hnone => absurd hnone (hquote hc).1, fun _ es hes => ?_⟩) fun hw e he => ?_
  · rw [← again, ← List.append_assoc, nextToken_append]
  · rw [hd, List.cons_append] at hes
    have free := (hquote hc).2
    rw [hd, (List.cons.inj hes).1] at free
    exact absurd rfl free
  · rw [hd, List.cons_append, List.head?_cons] at he
    exact @nextToken_stops c cs hw e (by rwa [hd])

theorem exists_opened (q : Qualifier) (before : Str) (h : Odd (before.count '\'')) :
    ∃ ts left, Opened q before ts left := by
  induction before using tokens_induction with
  | nil => exact absurd h Nat.not_odd_zero
  | token c cs ih =>
    -- the first token has no open quote, and another one has
    have step : Odd ((nextToken c cs).2.count '\'') → (nextToken c cs).1 ≠ ['\''] →
        (c = '\'' → stringTail cs ≠ none ∧ (nextToken c cs).2.head? ≠ some '\'') →
        ∃ ts left, Opened q (c :: cs) ts left := by
      intro odd hfirst hquote
      obtain ⟨ts, left, hopened⟩ := ih odd
      have nonempty : (nextToken c cs).2 ≠ [] := by
        intro e
        rw [e] at odd
        exact Nat.not_odd_zero odd
      exact ⟨_, left, hopened.cons hfirst (tokens_longer nonempty hquote)⟩
    have whole := congrArg (List.count '\'') (nextToken_append c cs)
    rw [List.count_append] at whole
    by_cases hc : c = '\''
    · subst hc
      cases hs : stringTail cs with
      | none => exact ⟨[], cs, opened_lone q hs⟩
      | some pair =>
        obtain ⟨taken, rest⟩ := pair
        rw [nextToken_closed hs] at step whole
        rw [List.count_cons_self] at whole
        by_cases hhead : rest.head? = some '\''
        · obtain ⟨ds, rfl⟩ := List.head?_eq_some_iff.mp hhead
          exact ⟨_, ds, opened_doubled q hs⟩
        · refine step ?_ (fun e => stringTail_ne_nil hs (List.cons.inj e).2)
            fun _ => ⟨by rw [hs]; nofun, hhead⟩
          rw [← whole] at h
          exact (Nat.odd_add'.mp h).mpr (count_stringTail hs).add_one
    · have plain := @count_nextToken c cs hc
      rw [← whole, plain, Nat.zero_add] at h
      refine step h (fun e => ?_) fun e => absurd e hc
      rw [e] at plain
      cases plain

/-- Behind an open quote there is no other one. -/
theorem free_of_open {y : Str} {ts us : List Str} (h : tokens y = ts ++ ['\''] :: us) :
    '\'' ∉ us.flatten := by
  have text : ts.flatten ++ ('\'' :: us.flatten) = y := by
    have whole := congrArg List.flatten h
    rw [tokens_flatten, List.flatten_append, List.flatten_cons] at whole
    exact whole.symm
  rw [← text] at h
  obtain ⟨-, hopen⟩ := tokens_cut h rfl
  rw [tokens_cons] at hopen
  cases hs : stringTail us.flatten with
  | none => exact stringTail_eq_none_iff.mp hs
  | some pair =>
    obtain ⟨taken, rest⟩ := pair
    rw [nextToken_closed hs] at hopen
    have single := (List.cons.inj (List.cons.inj hopen).1).2
    exact absurd single (stringTail_ne_nil hs)

theorem free_behind_odd (q : Qualifier) {before behind : Str} (h : Odd (before.count '\''))
    (hbetween : Between before behind) : '\'' ∉ behind := by
  obtain ⟨ts, left, hopened⟩ := exists_opened q before h
  have whole := hbetween.tokens
  rw [hopened.parts, List.append_assoc, List.cons_append] at whole
  have free := free_of_open whole
  rw [List.flatten_append, tokens_flatten behind] at free
  exact fun hmem => free (List.mem_append_right _ hmem)

end DeltaForgeBench.Workloads.Seams
