import DeltaForgeBench.Workloads.Qualify

/-! # Rewriting loses nothing, and once is enough

For any text at all: the output is the text with prefixes put in front of some
of its tokens, and rewriting the output changes nothing. The second pass reads
the tokens of the first one with those of the prefixes in between; where a
prefix runs into the keyword before it, the keyword is lost and the second pass
only qualifies less. -/
namespace DeltaForgeBench.Workloads.Lossless
open DeltaForgeBench.Base.Text DeltaForgeBench.Workloads.DfCatalog
open DeltaForgeBench.Workloads.SqlGrammar DeltaForgeBench.Workloads.Layouts
open DeltaForgeBench.Workloads.Qualify

/-! ## The marks of one pass -/

/-- The tokens, and which of them get the prefix. -/
def marks (q : Qualifier) : State → List Str → List (Str × Bool)
  | _, [] => []
  | s, t :: ts => (t, q.rewrites s t ts.head?) :: marks q (q.advance s t) ts

/-- The text of marked tokens. -/
def spelled (q : Qualifier) (marked : List (Str × Bool)) : Str :=
  marked.flatMap fun m => (if m.2 then q.namePrefix else []) ++ m.1

theorem marks_tokens (q : Qualifier) (s : State) (ts : List Str) :
    (marks q s ts).map Prod.fst = ts := by
  induction ts generalizing s with
  | nil => rfl
  | cons t ts ih => rw [marks, List.map_cons, ih]

theorem spelled_marks (q : Qualifier) (s : State) (ts : List Str) :
    spelled q (marks q s ts) = q.run s ts := by
  induction ts generalizing s with
  | nil => rfl
  | cons t ts ih =>
    have tail := ih (q.advance s t)
    simp only [spelled] at tail
    rw [spelled, marks, List.flatMap_cons, tail, Qualifier.run]
    split <;> rfl

theorem marks_quoted (q : Qualifier) (s : State) (ts : List Str) :
    ∀ m ∈ marks q s ts, m.1.head? = some '\'' → m.2 = false := by
  induction ts generalizing s with
  | nil => nofun
  | cons t ts ih =>
    intro m hm hquote
    rcases List.mem_cons.mp hm with rfl | hm
    · simp only at hquote
      simp [Qualifier.rewrites, hquote]
    · exact ih _ m hm hquote

/-! ## Texts put into a text -/

/-- The second text is the first with texts free of quotes put in front of some
of its characters, never in front of a quote. -/
inductive Inserted : Str → Str → Prop
  | nil : Inserted [] []
  | keep (c : Char) {cs ds : Str} : Inserted cs ds → Inserted (c :: cs) (c :: ds)
  | put {c : Char} (w : Str) {cs ds : Str} : c ≠ '\'' → '\'' ∉ w → Inserted cs ds →
      Inserted (c :: cs) (w ++ c :: ds)

theorem Inserted.refl (t : Str) : Inserted t t := by
  induction t with
  | nil => exact .nil
  | cons c cs ih => exact .keep c ih

theorem Inserted.append {a b c d : Str} (h : Inserted a b) (h' : Inserted c d) :
    Inserted (a ++ c) (b ++ d) := by
  induction h with
  | nil => exact h'
  | keep c _ ih => exact .keep c ih
  | put w hc hw _ ih =>
    rw [List.append_assoc]
    exact .put w hc hw ih

theorem Inserted.quote_free {a b : Str} (h : Inserted a b) (hfree : '\'' ∉ a) : '\'' ∉ b := by
  induction h with
  | nil => exact hfree
  | keep c _ ih =>
    simp only [List.mem_cons, not_or] at hfree ⊢
    exact ⟨hfree.1, ih hfree.2⟩
  | put w hc hw _ ih =>
    simp only [List.mem_cons, List.mem_append, not_or] at hfree ⊢
    exact ⟨hw, hfree.1, ih hfree.2⟩

/-- A leading quote stays where it is, and no other character becomes one. -/
theorem Inserted.head {c : Char} {cs b : Str} (h : Inserted (c :: cs) b) :
    (c = '\'' ∧ ∃ ds, b = '\'' :: ds ∧ Inserted cs ds) ∨ (c ≠ '\'' ∧ b.head? ≠ some '\'') := by
  cases h with
  | keep c h' =>
    by_cases hc : c = '\''
    · exact .inl ⟨hc, _, by rw [hc], h'⟩
    · exact .inr ⟨hc, by simpa using hc⟩
  | put w hc hw h' =>
    refine .inr ⟨hc, ?_⟩
    cases w with
    | nil => simpa using hc
    | cons d w =>
      simp only [List.mem_cons, not_or] at hw
      simpa using Ne.symm hw.1

/-! ## The tokens of such a text -/

/-- An opening quote stays alone only when no quote follows at all. -/
theorem stringTail_eq_none_iff {cs : Str} : stringTail cs = none ↔ '\'' ∉ cs := by
  induction cs using stringTail.induct with
  | case1 => simp [stringTail]
  | case2 cs t r ht ih => simp [stringTail, ht]
  | case3 cs ht ih => simp [stringTail, ht]
  | case4 cs hne =>
    rw [stringTail]
    · simp
    · exact hne
  | case5 c cs h1 h2 ih =>
    rw [stringTail, Option.map_eq_none_iff, ih]
    · simp [Ne.symm h2]
    · exact h1
    · exact h2

/-- A quote is left behind a quoted text only when no other one follows. -/
theorem stringTail_rest {cs taken ds : Str} (h : stringTail cs = some (taken, '\'' :: ds)) :
    '\'' ∉ ds := by
  induction cs using stringTail.induct generalizing taken with
  | case1 => cases h
  | case2 cs t r ht ih =>
    simp only [stringTail, ht, Option.some.injEq, Prod.mk.injEq] at h
    obtain ⟨-, rfl⟩ := h
    exact ih ht
  | case3 cs ht ih =>
    simp only [stringTail, ht, Option.some.injEq, Prod.mk.injEq, List.cons.injEq] at h
    obtain ⟨-, -, rfl⟩ := h
    exact stringTail_eq_none_iff.mp ht
  | case4 cs hne =>
    rw [stringTail] at h
    · exact absurd (Prod.mk.inj (Option.some.inj h)).2 (hne ds)
    · exact hne
  | case5 c cs h1 h2 ih =>
    rw [stringTail] at h
    · obtain ⟨⟨t, r⟩, ht, heq⟩ := Option.map_eq_some_iff.mp h
      obtain ⟨-, rfl⟩ := Prod.mk.inj heq
      exact ih ht
    · exact h1
    · exact h2

/-- A quoted text ends where it did, whatever comes behind it, unless a quote
follows that can be doubled and another one that can close. -/
theorem stringTail_taken {cs taken rest b : Str} (h : stringTail cs = some (taken, rest))
    (hb : ∀ ds, b = '\'' :: ds → '\'' ∉ ds) : stringTail (taken ++ b) = some (taken, b) := by
  have closes : stringTail ('\'' :: b) = some (['\''], b) := by
    cases b with
    | nil => rfl
    | cons c ds =>
      by_cases hc : c = '\''
      · subst hc
        rw [stringTail, stringTail_eq_none_iff.mpr (hb ds rfl)]
      · rw [stringTail]
        exact fun cs e => hc (List.cons.inj e).1
  induction cs using stringTail.induct generalizing taken rest with
  | case1 => cases h
  | case2 cs t r ht ih =>
    simp only [stringTail, ht, Option.some.injEq, Prod.mk.injEq] at h
    obtain ⟨rfl, rfl⟩ := h
    rw [List.cons_append, List.cons_append, stringTail, ih ht]
  | case3 cs ht ih =>
    simp only [stringTail, ht, Option.some.injEq, Prod.mk.injEq] at h
    obtain ⟨rfl, -⟩ := h
    exact closes
  | case4 cs hne =>
    rw [stringTail] at h
    · obtain ⟨rfl, -⟩ := Prod.mk.inj (Option.some.inj h)
      exact closes
    · exact hne
  | case5 c cs h1 h2 ih =>
    rw [stringTail] at h
    · obtain ⟨⟨t, r⟩, ht, heq⟩ := Option.map_eq_some_iff.mp h
      obtain ⟨rfl, rfl⟩ := Prod.mk.inj heq
      rw [List.cons_append, stringTail, ih ht]
      · rfl
      · exact fun ds hc => absurd hc h2
      · exact h2
    · exact h1
    · exact h2

/-- Texts put in do not double a quote that closes a text. -/
theorem Inserted.undoubled {cs taken rest ds : Str} (hb : Inserted rest ('\'' :: ds))
    (h : stringTail cs = some (taken, rest)) : '\'' ∉ ds := by
  cases rest with
  | nil => cases hb
  | cons c cs =>
    rcases hb.head with ⟨rfl, ds', hds', hins⟩ | ⟨-, hhead⟩
    · obtain rfl := (List.cons.inj hds').2
      exact hins.quote_free (stringTail_rest h)
    · exact absurd rfl hhead

/-- A token is found again in front of another rest, where that closes no open
quote and doubles no closing one, and does not go on with a word. -/
theorem tokens_again {c : Char} {cs b : Str}
    (hquote : c = '\'' → (stringTail cs = none → '\'' ∉ b) ∧
      (stringTail cs ≠ none → ∀ ds, b = '\'' :: ds → '\'' ∉ ds))
    (hword : isWordStart c = true → ∀ d ∈ b.head?, isWordChar d = false) :
    tokens ((nextToken c cs).1 ++ b) = (nextToken c cs).1 :: tokens b := by
  by_cases hc : c = '\''
  · subst hc
    obtain ⟨hopen, hclosed⟩ := hquote rfl
    cases hs : stringTail cs with
    | none =>
      rw [nextToken_open hs, List.singleton_append, tokens_cons,
        nextToken_open (stringTail_eq_none_iff.mpr (hopen hs))]
    | some pair =>
      obtain ⟨taken, rest⟩ := pair
      have again := stringTail_taken hs (hclosed (by rw [hs]; nofun))
      rw [nextToken_closed hs, List.cons_append, tokens_cons, nextToken_closed again]
  · by_cases hw : isWordStart c = true
    · have here : nextToken c cs = (c :: cs.takeWhile isWordChar, cs.dropWhile isWordChar) := by
        simp [nextToken, hc, hw]
      have all : (cs.takeWhile isWordChar).all isWordChar = true :=
        List.all_eq_true.mpr fun d hd => List.mem_takeWhile_imp hd
      rw [here, List.cons_append, tokens_cons, nextToken_word hw all (hword hw)]
    · have here : nextToken c cs = ([c], cs) := nextToken_char hc (by simpa using hw)
      rw [here, List.singleton_append, tokens_cons, nextToken_char hc (by simpa using hw)]

/-- A token is found again in front of what its rest has become, if that does
not go on with a word. -/
theorem tokens_inserted {c : Char} {cs b : Str} (h : Inserted (nextToken c cs).2 b)
    (hword : isWordStart c = true → ∀ d ∈ b.head?, isWordChar d = false) :
    tokens ((nextToken c cs).1 ++ b) = (nextToken c cs).1 :: tokens b := by
  refine tokens_again (fun hc => ?_) hword
  subst hc
  cases hs : stringTail cs with
  | none =>
    rw [nextToken_open hs] at h
    exact ⟨fun _ => h.quote_free (stringTail_eq_none_iff.mp hs), fun hsome => absurd rfl hsome⟩
  | some pair =>
    obtain ⟨taken, rest⟩ := pair
    rw [nextToken_closed hs] at h
    exact ⟨nofun, fun _ ds hds => (hds ▸ h).undoubled hs⟩

/-- What follows a word token does not go on with a word. -/
theorem nextToken_stops {c : Char} {cs : Str} (hc : isWordStart c = true) :
    ∀ d ∈ (nextToken c cs).2.head?, isWordChar d = false := by
  have quote : c ≠ '\'' := ne_of_test hc rfl
  have here : (nextToken c cs).2 = cs.dropWhile isWordChar := by simp [nextToken, quote, hc]
  intro d hd
  rw [here] at hd
  have hnot := List.head?_dropWhile_not (p := isWordChar) (l := cs)
  rw [Option.mem_def.mp hd] at hnot
  simpa using hnot

theorem nextToken_head (c : Char) (cs : Str) : (nextToken c cs).1.head? = some c := by
  unfold nextToken
  split
  · split <;> rfl
  · split <;> rfl

theorem tokens_word_dot {w : Str} (h : isWord w = true) (y : Str) :
    tokens (w ++ '.' :: y) = w :: ['.'] :: tokens y := by
  cases w with
  | nil => cases h
  | cons c cs =>
    obtain ⟨hc, hcs⟩ := (Bool.and_eq_true _ _).mp h
    have stop : ∀ d ∈ ('.' :: y).head?, isWordChar d = false := by
      intro d hd
      obtain rfl := Option.some.inj hd
      rfl
    rw [List.cons_append, tokens_cons, nextToken_word hc hcs stop, tokens_cons,
      nextToken_char (by simp) rfl]

/-! ## The state of the second pass -/

/-- What a rewritten token tells. -/
structure Rewritten (q : Qualifier) (s : State) (t : Str) (next : Option Str) : Prop where
  quote : t.head? ≠ some '\''
  name : q.isName t = true
  opens : fromOn.contains (lower t) = false
  closes : clauseOff.contains (lower t) = false
  inFrom : s.inFrom = true
  table : q.tables.contains t = true
  after : s.afterFrom = true
  next : next ≠ some ['.']

theorem rewrites_iff {q : Qualifier} {s : State} {t : Str} {next : Option Str} :
    q.rewrites s t next = true ↔ Rewritten q s t next := by
  constructor
  · intro h
    simp only [Qualifier.rewrites, Bool.and_eq_true, decide_eq_true_eq, Bool.not_eq_true'] at h
    obtain ⟨⟨⟨⟨⟨⟨⟨h1, h2⟩, h3⟩, h4⟩, h5⟩, h6⟩, h7⟩, h8⟩ := h
    exact ⟨h1, h2, h3, h4, h5, h6, h7, h8⟩
  · intro h
    simp [Qualifier.rewrites, h.quote, h.name, h.opens, h.closes, h.inFrom, h.table, h.after,
      h.next, -List.contains_eq_mem]

theorem not_rewrites_of_next {q : Qualifier} {s : State} {t : Str} {next : Option Str}
    (h : next = some ['.']) : q.rewrites s t next = false := by
  rw [← Bool.not_eq_true, rewrites_iff]
  exact fun hr => hr.next h

theorem not_rewrites_of_after {q : Qualifier} {s : State} {t : Str} {next : Option Str}
    (h : s.afterFrom = false) : q.rewrites s t next = false := by
  rw [← Bool.not_eq_true, rewrites_iff]
  intro hr
  rw [hr.after] at h
  cases h

/-- A name keeps the stack and is the last token seen. -/
theorem advance_name (q : Qualifier) (s : State) {t : Str} (hquote : t.head? ≠ some '\'')
    (hname : q.isName t = true) :
    (q.advance s t).stack = s.stack ∧ (q.advance s t).prevSig = t ∧
      (fromOn.contains (lower t) = false → clauseOff.contains (lower t) = false →
        (q.advance s t).inFrom = s.inFrom) := by
  have opening : t ≠ ['('] := by
    intro e
    rw [e] at hname
    cases hname
  have closing : t ≠ [')'] := by
    intro e
    rw [e] at hname
    cases hname
  unfold Qualifier.advance
  rw [if_neg hquote, if_neg opening, if_neg closing, if_pos hname]
  split
  · exact ⟨rfl, rfl, fun hopens => by simp_all⟩
  · split
    · exact ⟨rfl, rfl, fun _ hcloses => by simp_all⟩
    · exact ⟨rfl, rfl, fun _ _ => rfl⟩

/-- The state of a pass that has seen the same last token, and is inside a FROM
clause, now and at every open parenthesis, only where the other is. -/
structure Below (s' s : State) : Prop where
  prevSig : s'.prevSig = s.prevSig
  inFrom : s'.inFrom = true → s.inFrom = true
  stack : List.Forall₂ (fun b' b : Bool => b' = true → b = true) s'.stack s.stack

theorem Below.advance {q : Qualifier} {s' s : State} (h : Below s' s) (t : Str) :
    Below (q.advance s' t) (q.advance s t) := by
  unfold Qualifier.advance
  split
  · exact ⟨rfl, h.inFrom, h.stack⟩
  · split
    · exact ⟨rfl, h.inFrom, .cons h.inFrom h.stack⟩
    · split
      · have hstack := h.stack
        cases hs' : s'.stack with
        | nil =>
          rw [hs'] at hstack
          have hs : s.stack = [] := List.forall₂_nil_left_iff.mp hstack
          rw [hs]
          exact ⟨rfl, h.inFrom, .nil⟩
        | cons top' rest' =>
          rw [hs'] at hstack
          obtain ⟨top, rest, htop, hrest, hs⟩ := List.forall₂_cons_left_iff.mp hstack
          rw [hs]
          exact ⟨rfl, htop, hrest⟩
      · split
        · split
          · exact ⟨rfl, fun _ => rfl, h.stack⟩
          · split
            · exact ⟨rfl, nofun, h.stack⟩
            · exact ⟨rfl, h.inFrom, h.stack⟩
        · split
          · exact h
          · exact ⟨rfl, h.inFrom, h.stack⟩

theorem Below.refl (s : State) : Below s s :=
  ⟨rfl, id, List.forall₂_same.mpr fun _ _ => id⟩

/-! ## The output of the first pass -/

/-- A pass puts texts in; its prefix holds no quote. -/
theorem inserted_run {q : Qualifier} (unquoted : '\'' ∉ q.namePrefix) (s : State) (ts : List Str) :
    Inserted ts.flatten (q.run s ts) := by
  induction ts generalizing s with
  | nil => exact .nil
  | cons t ts ih =>
    rw [List.flatten_cons, Qualifier.run]
    refine .append ?_ (ih _)
    split
    · rename_i h
      have hr := rewrites_iff.mp h
      cases t with
      | nil => cases hr.name
      | cons c cs => exact .put _ (fun hc => hr.quote (by rw [hc]; rfl)) unquoted (.refl cs)
    · exact .refl t

/-- Where the next token is copied, the output starts as the text does. -/
theorem run_head {q : Qualifier} {s : State} {x : Str}
    (h : ∀ c cs, x = c :: cs →
      q.rewrites s (nextToken c cs).1 (tokens (nextToken c cs).2).head? = false) :
    (q.run s (tokens x)).head? = x.head? := by
  cases x with
  | nil => rfl
  | cons c cs =>
    have first := nextToken_head c cs
    rw [tokens_cons, Qualifier.run, h c cs rfl]
    cases ht : (nextToken c cs).1 with
    | nil => rw [ht] at first; cases first
    | cons d ds =>
      rw [ht] at first
      simpa using first

theorem isName_dot (q : Qualifier) : q.isName ['.'] = false := rfl

/-- A word and its dot are copied, whatever the word is. -/
theorem run_word_dot (q : Qualifier) (s : State) {w : Str} (h : isWord w = true) (y : Str) :
    ∃ s', q.run s (tokens (w ++ '.' :: y)) = w ++ '.' :: q.run s' (tokens y) ∧
      s'.stack = s.stack ∧ s'.prevSig = ['.'] := by
  have hname : q.isName w = true ∧ w.head? ≠ some '\'' := by
    cases w with
    | nil => cases h
    | cons c cs =>
      obtain ⟨hc, -⟩ := (Bool.and_eq_true _ _).mp h
      exact ⟨by simp [Qualifier.isName, hc], by simpa using (ne_of_test hc rfl : c ≠ '\'')⟩
  obtain ⟨hstack, -, -⟩ := advance_name q s hname.2 hname.1
  refine ⟨q.advance (q.advance s w) ['.'], ?_, hstack, rfl⟩
  have dot : ∀ next, q.rewrites (q.advance s w) ['.'] next = false := by
    intro next
    simp [Qualifier.rewrites, isName_dot]
  rw [tokens_word_dot h, Qualifier.run, Qualifier.run, dot, List.head?_cons,
    not_rewrites_of_next rfl]
  rfl

/-- A word, the dots and the schema of a prefix are copied, and leave a dot
behind. -/
theorem run_prefix {q : Qualifier} (hschema : isWord q.schema = true) (s : State) {w : Str}
    (h : isWord w = true) (y : Str) :
    ∃ s', q.run s (tokens (w ++ '.' :: (q.schema ++ '.' :: y))) =
        w ++ '.' :: (q.schema ++ '.' :: q.run s' (tokens y)) ∧
      s'.stack = s.stack ∧ s'.prevSig = ['.'] := by
  obtain ⟨s₁, hrun₁, hstack₁, -⟩ := run_word_dot q s h (q.schema ++ '.' :: y)
  obtain ⟨s₂, hrun₂, hstack₂, hprev₂⟩ := run_word_dot q s₁ hschema y
  exact ⟨s₂, by rw [hrun₁, hrun₂], hstack₂.trans hstack₁, hprev₂⟩

/-- Behind a name that is no FROM keyword no table can stand. -/
theorem afterFrom_name {q : Qualifier} {s : State} {t : Str} (hquote : t.head? ≠ some '\'')
    (hname : q.isName t = true) (hopens : fromOn.contains (lower t) = false) :
    (q.advance s t).afterFrom = false := by
  have comma : lower t ≠ [','] := by
    intro e
    obtain ⟨c, rfl, hc⟩ := List.map_eq_singleton_iff.mp e
    obtain rfl := toLower_comma hc
    cases hname
  rw [State.afterFrom, (advance_name q s hquote hname).2.1]
  simpa [fromOn, comma] using hopens

/-- A token of the first pass that the second one finds behind its prefix. -/
theorem run_behind_prefix {q : Qualifier} (unquoted : '\'' ∉ q.namePrefix) {s s' : State} {c : Char}
    {cs : Str}
    (h : Rewritten q s (nextToken c cs).1 (tokens (nextToken c cs).2).head?)
    (hstack : List.Forall₂ (fun b' b : Bool => b' = true → b = true) s'.stack s.stack)
    (hdot : s'.prevSig = ['.'])
    (ih : ∀ s', Below s' (q.advance s (nextToken c cs).1) →
      q.run s' (tokens (q.run (q.advance s (nextToken c cs).1) (tokens (nextToken c cs).2))) =
        q.run (q.advance s (nextToken c cs).1) (tokens (nextToken c cs).2)) :
    q.run s' (tokens ((nextToken c cs).1 ++
        q.run (q.advance s (nextToken c cs).1) (tokens (nextToken c cs).2))) =
      (nextToken c cs).1 ++
        q.run (q.advance s (nextToken c cs).1) (tokens (nextToken c cs).2) := by
  have inserted := inserted_run unquoted (q.advance s (nextToken c cs).1)
    (tokens (nextToken c cs).2)
  rw [tokens_flatten] at inserted
  have stops : isWordStart c = true →
      ∀ d ∈ (q.run (q.advance s (nextToken c cs).1) (tokens (nextToken c cs).2)).head?,
        isWordChar d = false := by
    intro hc
    have copied := @run_head q (q.advance s (nextToken c cs).1) (nextToken c cs).2
      fun _ _ _ => not_rewrites_of_after (afterFrom_name h.quote h.name h.opens)
    rw [copied]
    exact nextToken_stops hc
  obtain ⟨hstack₁, hprev₁, hin₁⟩ := advance_name q s h.quote h.name
  obtain ⟨hstack₂, hprev₂, -⟩ := advance_name q s' h.quote h.name
  have below : Below (q.advance s' (nextToken c cs).1) (q.advance s (nextToken c cs).1) :=
    ⟨hprev₂.trans hprev₁.symm, fun _ => (hin₁ h.opens h.closes).trans h.inFrom,
      by rw [hstack₁, hstack₂]; exact hstack⟩
  have behind : s'.afterFrom = false := by
    rw [State.afterFrom, hdot]
    rfl
  rw [tokens_inserted inserted stops, Qualifier.run, not_rewrites_of_after behind, ih _ below]
  rfl

/-! ## The second pass -/

theorem isWord_append {w w' : Str} (h : isWord w = true) (h' : isWord w' = true) :
    isWord (w ++ w') = true := by
  cases w with
  | nil => cases h
  | cons c cs =>
    cases w' with
    | nil => cases h'
    | cons d ds =>
      simp only [isWord, Bool.and_eq_true, List.cons_append, List.all_append, List.all_cons] at h h' ⊢
      exact ⟨h.1, h.2, by simp [isWordChar, h'.1], h'.2⟩

theorem isWord_nextToken {c : Char} {cs : Str} (hc : isWordStart c = true) :
    isWord (nextToken c cs).1 = true := by
  have quote : c ≠ '\'' := ne_of_test hc rfl
  have here : (nextToken c cs).1 = c :: cs.takeWhile isWordChar := by simp [nextToken, quote, hc]
  rw [here, isWord, Bool.and_eq_true]
  exact ⟨hc, List.all_eq_true.mpr fun d hd => List.mem_takeWhile_imp hd⟩

theorem quote_not_mem_word {w : Str} (h : isWord w = true) : '\'' ∉ w := by
  cases w with
  | nil => cases h
  | cons c cs =>
    obtain ⟨hc, hcs⟩ := (Bool.and_eq_true _ _).mp h
    intro hmem
    rcases List.mem_cons.mp hmem with rfl | hmem
    · cases hc
    · have hword := List.all_eq_true.mp hcs _ hmem
      cases hword

/-- The prefix and what follows it, as the tokenizer meets them. -/
theorem namePrefix_append (q : Qualifier) (w y : Str) :
    w ++ (q.namePrefix ++ y) = (w ++ q.zone) ++ '.' :: (q.schema ++ '.' :: y) := by
  simp [Qualifier.namePrefix]

/-- A token the first pass copied, found again by itself. -/
theorem run_copied {q : Qualifier} (unquoted : '\'' ∉ q.namePrefix) {s s' : State} {c : Char}
    {cs : Str} (hbelow : Below s' s)
    (h : q.rewrites s (nextToken c cs).1 (tokens (nextToken c cs).2).head? = false)
    (hnext : isWordStart c = true → ∀ d ds, (nextToken c cs).2 = d :: ds →
      q.rewrites (q.advance s (nextToken c cs).1) (nextToken d ds).1
        (tokens (nextToken d ds).2).head? = false)
    (ih : ∀ s', Below s' (q.advance s (nextToken c cs).1) →
      q.run s' (tokens (q.run (q.advance s (nextToken c cs).1) (tokens (nextToken c cs).2))) =
        q.run (q.advance s (nextToken c cs).1) (tokens (nextToken c cs).2)) :
    q.run s' (tokens ((nextToken c cs).1 ++
        q.run (q.advance s (nextToken c cs).1) (tokens (nextToken c cs).2))) =
      (nextToken c cs).1 ++
        q.run (q.advance s (nextToken c cs).1) (tokens (nextToken c cs).2) := by
  have inserted := inserted_run unquoted (q.advance s (nextToken c cs).1)
    (tokens (nextToken c cs).2)
  rw [tokens_flatten] at inserted
  have stops : isWordStart c = true →
      ∀ d ∈ (q.run (q.advance s (nextToken c cs).1) (tokens (nextToken c cs).2)).head?,
        isWordChar d = false := by
    intro hc
    rw [run_head (hnext hc)]
    exact nextToken_stops hc
  -- a dot behind the token is still there
  have dotted : (tokens (nextToken c cs).2).head? = some ['.'] →
      (tokens (q.run (q.advance s (nextToken c cs).1) (tokens (nextToken c cs).2))).head? =
        some ['.'] := by
    intro hdot
    cases hrest : (nextToken c cs).2 with
    | nil => rw [hrest] at hdot; cases hdot
    | cons d ds =>
      rw [hrest, tokens_cons, List.head?_cons] at hdot
      have token : (nextToken d ds).1 = ['.'] := Option.some.inj hdot
      have copied : ∀ next, q.rewrites (q.advance s (nextToken c cs).1) ['.'] next = false := by
        intro next
        simp [Qualifier.rewrites, isName_dot]
      rw [tokens_cons, Qualifier.run, token, copied, if_neg (by simp), List.singleton_append,
        tokens_cons, nextToken_char (by simp) rfl]
      rfl
  have again : q.rewrites s' (nextToken c cs).1
      (tokens (q.run (q.advance s (nextToken c cs).1) (tokens (nextToken c cs).2))).head? =
        false := by
    rw [← Bool.not_eq_true, rewrites_iff]
    intro hr
    have after : s.afterFrom = true := by
      have hafter := hr.after
      rwa [State.afterFrom, hbelow.prevSig, ← State.afterFrom] at hafter
    have first := rewrites_iff.mpr ⟨hr.quote, hr.name, hr.opens, hr.closes, hbelow.inFrom hr.inFrom,
      hr.table, after, fun hdot => hr.next (dotted hdot)⟩
    rw [h] at first
    cases first
  rw [tokens_inserted inserted stops, Qualifier.run, again, ih _ (hbelow.advance _)]
  rfl

/-- A keyword and the prefix right behind it: one word for the second pass. -/
theorem run_merged {q : Qualifier} (unquoted : '\'' ∉ q.namePrefix) (hzone : isWord q.zone = true)
    (hschema : isWord q.schema = true) {s s' : State} {t : Str} (hbelow : Below s' s)
    (ht : isWord t = true) {d : Char} {ds : Str}
    (h : q.rewrites (q.advance s t) (nextToken d ds).1 (tokens (nextToken d ds).2).head? = true)
    (ih : ∀ s', Below s' (q.advance (q.advance s t) (nextToken d ds).1) →
      q.run s' (tokens (q.run (q.advance (q.advance s t) (nextToken d ds).1)
        (tokens (nextToken d ds).2))) =
        q.run (q.advance (q.advance s t) (nextToken d ds).1) (tokens (nextToken d ds).2)) :
    q.run s' (tokens (t ++ q.run (q.advance s t) (tokens (d :: ds)))) =
      t ++ q.run (q.advance s t) (tokens (d :: ds)) := by
  obtain ⟨hname, hquote, -⟩ := isName_word q ht
  have kept : (q.advance s t).stack = s.stack := (advance_name q s hquote hname).1
  rw [tokens_cons, Qualifier.run, if_pos h, List.append_assoc, namePrefix_append]
  obtain ⟨s₁, hrun, hstack, hdot⟩ := run_prefix hschema s' (isWord_append ht hzone)
    ((nextToken d ds).1 ++
      q.run (q.advance (q.advance s t) (nextToken d ds).1) (tokens (nextToken d ds).2))
  have below : List.Forall₂ (fun b' b : Bool => b' = true → b = true) s₁.stack
      (q.advance s t).stack := by
    rw [hstack, kept]
    exact hbelow.stack
  rw [hrun, run_behind_prefix unquoted (rewrites_iff.mp h) below hdot ih]

/-- **A second pass copies the output of the first one**, in every state below
the first one's. -/
theorem run_again {q : Qualifier} (hzone : isWord q.zone = true) (hschema : isWord q.schema = true)
    (x : Str) (s s' : State) (hbelow : Below s' s) :
    q.run s' (tokens (q.run s (tokens x))) = q.run s (tokens x) := by
  have unquoted : '\'' ∉ q.namePrefix := by
    simp [Qualifier.namePrefix, quote_not_mem_word hzone, quote_not_mem_word hschema]
  induction hn : x.length using Nat.strong_induction_on generalizing x s s' with
  | _ n ih =>
    cases x with
    | nil => rfl
    | cons c cs =>
      have shorter := nextToken_shorter c cs
      have hlt : (nextToken c cs).2.length < n := by simp at hn; omega
      have rest : ∀ s₁ s₁', Below s₁' s₁ → q.run s₁' (tokens (q.run s₁ (tokens (nextToken c cs).2))) =
          q.run s₁ (tokens (nextToken c cs).2) := fun s₁ s₁' h => ih _ hlt _ s₁ s₁' h rfl
      rw [tokens_cons, Qualifier.run]
      cases hr : q.rewrites s (nextToken c cs).1 (tokens (nextToken c cs).2).head? with
      | true =>
        -- the prefix is read again as tokens of its own
        obtain ⟨s₁, hrun, hstack, hdot⟩ := run_prefix hschema s' hzone ((nextToken c cs).1 ++
          q.run (q.advance s (nextToken c cs).1) (tokens (nextToken c cs).2))
        have behind := run_behind_prefix unquoted (rewrites_iff.mp hr) (hstack ▸ hbelow.stack) hdot
          (rest _)
        have spell := namePrefix_append q [] ((nextToken c cs).1 ++
          q.run (q.advance s (nextToken c cs).1) (tokens (nextToken c cs).2))
        simp only [List.nil_append] at spell
        rw [if_pos rfl, List.append_assoc, spell, hrun, behind]
      | false =>
        rw [if_neg (by simp)]
        by_cases hmerged : isWordStart c = true ∧ ∃ d ds, (nextToken c cs).2 = d :: ds ∧
            q.rewrites (q.advance s (nextToken c cs).1) (nextToken d ds).1
              (tokens (nextToken d ds).2).head? = true
        · obtain ⟨hc, d, ds, hrest, hnext⟩ := hmerged
          have hlt₂ : (nextToken d ds).2.length < n := by
            have shorter₂ := nextToken_shorter d ds
            have hlen := congrArg List.length hrest
            simp at hlen
            omega
          rw [hrest]
          exact run_merged unquoted hzone hschema hbelow (isWord_nextToken hc) hnext
            fun s₁' h₁ => ih _ hlt₂ _ _ s₁' h₁ rfl
        · refine run_copied unquoted hbelow hr (fun hc d ds hrest => ?_) (rest _)
          rw [← Bool.not_eq_true]
          exact fun hnext => hmerged ⟨hc, d, ds, hrest, hnext⟩

/-! ## The whole call -/

/-- **Qualification loses nothing, and once is enough.** For every text, the
tokens are the text; the output is the text with the prefix in front of some
tokens, none of which starts with a quote; and the output is its own output. -/
theorem dfQualify_lossless (q : Qualifier) (hzone : isWord q.zone = true)
    (hschema : isWord q.schema = true) (sql : Str) :
    (tokens sql).flatten = sql ∧
    (∃ marked : List (Str × Bool), marked.map Prod.fst = tokens sql ∧
      dfQualify q sql = spelled q marked ∧
      ∀ m ∈ marked, m.1.head? = some '\'' → m.2 = false) ∧
    dfQualify q (dfQualify q sql) = dfQualify q sql := by
  refine ⟨tokens_flatten sql, ⟨marks q {} (tokens sql), marks_tokens q {} _, ?_, ?_⟩, ?_⟩
  · exact (spelled_marks q {} _).symm
  · exact marks_quoted q {} _
  · exact run_again hzone hschema sql {} {} (.refl {})

/-- The table is qualified once, the literal never. -/
theorem dfQualify_lossless_item :
    (tokens "from item 'item'".toList).flatten = "from item 'item'".toList ∧
    (∃ marked : List (Str × Bool), marked.map Prod.fst = tokens "from item 'item'".toList ∧
      dfQualify itemTables "from item 'item'".toList = spelled itemTables marked ∧
      ∀ m ∈ marked, m.1.head? = some '\'' → m.2 = false) ∧
    dfQualify itemTables (dfQualify itemTables "from item 'item'".toList) =
      dfQualify itemTables "from item 'item'".toList :=
  dfQualify_lossless itemTables rfl rfl "from item 'item'".toList

end DeltaForgeBench.Workloads.Lossless
