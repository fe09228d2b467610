import DeltaForgeBench.Workloads.Positions

/-! # The clause a place is in

Read on the text alone: a place is inside a FROM clause when the last clause
keyword in front of it, outside the parentheses that have been closed since, is
`FROM` or `JOIN`. The rewriter's flag, its stack and its last token come to that. -/
namespace DeltaForgeBench.Workloads.Clauses
open DeltaForgeBench.Base.Text DeltaForgeBench.Workloads.DfCatalog
open DeltaForgeBench.Workloads.SqlGrammar DeltaForgeBench.Workloads.Layouts
open DeltaForgeBench.Workloads.Qualify
open DeltaForgeBench.Workloads.Lossless DeltaForgeBench.Workloads.Positions

def isClauseWord (t : Str) : Bool := fromOn.contains (lower t) || clauseOff.contains (lower t)

/-- How many parentheses tokens leave open, the last token first. -/
def depth : List Str → Nat
  | [] => 0
  | t :: ts => if t = ['('] then depth ts + 1 else if t = [')'] then depth ts - 1 else depth ts

/-- The clause keyword that stands last in front, `closed` parentheses further
out; the last token comes first. A parenthesis nothing opened closes nothing. -/
def clauseWord : List Str → Nat → Option Str
  | [], _ => none
  | t :: ts, closed =>
    if t = ['('] then clauseWord ts (closed - 1)
    else if t = [')'] then clauseWord ts (if depth ts = 0 then closed else closed + 1)
    else if isClauseWord t && closed = 0 then some t
    else clauseWord ts closed

/-- A clause of `FROM` or `JOIN`. -/
def opensFrom (word : Option Str) : Bool := word.any fun k => fromOn.contains (lower k)

/-- The place behind these tokens is inside a FROM clause. -/
def inFromClause (front : List Str) : Bool := opensFrom (clauseWord front.reverse 0)

/-- The last token that is not white space. -/
def lastSeen (front : List Str) : Str := ((front.filter fun t => strip t ≠ []).getLast?).getD []

/-- The place is right behind `FROM`, `JOIN` or a comma. -/
def behindFrom (front : List Str) : Bool :=
  ["from".toList, "join".toList, [',']].contains (lower (lastSeen front))

/-- The name of a benchmark table. -/
def isTable (q : Qualifier) (t : Str) : Bool :=
  t.head? ≠ some '\'' && q.isName t && !isClauseWord t && q.tables.contains t

/-- A table reference: the bare name of a benchmark table in a FROM clause, right
behind `FROM`, `JOIN` or a comma. -/
structure Reference (q : Qualifier) (front : List Str) (t : Str) (next : Option Str) : Prop where
  table : isTable q t = true
  clause : inFromClause front = true
  behind : behindFrom front = true
  undotted : next ≠ some ['.']

/-! ## The rewriter's state -/

theorem wordStart_of_lower {c : Char} (h : isWordStart c.toLower = true) : isWordStart c = true := by
  cases hc : isWordStart c with
  | true => rfl
  | false =>
    rw [toLower_other hc, hc] at h
    cases h

theorem head_clauseWord {t : Str} (h : isClauseWord t = true) :
    ∃ c cs, t = c :: cs ∧ isWordStart c = true := by
  have heads : ∀ k ∈ fromOn ++ clauseOff, k.head?.any isWordStart = true := by decide
  have mem : lower t ∈ fromOn ++ clauseOff := by
    simpa [isClauseWord, List.contains_iff_mem] using h
  have head := heads _ mem
  cases t with
  | nil => cases head
  | cons c cs => exact ⟨c, cs, rfl, wordStart_of_lower head⟩

/-- A clause keyword is a name, and so is not quoted. -/
theorem isName_clauseWord (q : Qualifier) {t : Str} (h : isClauseWord t = true) :
    q.isName t = true ∧ t.head? ≠ some '\'' := by
  obtain ⟨c, cs, rfl, hc⟩ := head_clauseWord h
  refine ⟨by simp [Qualifier.isName, hc], fun e => ?_⟩
  obtain rfl := Option.some.inj e
  cases hc

/-- Nor is it a parenthesis. -/
theorem not_paren_clauseWord {t : Str} (h : isClauseWord t = true) : t ≠ ['('] ∧ t ≠ [')'] := by
  obtain ⟨c, cs, rfl, hc⟩ := head_clauseWord h
  constructor
  · rintro ⟨⟩
    cases hc
  · rintro ⟨⟩
    cases hc

theorem after_cons (q : Qualifier) (t : Str) (ts : List Str) :
    Qualifier.after q {} (t :: ts).reverse = q.advance (Qualifier.after q {} ts.reverse) t := by
  rw [List.reverse_cons, Qualifier.after, List.foldl_append]
  rfl

/-- A token that is no parenthesis sets the flag where it is a clause keyword. -/
theorem advance_plain (q : Qualifier) (s : State) {t : Str} (hopening : t ≠ ['('])
    (hclosing : t ≠ [')']) : (q.advance s t).stack = s.stack ∧
      (q.advance s t).inFrom = if isClauseWord t then fromOn.contains (lower t) else s.inFrom := by
  cases hword : isClauseWord t with
  | true =>
    obtain ⟨hname, hquote⟩ := isName_clauseWord q hword
    unfold Qualifier.advance
    rw [if_neg hquote, if_neg hopening, if_neg hclosing, if_pos hname]
    cases hon : fromOn.contains (lower t) with
    | true => exact ⟨rfl, rfl⟩
    | false =>
      have hoff : clauseOff.contains (lower t) = true := by
        simpa only [isClauseWord, hon, Bool.false_or] using hword
      rw [hoff]
      exact ⟨rfl, rfl⟩
  | false =>
    obtain ⟨hon, hoff⟩ := Bool.or_eq_false_iff.mp hword
    unfold Qualifier.advance
    rw [if_neg hopening, if_neg hclosing, hon, hoff]
    split
    · exact ⟨rfl, rfl⟩
    · split
      · exact ⟨rfl, rfl⟩
      · split
        · exact ⟨rfl, rfl⟩
        · exact ⟨rfl, rfl⟩

/-- A parenthesis that nothing opened closes nothing. -/
theorem advance_close_nil (q : Qualifier) {s : State} (h : s.stack = []) :
    q.advance s [')'] = { s with prevSig := [')'] } := by
  obtain ⟨inFrom, stack, prevSig⟩ := s
  obtain rfl : stack = [] := h
  rfl

theorem advance_close_cons (q : Qualifier) {s : State} {top : Bool} {stack : List Bool}
    (h : s.stack = top :: stack) :
    q.advance s [')'] = { inFrom := top, stack := stack, prevSig := [')'] } := by
  obtain ⟨inFrom, opened, prevSig⟩ := s
  obtain rfl : opened = top :: stack := h
  rfl

/-- The flag is that of the clause the place is in, and the stack has those of the
clauses around it. -/
theorem flags_after (q : Qualifier) (ts : List Str) :
    (Qualifier.after q {} ts.reverse).inFrom = opensFrom (clauseWord ts 0) ∧
      (Qualifier.after q {} ts.reverse).stack =
        (List.range (depth ts)).map fun d => opensFrom (clauseWord ts (d + 1)) := by
  induction ts with
  | nil => exact ⟨rfl, rfl⟩
  | cons t ts ih =>
    obtain ⟨hflag, hstack⟩ := ih
    rw [after_cons]
    by_cases hopening : t = ['(']
    · subst hopening
      refine ⟨hflag, ?_⟩
      show (_ :: _ : List Bool) = List.map _ (List.range (depth ts + 1))
      rw [List.range_succ_eq_map, List.map_cons, List.map_map, hflag, hstack]
      rfl
    by_cases hclosing : t = [')']
    · subst hclosing
      cases hdepth : depth ts with
      | zero =>
        have empty : (Qualifier.after q {} ts.reverse).stack = [] := by
          simpa [hdepth] using hstack
        rw [advance_close_nil q empty]
        refine ⟨?_, ?_⟩
        · simpa [clauseWord, hdepth] using hflag
        · simpa [depth, hdepth] using empty
      | succ n =>
        rw [hdepth, List.range_succ_eq_map, List.map_cons, List.map_map] at hstack
        rw [advance_close_cons q hstack]
        refine ⟨by simp [clauseWord, hdepth], ?_⟩
        simp [depth, hdepth, clauseWord, Function.comp_def]
    · obtain ⟨hsame, hin⟩ := advance_plain q (Qualifier.after q {} ts.reverse) hopening hclosing
      rw [hsame, hin, hstack, hflag]
      simp only [clauseWord, depth, if_neg hopening, if_neg hclosing]
      refine ⟨?_, by simp⟩
      cases isClauseWord t with
      | true => simp [opensFrom]
      | false => simp

theorem inFrom_after (q : Qualifier) (front : List Str) :
    (Qualifier.after q {} front).inFrom = inFromClause front := by
  have flags := (flags_after q front.reverse).1
  rwa [List.reverse_reverse] at flags

theorem advance_prevSig (q : Qualifier) (s : State) (t : Str) :
    (q.advance s t).prevSig = if strip t = [] then s.prevSig else t := by
  have seen : ∀ {c : Char} {cs : Str}, isSpace c = false → strip (c :: cs) ≠ [] := fun hc =>
    List.ne_nil_of_mem (mem_strip_of_not_space List.mem_cons_self hc)
  unfold Qualifier.advance
  split
  · rename_i hquote
    cases t with
    | nil => cases hquote
    | cons c cs =>
      obtain rfl := Option.some.inj hquote
      rw [if_neg (seen rfl)]
  · split
    · rename_i hopening
      rw [hopening, if_neg (seen rfl)]
    · split
      · rename_i hclosing
        rw [hclosing, if_neg (seen rfl)]
        split <;> rfl
      · split
        · rename_i hname
          cases t with
          | nil => cases hname
          | cons c cs =>
            have hc : isSpace c = false := by
              by_contra hspace
              have blank := isName_blank q (c := c) (by simpa using hspace)
              have same : q.isName (c :: cs) = q.isName [c] := rfl
              rw [same, blank] at hname
              cases hname
            rw [if_neg (seen hc)]
            split
            · rfl
            · split <;> rfl
        · split <;> rfl

theorem lastSeen_snoc (front : List Str) (t : Str) :
    lastSeen (front ++ [t]) = if strip t = [] then lastSeen front else t := by
  simp only [lastSeen, List.filter_append]
  by_cases ht : strip t = []
  · simp [ht]
  · simp [ht]

theorem prevSig_after (q : Qualifier) (front : List Str) :
    (Qualifier.after q {} front).prevSig = lastSeen front := by
  induction front using List.reverseRecOn with
  | nil => rfl
  | append_singleton front t ih =>
    rw [Qualifier.after, List.foldl_append, lastSeen_snoc, ← ih]
    exact advance_prevSig q _ t

/-- **What the rewriter prefixes are the table references.** -/
theorem rewrites_reference_iff (q : Qualifier) (front : List Str) (t : Str) (next : Option Str) :
    q.rewrites (Qualifier.after q {} front) t next = true ↔ Reference q front t next := by
  have behind : (Qualifier.after q {} front).afterFrom = behindFrom front := by
    rw [State.afterFrom, prevSig_after, behindFrom]
  rw [rewrites_iff]
  constructor
  · intro h
    refine ⟨?_, inFrom_after q front ▸ h.inFrom, behind ▸ h.after, h.next⟩
    simp [isTable, isClauseWord, h.quote, h.name, h.opens, h.closes, h.table, -List.contains_eq_mem]
  · intro h
    have table := h.table
    simp only [isTable, isClauseWord, Bool.and_eq_true, decide_eq_true_eq, Bool.not_eq_true',
      Bool.or_eq_false_iff] at table
    obtain ⟨⟨⟨hquote, hname⟩, hopens, hcloses⟩, htable⟩ := table
    exact ⟨hquote, hname, hopens, hcloses, (inFrom_after q front).trans h.clause, htable,
      behind.trans h.behind, h.undotted⟩

/-! ## Behind more tokens -/

theorem not_blank_clauseWord {t : Str} (h : isClauseWord t = true) : strip t ≠ [] := by
  obtain ⟨c, cs, rfl, hc⟩ := head_clauseWord h
  have seen : isSpace c = false := by
    by_contra hspace
    have blank := isWordChar_false (isSpace_not_word (c := c) (by simpa using hspace))
    rw [hc] at blank
    cases blank
  exact List.ne_nil_of_mem (mem_strip_of_not_space List.mem_cons_self seen)

/-- White space changes no clause. -/
theorem clauseWord_blank {t : Str} (h : strip t = []) (ts : List Str) (closed : Nat) :
    clauseWord (t :: ts) closed = clauseWord ts closed := by
  have opening : t ≠ ['('] := by
    rintro rfl
    cases h
  have closing : t ≠ [')'] := by
    rintro rfl
    cases h
  have word : isClauseWord t = false := by
    by_contra hword
    exact not_blank_clauseWord (by simpa using hword) h
  simp [clauseWord, opening, closing, word]

theorem inFromClause_snoc_blank {t : Str} (h : strip t = []) (front : List Str) :
    inFromClause (front ++ [t]) = inFromClause front := by
  rw [inFromClause, inFromClause, List.reverse_append, List.reverse_singleton,
    List.singleton_append, clauseWord_blank h]

theorem inFromClause_blank (front : List Str) {us : List Str} (h : ∀ u ∈ us, strip u = []) :
    inFromClause (front ++ us) = inFromClause front := by
  induction us using List.reverseRecOn with
  | nil => rw [List.append_nil]
  | append_singleton us t ih =>
    obtain ⟨hus, ht⟩ := List.forall_mem_append.mp h
    rw [← List.append_assoc, inFromClause_snoc_blank (ht t List.mem_cons_self), ih hus]

theorem lastSeen_append (front us : List Str) : lastSeen (front ++ us) =
    if ∀ u ∈ us, strip u = [] then lastSeen front else lastSeen us := by
  induction us using List.reverseRecOn with
  | nil => simp
  | append_singleton us t ih =>
    have all : (∀ u ∈ us ++ [t], strip u = []) ↔ (∀ u ∈ us, strip u = []) ∧ strip t = [] := by
      rw [List.forall_mem_append, List.forall_mem_singleton]
    rw [← List.append_assoc, lastSeen_snoc, lastSeen_snoc, ih]
    simp only [all]
    by_cases ht : strip t = []
    · simp [ht]
    · simp [ht]

theorem behindFrom_append (front us : List Str) : behindFrom (front ++ us) =
    if ∀ u ∈ us, strip u = [] then behindFrom front else behindFrom us := by
  rw [behindFrom, lastSeen_append]
  split <;> rfl

/-- Right behind `FROM` or `JOIN` a place is in its clause. -/
theorem inFromClause_of_lastSeen (front : List Str) {us : List Str}
    (h : fromOn.contains (lower (lastSeen us)) = true) : inFromClause (front ++ us) = true := by
  induction us using List.reverseRecOn with
  | nil => exact absurd h (by decide)
  | append_singleton us t ih =>
    rw [lastSeen_snoc] at h
    rw [← List.append_assoc]
    by_cases ht : strip t = []
    · rw [if_pos ht] at h
      rw [inFromClause_snoc_blank ht, ih h]
    · rw [if_neg ht] at h
      have word : isClauseWord t = true := by rw [isClauseWord, h, Bool.true_or]
      obtain ⟨hopening, hclosing⟩ := not_paren_clauseWord word
      rw [inFromClause, List.reverse_append, List.reverse_singleton, List.singleton_append,
        clauseWord, if_neg hopening, if_neg hclosing, word]
      simpa [opensFrom] using h

/-- Behind `FROM`, behind `JOIN`, or behind a comma. -/
theorem behindFrom_iff {us : List Str} : behindFrom us = true ↔
    fromOn.contains (lower (lastSeen us)) = true ∨ lastSeen us = [','] := by
  have comma : lower (lastSeen us) = [','] ↔ lastSeen us = [','] := by
    constructor
    · intro e
      obtain ⟨c, hc, hlower⟩ := List.map_eq_singleton_iff.mp e
      rw [hc, toLower_comma hlower]
    · intro e
      rw [e]
      rfl
  rw [← comma]
  simp [behindFrom, fromOn, or_assoc]

/-- **Two places have the same table references behind them** when they treat alike
the name that comes first and those behind commas. -/
theorem forall_reference_iff (q : Qualifier) (front front' rest : List Str) :
    (∀ us t vs, rest = us ++ t :: vs →
      (Reference q (front ++ us) t vs.head? ↔ Reference q (front' ++ us) t vs.head?)) ↔
    (∀ us t vs, rest = us ++ t :: vs → (∀ u ∈ us, strip u = []) → isTable q t = true →
      vs.head? ≠ some ['.'] → ((inFromClause front = true ∧ behindFrom front = true) ↔
        (inFromClause front' = true ∧ behindFrom front' = true))) ∧
    (∀ us t vs, rest = us ++ t :: vs → lastSeen us = [','] → isTable q t = true →
      vs.head? ≠ some ['.'] → (inFromClause (front ++ us) = true ↔
        inFromClause (front' ++ us) = true)) := by
  have first : ∀ (front : List Str) {us : List Str} {t : Str} {next : Option Str},
      (∀ u ∈ us, strip u = []) → isTable q t = true → next ≠ some ['.'] →
      (Reference q (front ++ us) t next ↔ inFromClause front = true ∧ behindFrom front = true) := by
    intro front us t next hblank htable hnext
    have clause := inFromClause_blank front hblank
    have behind : behindFrom (front ++ us) = behindFrom front := by
      rw [behindFrom_append, if_pos hblank]
    exact ⟨fun h => ⟨clause ▸ h.clause, behind ▸ h.behind⟩,
      fun h => ⟨htable, clause.trans h.1, behind.trans h.2, hnext⟩⟩
  have later : ∀ (front : List Str) {us : List Str}, (¬ ∀ u ∈ us, strip u = []) →
      behindFrom (front ++ us) = behindFrom us := by
    intro front us hseen
    rw [behindFrom_append, if_neg hseen]
  have comma : ∀ {us : List Str}, lastSeen us = [','] → ¬ ∀ u ∈ us, strip u = [] := by
    intro us hlast hblank
    have none : us.filter (fun u => strip u ≠ []) = [] := by
      rw [List.filter_eq_nil_iff]
      exact fun u hu => by simp [hblank u hu]
    rw [lastSeen, none] at hlast
    cases hlast
  have listed : ∀ (front : List Str) {us : List Str} {t : Str} {next : Option Str},
      lastSeen us = [','] → isTable q t = true → next ≠ some ['.'] →
      (Reference q (front ++ us) t next ↔ inFromClause (front ++ us) = true) := by
    intro front us t next hlast htable hnext
    have behind := (later front (comma hlast)).trans (behindFrom_iff.mpr (.inr hlast))
    exact ⟨fun h => h.clause, fun h => ⟨htable, h, behind, hnext⟩⟩
  constructor
  · intro h
    refine ⟨fun us t vs hsplit hblank htable hnext => ?_, fun us t vs hsplit hlast htable hnext => ?_⟩
    · rw [← first front hblank htable hnext, ← first front' hblank htable hnext]
      exact h us t vs hsplit
    · rw [← listed front hlast htable hnext, ← listed front' hlast htable hnext]
      exact h us t vs hsplit
  · rintro ⟨hfirst, hlisted⟩ us t vs hsplit
    by_cases htable : isTable q t = true ∧ vs.head? ≠ some ['.']
    · by_cases hblank : ∀ u ∈ us, strip u = []
      · rw [first front hblank htable.1 htable.2, first front' hblank htable.1 htable.2]
        exact hfirst us t vs hsplit hblank htable.1 htable.2
      · by_cases hbehind : behindFrom us = true
        · rcases behindFrom_iff.mp hbehind with hon | hlast
          · -- the clause is opened behind both places
            have reference : ∀ front, Reference q (front ++ us) t vs.head? := fun front =>
              ⟨htable.1, inFromClause_of_lastSeen front hon, (later front hblank).trans hbehind,
                htable.2⟩
            exact iff_of_true (reference front) (reference front')
          · rw [listed front hlast htable.1 htable.2, listed front' hlast htable.1 htable.2]
            exact hlisted us t vs hsplit hlast htable.1 htable.2
        · have never : ∀ front, ¬ Reference q (front ++ us) t vs.head? := fun front h =>
            hbehind ((later front hblank).symm.trans h.behind)
          exact iff_of_false (never front) (never front')
    · have never : ∀ front, ¬ Reference q (front ++ us) t vs.head? := fun front h =>
        htable ⟨h.table, h.undotted⟩
      exact iff_of_false (never front) (never front')

/-! ## Calm tokens -/

/-- A token that is no parenthesis, no comma and no clause keyword. -/
def calm (t : Str) : Bool := t ≠ ['('] && t ≠ [')'] && t ≠ [','] && !isClauseWord t

theorem calm_iff {t : Str} : calm t = true ↔
    t ≠ ['('] ∧ t ≠ [')'] ∧ t ≠ [','] ∧ isClauseWord t = false := by
  simp [calm, and_assoc]

theorem depth_calm {xs : List Str} (h : ∀ t ∈ xs, calm t = true) (ts us : List Str) :
    depth (us ++ (xs ++ ts)) = depth (us ++ ts) := by
  induction us with
  | nil =>
    induction xs with
    | nil => rfl
    | cons t xs ih =>
      obtain ⟨hopening, hclosing, -, -⟩ := calm_iff.mp (h t List.mem_cons_self)
      have rest := ih fun u hu => h u (List.mem_cons_of_mem _ hu)
      simpa only [List.nil_append, List.cons_append, depth, if_neg hopening, if_neg hclosing] using rest
  | cons u us ih => simp only [List.cons_append, depth, ih]

/-- Calm tokens change no clause, wherever they stand. -/
theorem clauseWord_calm {xs : List Str} (h : ∀ t ∈ xs, calm t = true) (ts us : List Str)
    (closed : Nat) : clauseWord (us ++ (xs ++ ts)) closed = clauseWord (us ++ ts) closed := by
  induction us generalizing closed with
  | nil =>
    induction xs with
    | nil => rfl
    | cons t xs ih =>
      obtain ⟨hopening, hclosing, -, hword⟩ := calm_iff.mp (h t List.mem_cons_self)
      have rest := ih fun u hu => h u (List.mem_cons_of_mem _ hu)
      simpa only [List.nil_append, List.cons_append, clauseWord, if_neg hopening, if_neg hclosing,
        hword, Bool.false_and, Bool.false_eq_true, if_false] using rest
  | cons u us ih => simp only [List.cons_append, clauseWord, ih, depth_calm h]

theorem inFromClause_calm {xs : List Str} (h : ∀ t ∈ xs, calm t = true) (front us : List Str) :
    inFromClause (front ++ xs ++ us) = inFromClause (front ++ us) := by
  have reversed : ∀ t ∈ xs.reverse, calm t = true := fun t ht => h t (List.mem_reverse.mp ht)
  rw [inFromClause, inFromClause, List.reverse_append, List.reverse_append, List.reverse_append,
    clauseWord_calm reversed]

/-- Behind a calm token that is not white space no reference begins. -/
theorem not_behindFrom_calm {xs : List Str} (h : ∀ t ∈ xs, calm t = true)
    (hseen : ∃ t ∈ xs, strip t ≠ []) (front : List Str) : behindFrom (front ++ xs) = false := by
  have seen : ¬ ∀ t ∈ xs, strip t = [] := fun hblank =>
    let ⟨t, ht, hvisible⟩ := hseen
    hvisible (hblank t ht)
  have last : lastSeen xs ∈ xs := by
    obtain ⟨t, ht, hvisible⟩ := hseen
    have hmem : t ∈ xs.filter fun t => strip t ≠ [] :=
      List.mem_filter.mpr ⟨ht, decide_eq_true hvisible⟩
    cases hlast : (xs.filter fun t => strip t ≠ []).getLast? with
    | none =>
      rw [List.getLast?_eq_none_iff.mp hlast] at hmem
      cases hmem
    | some u =>
      rw [lastSeen, hlast]
      exact (List.mem_filter.mp (List.mem_of_getLast? hlast)).1
  obtain ⟨-, -, hcomma, hword⟩ := calm_iff.mp (h _ last)
  obtain ⟨hon, -⟩ := Bool.or_eq_false_iff.mp hword
  rw [behindFrom_append, if_neg seen, Bool.eq_false_iff, ne_eq, behindFrom_iff]
  rintro (hbehind | hbehind)
  · rw [hon] at hbehind
    cases hbehind
  · exact hcomma hbehind

end DeltaForgeBench.Workloads.Clauses
