import DeltaForgeBench.Base.Text
import Mathlib.Data.List.TakeWhile

/-! # Splitting a script into statements

Both CLI adapters cut a script at the matches of a pattern that starts with a
semicolon, trim the pieces and drop those that are comments only. They differ in
what has to follow the semicolon. -/
namespace DeltaForgeBench.Engines.SplitStatements
open DeltaForgeBench.Base.Text

/-! ## The source -/

/-- How much of the text behind a semicolon the pattern takes, where it matches. -/
abbrev SemiRe := Str → Option Nat

/-- `;\s*(?:\n|$)`: the white space runs to the end of the text, or it is given
back up to its last line feed. -/
def dfSemiRe : SemiRe := fun cs =>
  let blanks := cs.takeWhile isSpace
  if blanks.length = cs.length then some cs.length
  else
    let upTo := (blanks.reverse.dropWhile (· ≠ '\n')).length
    if upTo = 0 then none else some upTo

/-- `;`. -/
def sparkSemiRe : SemiRe := fun _ => some 0

/-- `[(m.start(), m.end()) for m in _SEMI_RE.finditer(text)]` over the text from
a position on, `skip` characters of which an earlier match has taken. -/
def finditer (re : SemiRe) : Nat → Nat → Str → List (Nat × Nat)
  | _, _, [] => []
  | pos, skip + 1, _ :: cs => finditer re (pos + 1) skip cs
  | pos, 0, c :: cs =>
    if c = ';' then
      match re cs with
      | some k => (pos, pos + 1 + k) :: finditer re (pos + 1) k cs
      | none => finditer re (pos + 1) 0 cs
    else finditer re (pos + 1) 0 cs

/-- `text[last:m.start()]` for every match, and `text[last:]`. -/
def chunks (text : Str) : Nat → List (Nat × Nat) → List Str
  | last, [] => [text.drop last]
  | last, (start, stop) :: found => (text.take start).drop last :: chunks text stop found

/-- A line that is neither blank nor a `--` comment. -/
def isCode (line : Str) : Bool := strip line ≠ [] && !("--".toList.isPrefixOf (strip line))

def nonComment (chunk : Str) : Str := join ['\n'] ((splitlines chunk).filter isCode)

/-- The chunks that are appended to the result. -/
def keeps (chunk : Str) : Bool := chunk ≠ [] && strip (nonComment chunk) ≠ []

def splitSqlStatements (re : SemiRe) (text : Str) : List Str :=
  ((chunks text 0 (finditer re 0 0 text)).map strip).filter keeps

/-- `df_engine._split_sql_statements`. -/
def dfSplitSqlStatements (text : Str) : List Str := splitSqlStatements dfSemiRe text

/-- `spark_default_engine._split_sql_statements`. -/
def sparkSplitSqlStatements (text : Str) : List Str := splitSqlStatements sparkSemiRe text

/-- The positions of the semicolons a splitter cuts at. -/
def boundaries (re : SemiRe) (text : Str) : List Nat := (finditer re 0 0 text).map Prod.fst

/-! ## The pieces between the cuts -/

/-- The text cut at each semicolon whose continuation passes the test. -/
def pieces (cuts : Str → Bool) : Str → List Str
  | [] => [[]]
  | c :: cs =>
    if c = ';' ∧ cuts cs then [] :: pieces cuts cs else (pieces cuts cs).modifyHead (c :: ·)

/-- The pattern takes white space only. -/
def Spaced (re : SemiRe) : Prop :=
  ∀ cs k, re cs = some k → k ≤ cs.length ∧ ∀ c ∈ cs.take k, isSpace c = true

theorem spaced_spark : Spaced sparkSemiRe := by
  intro cs k h
  obtain rfl := Option.some.inj h
  exact ⟨Nat.zero_le _, by simp⟩

theorem spaced_df : Spaced dfSemiRe := by
  intro cs k h
  have blank : ∀ c ∈ cs.takeWhile isSpace, isSpace c = true := fun c hc =>
    List.mem_takeWhile_imp hc
  have taken : k ≤ (cs.takeWhile isSpace).length := by
    unfold dfSemiRe at h
    simp only at h
    split at h
    · rename_i hall
      obtain rfl := Option.some.inj h
      exact hall.ge
    · split at h
      · cases h
      · obtain rfl := Option.some.inj h
        exact (List.length_dropWhile_le _ _).trans (List.length_reverse ..).le
  have inside : cs.take k = (cs.takeWhile isSpace).take k := by
    conv_lhs => rw [← List.takeWhile_append_dropWhile (p := isSpace) (l := cs)]
    exact List.take_append_of_le_length taken
  refine ⟨taken.trans (List.takeWhile_prefix _).length_le, fun c hc => ?_⟩
  rw [inside] at hc
  exact blank c (List.mem_of_mem_take hc)

theorem finditer_skip (re : SemiRe) (w cs : Str) (pos : Nat) :
    finditer re pos w.length (w ++ cs) = finditer re (pos + w.length) 0 cs := by
  induction w generalizing pos with
  | nil => rfl
  | cons c w ih =>
    rw [List.length_cons, List.cons_append, finditer, ih, Nat.add_assoc, Nat.add_comm 1]

theorem modifyHead_nil_append (ls : List Str) : ls.modifyHead (([] : Str) ++ ·) = ls := by
  cases ls <;> rfl

theorem modifyHead_cons_append (b : Str) (c : Char) (ls : List Str) :
    (ls.modifyHead (c :: ·)).modifyHead (b ++ ·) = ls.modifyHead ((b ++ [c]) ++ ·) := by
  cases ls <;> simp

/-- White space in front of the text is trimmed off its first piece. -/
theorem pieces_white (cuts : Str → Bool) {w : Str} (h : ∀ c ∈ w, isSpace c = true) (cs : Str) :
    (pieces cuts (w ++ cs)).map strip = (pieces cuts cs).map strip := by
  have front : pieces cuts (w ++ cs) = (pieces cuts cs).modifyHead (w ++ ·) := by
    induction w with
    | nil =>
      rw [List.nil_append]
      cases pieces cuts cs <;> rfl
    | cons c w ih =>
      have hc : c ≠ ';' := ne_of_test (h c (by simp)) rfl
      rw [List.cons_append, pieces, if_neg fun hcut => hc hcut.1,
        ih fun d hd => h d (by simp [hd])]
      cases pieces cuts cs <;> rfl
  rw [front]
  cases pieces cuts cs with
  | nil => rfl
  | cons piece rest => simp [strip_white_append h]

/-- The trimmed chunks of the loop are the trimmed pieces; `before` is what
earlier chunks took, `pending` the part of the current one that was read. -/
theorem chunks_finditer {re : SemiRe} (h : Spaced re) (before pending cs : Str) :
    (chunks (before ++ pending ++ cs) before.length
      (finditer re (before.length + pending.length) 0 cs)).map strip =
      ((pieces (fun cs => (re cs).isSome) cs).modifyHead (pending ++ ·)).map strip := by
  induction hn : cs.length using Nat.strong_induction_on generalizing before pending cs with
  | _ n ih =>
    cases cs with
    | nil => simp [finditer, chunks, pieces]
    | cons c cs =>
      have hlt : cs.length < n := by simp at hn; omega
      have passed : (chunks (before ++ pending ++ c :: cs) before.length
          (finditer re (before.length + pending.length + 1) 0 cs)).map strip =
          (((pieces (fun cs => (re cs).isSome) cs).modifyHead (c :: ·)).modifyHead
            (pending ++ ·)).map strip := by
        have hrec := ih cs.length hlt before (pending ++ [c]) cs rfl
        rw [modifyHead_cons_append, ← hrec]
        simp [Nat.add_assoc]
      by_cases hc : c = ';'
      · subst hc
        cases hre : re cs with
        | none =>
          rw [finditer, if_pos rfl, hre, pieces, if_neg (by simp [hre])]
          exact passed
        | some k =>
          obtain ⟨hk, hblank⟩ := h cs k hre
          -- the match takes `cs.take k`; the next chunk starts behind it
          have hlen : (cs.take k).length = k := List.length_take_of_le hk
          have jump : finditer re (before.length + pending.length + 1) k cs =
              finditer re (before.length + pending.length + 1 + k) 0 (cs.drop k) := by
            have hskip := finditer_skip re (cs.take k) (cs.drop k)
              (before.length + pending.length + 1)
            rwa [hlen, List.take_append_drop] at hskip
          have hrec := ih (cs.drop k).length (by rw [List.length_drop]; omega)
            (before ++ pending ++ ';' :: cs.take k) [] (cs.drop k) rfl
          have htext : before ++ pending ++ ';' :: cs.take k ++ [] ++ cs.drop k =
              before ++ pending ++ ';' :: cs := by simp
          have hpos : (before ++ pending ++ ';' :: cs.take k).length =
              before.length + pending.length + 1 + k := by
            simp only [List.length_append, List.length_cons, hlen]
            omega
          rw [htext, hpos, modifyHead_nil_append] at hrec
          simp only [List.length_nil, Nat.add_zero] at hrec
          have rest : (pieces (fun cs => (re cs).isSome) cs).map strip =
              (pieces (fun cs => (re cs).isSome) (cs.drop k)).map strip := by
            conv_lhs => rw [← List.take_append_drop k cs]
            exact pieces_white _ hblank _
          have slice : ((before ++ pending ++ ';' :: cs).take
              (before.length + pending.length)).drop before.length = pending := by
            rw [← List.length_append, List.take_left, List.drop_left]
          rw [finditer, if_pos rfl, hre, pieces, if_pos ⟨rfl, by simp [hre]⟩]
          simp only [chunks, slice, jump, List.map_cons, hrec, List.modifyHead_cons,
            List.append_nil, rest]
      · rw [finditer, if_neg hc, pieces, if_neg fun hcut => hc hcut.1]
        exact passed

/-- What a splitter returns: the trimmed pieces that are kept. -/
theorem splitSqlStatements_eq {re : SemiRe} (h : Spaced re) (text : Str) :
    splitSqlStatements re text =
      ((pieces (fun cs => (re cs).isSome) text).map strip).filter keeps := by
  have hchunks := chunks_finditer h [] [] text
  rw [modifyHead_nil_append] at hchunks
  exact congrArg (List.filter keeps) hchunks

/-- The matches from a position on start at the semicolons whose continuation
matches; none of those is among the characters already taken. -/
theorem mem_starts {re : SemiRe} (h : Spaced re) {i : Nat} :
    ∀ (text : Str) (pos skip : Nat), (∀ c ∈ text.take skip, isSpace c = true) →
      (i ∈ (finditer re pos skip text).map Prod.fst ↔ ∃ before after,
        text = before ++ ';' :: after ∧ pos + before.length = i ∧ (re after).isSome)
  | [], pos, skip, _ => by simp [finditer]
  | c :: cs, pos, skip, hblank => by
    -- a cut behind the first character
    have later : ∀ k, (∀ d ∈ cs.take k, isSpace d = true) →
        (i ∈ (finditer re (pos + 1) k cs).map Prod.fst ↔ ∃ before after,
          c :: cs = c :: before ++ ';' :: after ∧ pos + (c :: before).length = i ∧
            (re after).isSome) := by
      intro k hk
      rw [mem_starts h cs (pos + 1) k hk]
      simp [Nat.add_assoc, Nat.add_comm 1]
    have split : (∃ before after, c :: cs = before ++ ';' :: after ∧ pos + before.length = i ∧
        (re after).isSome) ↔ (c = ';' ∧ pos = i ∧ (re cs).isSome) ∨ ∃ before after,
          c :: cs = c :: before ++ ';' :: after ∧ pos + (c :: before).length = i ∧
            (re after).isSome := by
      constructor
      · intro ⟨before, after, heq, hpos, hre⟩
        cases before with
        | nil =>
          obtain ⟨rfl, rfl⟩ := List.cons.inj heq
          exact .inl ⟨rfl, hpos, hre⟩
        | cons d before =>
          obtain rfl := (List.cons.inj heq).1
          exact .inr ⟨before, after, heq, hpos, hre⟩
      · intro hcut
        rcases hcut with ⟨rfl, hpos, hre⟩ | ⟨before, after, heq, hpos, hre⟩
        · exact ⟨[], cs, rfl, hpos, hre⟩
        · exact ⟨c :: before, after, heq, hpos, hre⟩
    rw [split]
    cases skip with
    | succ skip =>
      have hc : c ≠ ';' := ne_of_test (hblank c (by simp)) rfl
      rw [finditer, later skip fun d hd => hblank d (by simp [hd])]
      simp [hc]
    | zero =>
      by_cases hc : c = ';'
      · cases hre : re cs with
        | none =>
          rw [finditer, if_pos hc, hre, later 0 (by simp)]
          simp
        | some k =>
          rw [finditer, if_pos hc, hre, List.map_cons, List.mem_cons, later k (h cs k hre).2,
            eq_comm (a := i) (b := pos)]
          simp [hc]
      · rw [finditer, if_neg hc, later 0 (by simp)]
        simp [hc]

/-- A splitter cuts at the semicolons where its pattern matches. -/
theorem mem_boundaries {re : SemiRe} (h : Spaced re) {text : Str} {i : Nat} :
    i ∈ boundaries re text ↔ text[i]? = some ';' ∧ (re (text.drop (i + 1))).isSome := by
  rw [boundaries, mem_starts h text 0 0 (by simp)]
  simp only [Nat.zero_add]
  constructor
  · intro ⟨before, after, htext, hi, hre⟩
    subst htext hi
    simpa using hre
  · intro ⟨hget, hre⟩
    obtain ⟨hlt, hc⟩ := List.getElem?_eq_some_iff.mp hget
    refine ⟨text.take i, text.drop (i + 1), ?_, List.length_take_of_le hlt.le, hre⟩
    rw [← hc, List.getElem_cons_drop, List.take_append_drop]

/-- Two tests that agree behind every semicolon cut alike. -/
theorem pieces_congr {cuts cuts' : Str → Bool} : ∀ {text : Str},
    (∀ i, text[i]? = some ';' → cuts (text.drop (i + 1)) = cuts' (text.drop (i + 1))) →
    pieces cuts text = pieces cuts' text
  | [], _ => rfl
  | c :: cs, h => by
    have tail : pieces cuts cs = pieces cuts' cs :=
      pieces_congr fun i hi => h (i + 1) (by simpa using hi)
    by_cases hc : c = ';'
    · have head : cuts cs = cuts' cs := h 0 (by simp [hc])
      rw [pieces, pieces, head, tail]
    · rw [pieces, pieces, if_neg fun hcut => hc hcut.1, if_neg fun hcut => hc hcut.1, tail]

end DeltaForgeBench.Engines.SplitStatements
