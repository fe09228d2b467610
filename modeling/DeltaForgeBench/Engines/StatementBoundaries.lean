import DeltaForgeBench.Engines.SplitStatements

/-! # Where statements end

A semicolon inside a literal or a comment ends no statement. The splitters look
at the text behind a semicolon only, never at what it stands in. -/
namespace DeltaForgeBench.Engines.StatementBoundaries
open DeltaForgeBench.Base.Text DeltaForgeBench.Engines.SplitStatements

/-! ## Literals and comments -/

inductive Mode
  | code | literal | comment
  deriving DecidableEq

/-- Which characters belong to a single-quoted literal or to a `--` comment. A
doubled quote closes the literal and opens it again. -/
def guards : Mode → Str → List Bool
  | _, [] => []
  | .code, c :: cs =>
    if c = '\'' then true :: guards .literal cs
    else if c = '-' ∧ cs.head? = some '-' then true :: guards .comment cs
    else false :: guards .code cs
  | .literal, c :: cs => true :: guards (if c = '\'' then .code else .literal) cs
  | .comment, c :: cs =>
    if c = '\n' ∨ c = '\r' then false :: guards .code cs else true :: guards .comment cs

/-- The character at a position belongs to a literal or a comment. -/
def Guarded (text : Str) (i : Nat) : Prop := (guards .code text)[i]? = some true

instance (text : Str) (i : Nat) : Decidable (Guarded text i) :=
  inferInstanceAs (Decidable (_ = _))

/-- Blanks, then a line feed or the end of the text. -/
def EndsLine (after : Str) : Prop :=
  ((after.dropWhile fun c => isSpace c && c ≠ '\n').head?).getD '\n' = '\n'

instance (after : Str) : Decidable (EndsLine after) := inferInstanceAs (Decidable (_ = _))

/-- Every semicolon outside literals and comments stands at the end of its line. -/
def Terminated (text : Str) : Prop :=
  ∀ i < text.length, text[i]? = some ';' → ¬ Guarded text i → EndsLine (text.drop (i + 1))

/-- The splitters agree, and none cuts inside a literal or a comment. -/
structure SplitsWell (text : Str) : Prop where
  agree : dfSplitSqlStatements text = sparkSplitSqlStatements text
  respect : ∀ i, Guarded text i →
    i ∉ boundaries dfSemiRe text ∧ i ∉ boundaries sparkSemiRe text

/-- No literal and no comment holds a semicolon. -/
def NoneGuarded (text : Str) : Prop := ∀ i, text[i]? = some ';' → ¬ Guarded text i

/-! ## The df pattern -/

theorem dfSemiRe_isSome {cs : Str} : (dfSemiRe cs).isSome ↔
    cs.takeWhile isSpace = cs ∨ '\n' ∈ cs.takeWhile isSpace := by
  have whole : (cs.takeWhile isSpace).length = cs.length ↔ cs.takeWhile isSpace = cs := by
    constructor
    · exact (List.takeWhile_prefix _).eq_of_length
    · exact congrArg List.length
  have fed : ((cs.takeWhile isSpace).reverse.dropWhile (· ≠ '\n')).length = 0 ↔
      '\n' ∉ cs.takeWhile isSpace := by
    rw [List.length_eq_zero_iff, List.dropWhile_eq_nil_iff]
    simp only [List.mem_reverse, ne_eq, decide_not, Bool.not_eq_eq_eq_not, Bool.not_true,
      decide_eq_false_iff_not]
    constructor
    · intro h hmem
      exact h '\n' hmem rfl
    · intro h c hc heq
      exact h (heq ▸ hc)
  unfold dfSemiRe
  simp only [whole, fed]
  split
  · rename_i hall
    simp [hall]
  · rename_i hall
    split
    · rename_i hnot
      simp [hall, hnot]
    · rename_i hnot
      simp [not_not.mp hnot]

/-- The df pattern matches at the semicolons that stand at the end of a line. -/
theorem dfSemiRe_iff_endsLine {after : Str} : (dfSemiRe after).isSome ↔ EndsLine after := by
  rw [dfSemiRe_isSome]
  induction after with
  | nil => simp [EndsLine]
  | cons c cs ih =>
    by_cases hnl : c = '\n'
    · subst hnl
      simp [EndsLine, isSpace]
    · by_cases hc : isSpace c = true
      · have skip : EndsLine (c :: cs) ↔ EndsLine cs := by
          simp [EndsLine, hc, hnl]
        rw [skip, ← ih, List.takeWhile_cons, if_pos hc, List.cons.injEq, List.mem_cons]
        simp [Ne.symm hnl]
      · simp [EndsLine, hc, hnl]

/-! ## When the splitters respect both -/

theorem mem_boundaries_spark {text : Str} {i : Nat} :
    i ∈ boundaries sparkSemiRe text ↔ text[i]? = some ';' := by
  rw [mem_boundaries spaced_spark]
  simp [sparkSemiRe]

theorem agree_of_noneGuarded {text : Str} (ht : Terminated text) (h : NoneGuarded text) :
    dfSplitSqlStatements text = sparkSplitSqlStatements text := by
  have same : pieces (fun cs => (dfSemiRe cs).isSome) text =
      pieces (fun cs => (sparkSemiRe cs).isSome) text := by
    refine pieces_congr fun i hi => ?_
    have hline := ht i (List.getElem?_eq_some_iff.mp hi).1 hi (h i hi)
    simp [dfSemiRe_iff_endsLine.mpr hline, sparkSemiRe]
  rw [dfSplitSqlStatements, sparkSplitSqlStatements, splitSqlStatements_eq spaced_df,
    splitSqlStatements_eq spaced_spark, same]

/-- **Literals and comments.** On scripts whose statements end their lines, the
splitters agree and respect literals and comments exactly when these hold no
semicolon. -/
theorem splitsWell_iff {text : Str} (h : Terminated text) :
    SplitsWell text ↔ NoneGuarded text := by
  constructor
  · intro hwell i hi hguarded
    exact (hwell.respect i hguarded).2 (mem_boundaries_spark.mpr hi)
  · intro hnone
    refine ⟨agree_of_noneGuarded h hnone, fun i hguarded => ⟨fun hdf => ?_, fun hspark => ?_⟩⟩
    · exact hnone i ((mem_boundaries spaced_df).mp hdf).1 hguarded
    · exact hnone i (mem_boundaries_spark.mp hspark) hguarded

/-- `select 'a;b'` and its end of line. -/
def quotedSemicolon : Str := "select 'a;b';\n".toList

theorem splitsWell_iff_quotedSemicolon :
    SplitsWell quotedSemicolon ↔ NoneGuarded quotedSemicolon :=
  splitsWell_iff (by unfold Terminated; decide)

/-- Spark's splitter halves the statement that df's keeps. -/
theorem quoted_semicolon_splits : ¬ ∀ text, Terminated text → SplitsWell text := by
  intro h
  have well := h quotedSemicolon (by unfold Terminated; decide)
  have df : dfSplitSqlStatements quotedSemicolon = ["select 'a;b'".toList] := rfl
  have spark : sparkSplitSqlStatements quotedSemicolon =
      ["select 'a".toList, "b'".toList] := rfl
  have lengths := congrArg List.length well.agree
  rw [df, spark] at lengths
  exact absurd lengths (by simp)

end DeltaForgeBench.Engines.StatementBoundaries
