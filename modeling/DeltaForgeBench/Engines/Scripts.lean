import DeltaForgeBench.Base.Lines
import DeltaForgeBench.Engines.StatementBoundaries
import DeltaForgeBench.Workloads.DfCatalog

/-! # Scripts and their statements

The workloads write a script by joining statements with a semicolon and a line
feed, some with a final one; the adapters take it apart again. -/
namespace DeltaForgeBench.Engines.Scripts
open DeltaForgeBench.Base.Text DeltaForgeBench.Base.Lines
open DeltaForgeBench.Engines.SplitStatements DeltaForgeBench.Engines.StatementBoundaries
open DeltaForgeBench.Workloads.DfCatalog

/-- `";\n".join(parts)`, and `+ ";\n"` where the builder adds it. -/
def script (final : Bool) (parts : List Str) : Str :=
  join ";\n".toList parts ++ if final then ";\n".toList else []

/-- A statement holds no semicolon, and a line that is neither blank nor a comment. -/
structure IsStatement (s : Str) : Prop where
  free : ';' ∉ s
  code : ∃ line ∈ splitlines s, isCode line = true

/-- Both splitters cut the script into these statements. -/
def SplitsInto (text : Str) (statements : List Str) : Prop :=
  dfSplitSqlStatements text = statements ∧ sparkSplitSqlStatements text = statements

/-! ## Statements are kept -/

theorem keeps_of_code {chunk : Str} (h : ∃ line ∈ splitlines chunk, isCode line = true) :
    keeps chunk = true := by
  obtain ⟨line, hline, hcode⟩ := h
  have filled : strip line ≠ [] := by
    unfold isCode at hcode
    simp only [Bool.and_eq_true, decide_eq_true_eq] at hcode
    exact hcode.1
  obtain ⟨c, hc, hspace⟩ := exists_of_strip_ne_nil filled
  have inside : c ∈ nonComment chunk :=
    (infix_join (List.mem_filter.mpr ⟨hline, hcode⟩)).subset hc
  have left : strip (nonComment chunk) ≠ [] :=
    List.ne_nil_of_mem (mem_strip_of_not_space inside hspace)
  have whole : chunk ≠ [] := List.ne_nil_of_mem (mem_of_mem_splitlines hline hc)
  simp [keeps, left, whole]

theorem IsStatement.keeps {s : Str} (h : IsStatement s) : keeps (strip s) = true := by
  obtain ⟨line, hline, hcode⟩ := h.code
  have filled : strip line ≠ [] := by
    unfold isCode at hcode
    simp only [Bool.and_eq_true, decide_eq_true_eq] at hcode
    exact hcode.1
  obtain ⟨kept, hkept, hsame⟩ := splitlines_strip hline filled
  refine keeps_of_code ⟨kept, hkept, ?_⟩
  unfold isCode at hcode ⊢
  rw [hsame]
  exact hcode

/-! ## The pieces of a script -/

theorem join_concat (sep : Str) (init : List Str) (last : Str) :
    join sep (init ++ [last]) = init.flatMap (· ++ sep) ++ last := by
  induction init with
  | nil => simp
  | cons s init ih =>
    cases init with
    | nil => simp
    | cons t init =>
      rw [List.cons_append, List.cons_append, join_cons_cons, ← List.cons_append, ih]
      simp

theorem pieces_free (cuts : Str → Bool) {s : Str} (h : ';' ∉ s) : pieces cuts s = [s] := by
  induction s with
  | nil => rfl
  | cons c s ih =>
    simp only [List.mem_cons, not_or] at h
    rw [pieces, if_neg fun hcut => h.1 hcut.1.symm, ih h.2]
    rfl

/-- A statement and the semicolon behind it are one piece. -/
theorem pieces_terminated {cuts : Str → Bool} (hcuts : ∀ t, cuts ('\n' :: t) = true) {s : Str}
    (h : ';' ∉ s) (t : Str) :
    pieces cuts (s ++ ";\n".toList ++ t) = s :: pieces cuts ('\n' :: t) := by
  induction s with
  | nil => exact if_pos ⟨rfl, hcuts t⟩
  | cons c s ih =>
    simp only [List.mem_cons, not_or] at h
    rw [List.cons_append, List.cons_append, pieces, if_neg fun hcut => h.1 hcut.1.symm, ih h.2]
    rfl

/-- Terminated statements are pieces of their own, whatever follows them. -/
theorem pieces_statements {cuts : Str → Bool} (hcuts : ∀ t, cuts ('\n' :: t) = true) (t : Str) :
    ∀ {stmts : List Str}, (∀ s ∈ stmts, ';' ∉ s) →
      (pieces cuts (stmts.flatMap (· ++ ";\n".toList) ++ t)).map strip =
        stmts.map strip ++ (pieces cuts t).map strip
  | [], _ => rfl
  | s :: stmts, h => by
    obtain ⟨hs, hrest⟩ := List.forall_mem_cons.mp h
    have feed : (pieces cuts ('\n' :: (stmts.flatMap (· ++ ";\n".toList) ++ t))).map strip =
        (pieces cuts (stmts.flatMap (· ++ ";\n".toList) ++ t)).map strip :=
      pieces_white cuts (w := ['\n']) (by simp [isSpace]) _
    rw [List.flatMap_cons, List.append_assoc, pieces_terminated hcuts hs, List.map_cons, feed,
      pieces_statements hcuts t hrest]
    rfl

/-- The pieces of a script: its statements, and nothing else that is kept. -/
theorem kept_pieces {cuts : Str → Bool} (hcuts : ∀ t, cuts ('\n' :: t) = true) {stmts : List Str}
    (h : ∀ s ∈ stmts, IsStatement s) (final : Bool) :
    ((pieces cuts (script final stmts)).map strip).filter SplitStatements.keeps =
      stmts.map strip := by
  have kept : ∀ {ls : List Str}, (∀ s ∈ ls, IsStatement s) →
      (ls.map strip).filter SplitStatements.keeps = ls.map strip := by
    intro ls hls
    refine List.filter_eq_self.mpr fun s hs => ?_
    obtain ⟨s', hs', rfl⟩ := List.mem_map.mp hs
    exact (hls s' hs').keeps
  rcases List.eq_nil_or_concat' stmts with rfl | ⟨init, last, rfl⟩
  · cases final with
    | false => rfl
    | true =>
      have alone := pieces_terminated hcuts (s := []) (by simp) []
      exact congrArg (fun ls => (ls.map strip).filter SplitStatements.keeps) alone
  · have free : ∀ s ∈ init ++ [last], ';' ∉ s := fun s hs => (h s hs).free
    cases final with
    | false =>
      rw [script, join_concat, if_neg (by simp), List.append_nil,
        pieces_statements hcuts last fun s hs => free s (by simp [hs]),
        pieces_free cuts (free last (by simp)), ← List.map_append]
      exact kept h
    | true =>
      have closed : script true (init ++ [last]) =
          (init ++ [last]).flatMap (· ++ ";\n".toList) ++ [] := by
        rw [script, join_concat]
        simp
      rw [closed, pieces_statements hcuts [] free, List.filter_append, kept h]
      exact List.append_nil _

theorem splitsInto_script {stmts : List Str} (h : ∀ s ∈ stmts, IsStatement s) (final : Bool) :
    SplitsInto (script final stmts) (stmts.map strip) := by
  constructor
  · rw [dfSplitSqlStatements, splitSqlStatements_eq spaced_df]
    refine kept_pieces (fun t => ?_) h final
    rw [dfSemiRe_isSome]
    simp [isSpace]
  · rw [sparkSplitSqlStatements, splitSqlStatements_eq spaced_spark]
    exact kept_pieces (fun t => rfl) h final

/-! ## The registration script -/

/-- A text that starts like code has a line of code: its first one. -/
theorem code_of_head {c : Char} {cs : Str} (hc : isSpace c = false) (hdash : c ≠ '-') :
    ∃ line ∈ splitlines (c :: cs), isCode line = true := by
  have hbreak : isLineBreak c = false := by
    by_contra h
    rw [isSpace_of_isLineBreak (by simpa using h)] at hc
    cases hc
  obtain ⟨l, hl⟩ : ∃ l, c :: l ∈ splitlines (c :: cs) := by
    rw [splitlines]
    · simp only [hbreak, Bool.false_eq_true, if_false]
      cases splitlines cs with
      | nil => exact ⟨[], by simp⟩
      | cons first rest => exact ⟨first, by simp⟩
    · exact fun ds hr _ => absurd (hr ▸ hbreak) (by simp [isLineBreak])
  refine ⟨c :: l, hl, ?_⟩
  obtain ⟨front, back, hsplit, hfront, hback⟩ := exists_strip (c :: l)
  have filled : strip (c :: l) ≠ [] := List.ne_nil_of_mem
    (mem_strip_of_not_space (by simp) hc)
  obtain ⟨d, ds, htrim⟩ := List.exists_cons_of_ne_nil filled
  have head : d = c := by
    cases front with
    | nil =>
      rw [htrim] at hsplit
      exact (List.cons.inj hsplit).1.symm
    | cons e front =>
      obtain rfl := (List.cons.inj hsplit).1
      rw [hfront c (by simp)] at hc
      cases hc
  have plain : "--".toList.isPrefixOf (c :: ds) = false := by
    rw [← Bool.not_eq_true, List.isPrefixOf_iff_prefix]
    intro hprefix
    exact hdash (List.cons_prefix_cons.mp hprefix).1.symm
  rw [isCode, htrim, head, plain]
  simp

theorem strip_enclosed {c d : Char} (t : Str) (hc : isSpace c = false) (hd : isSpace d = false) :
    strip (c :: t ++ [d]) = c :: t ++ [d] := by
  simp [strip, lstrip, rstrip, hc, hd]

/-- The same for a text that starts with a word of the source. -/
theorem code_of_word {word rest : Str} {c : Char} (hhead : word.head? = some c)
    (hc : isSpace c = false) (hdash : c ≠ '-') :
    ∃ line ∈ splitlines (word ++ rest), isCode line = true := by
  obtain ⟨cs, rfl⟩ := List.head?_eq_some_iff.mp hhead
  exact code_of_head hc hdash

theorem free_of_all {t : Str} (h : t.all (· ≠ ';') = true) : ';' ∉ t := by
  intro hmem
  have hne := List.all_eq_true.mp h ';' hmem
  simp at hne

theorem createZone_statement {zone root : Str} (hzone : ';' ∉ zone) (hroot : ';' ∉ root) :
    IsStatement (createZone zone root) where
  free := by
    unfold createZone
    simp only [List.mem_append, not_or]
    exact ⟨⟨⟨⟨free_of_all rfl, hzone⟩, free_of_all rfl⟩, hroot⟩, free_of_all rfl⟩
  code := by
    unfold createZone
    simp only [List.append_assoc]
    exact code_of_word (c := 'C') rfl rfl (by simp)

theorem createSchema_statement {zone schema : Str} (hzone : ';' ∉ zone) (hschema : ';' ∉ schema) :
    IsStatement (createSchema zone schema) where
  free := by
    unfold createSchema
    simp only [List.mem_append, not_or]
    exact ⟨⟨⟨free_of_all rfl, hzone⟩, free_of_all rfl⟩, hschema⟩
  code := by
    unfold createSchema
    simp only [List.append_assoc]
    exact code_of_word (c := 'C') rfl rfl (by simp)

theorem registerTable_statement {zone schema t : Str} (hzone : ';' ∉ zone)
    (hschema : ';' ∉ schema) (ht : ';' ∉ t) : IsStatement (registerTable zone schema t) where
  free := by
    unfold registerTable
    simp only [List.mem_append, not_or]
    exact ⟨⟨⟨⟨⟨⟨⟨⟨free_of_all rfl, hzone⟩, free_of_all rfl⟩, hschema⟩, free_of_all rfl⟩, ht⟩,
      free_of_all rfl⟩, ht⟩, free_of_all rfl⟩
  code := by
    unfold registerTable
    simp only [List.append_assoc]
    exact code_of_word (c := 'R') rfl rfl (by simp)

theorem strip_registerTable (zone schema t : Str) :
    strip (registerTable zone schema t) = registerTable zone schema t :=
  strip_enclosed (_ ++ t) rfl rfl

theorem splitsInto_dfRegisterSetup {zone schema root : Str} {tables : List Str}
    (hzone : ';' ∉ zone) (hschema : ';' ∉ schema) (hroot : ';' ∉ root)
    (htables : ∀ t ∈ tables, ';' ∉ t) :
    SplitsInto (dfRegisterSetup zone schema root tables)
      ([strip (createZone zone root), strip (createSchema zone schema)] ++
        tables.map (registerTable zone schema)) := by
  have statements : ∀ s ∈ [createZone zone root, createSchema zone schema] ++
      tables.map (registerTable zone schema), IsStatement s := by
    intro s hs
    rcases List.mem_append.mp hs with hs | hs
    · rcases List.mem_cons.mp hs with rfl | hs
      · exact createZone_statement hzone hroot
      · obtain rfl := List.mem_singleton.mp hs
        exact createSchema_statement hzone hschema
    · obtain ⟨t, ht, rfl⟩ := List.mem_map.mp hs
      exact registerTable_statement hzone hschema (htables t ht)
  have whole := splitsInto_script statements false
  have trimmed : (tables.map (registerTable zone schema)).map strip =
      tables.map (registerTable zone schema) := by
    simp [strip_registerTable]
  rw [List.map_append, trimmed, script, if_neg (by simp), List.append_nil] at whole
  exact whole

/-- **Builders and splitters are inverse.** A script of statements is cut into
these statements, trimmed, in order; the registration script into one statement
for the zone, one for the schema and one for each table. -/
theorem scripts_split :
    (∀ (stmts : List Str) (final : Bool), (∀ s ∈ stmts, IsStatement s) →
      SplitsInto (script final stmts) (stmts.map strip)) ∧
    ∀ (zone schema root : Str) (tables : List Str), ';' ∉ zone → ';' ∉ schema → ';' ∉ root →
      (∀ t ∈ tables, ';' ∉ t) → ∃ statements,
        SplitsInto (dfRegisterSetup zone schema root tables) statements ∧
          statements.length = tables.length + 2 ∧
            statements.drop 2 = tables.map (registerTable zone schema) := by
  refine ⟨fun stmts final h => splitsInto_script h final, ?_⟩
  intro zone schema root tables hzone hschema hroot htables
  exact ⟨_, splitsInto_dfRegisterSetup hzone hschema hroot htables, by simp, rfl⟩

theorem scripts_split_tpch :
    SplitsInto (script true ["select 1".toList]) (["select 1".toList].map strip) ∧
    ∃ statements,
      SplitsInto (dfRegisterSetup "bench".toList "tpch".toList "/data/tpch_delta".toList
        ["region".toList, "nation".toList]) statements ∧
      statements.length = 4 ∧
      statements.drop 2 =
        ["region".toList, "nation".toList].map (registerTable "bench".toList "tpch".toList) := by
  have tables : ∀ t ∈ ["region".toList, "nation".toList], ';' ∉ t := by
    intro t ht
    rcases List.mem_cons.mp ht with rfl | ht
    · exact free_of_all rfl
    · obtain rfl := List.mem_singleton.mp ht
      exact free_of_all rfl
  have select : IsStatement "select 1".toList :=
    ⟨free_of_all rfl, @code_of_head 's' "elect 1".toList rfl (by simp)⟩
  refine ⟨scripts_split.1 _ true fun s hs => ?_, scripts_split.2 _ _ _ _ (free_of_all rfl)
    (free_of_all rfl) (free_of_all rfl) tables⟩
  obtain rfl := List.mem_singleton.mp hs
  exact select

end DeltaForgeBench.Engines.Scripts
