import DeltaForgeBench.Drivers.Discipline

/-! # What an iteration reports

An iteration whose driver failed it, or truncated a cell, should say so, and be
left out of the median. Most failures are reported. Three kinds are not: the
entry point that is missing ends the program, a cut cell counts as a row, and
some results are never looked at. -/
namespace DeltaForgeBench.Drivers.Reported
open DeltaForgeBench.Base.Text DeltaForgeBench.Base.Interrupt
open DeltaForgeBench.Drivers DeltaForgeBench.Drivers.Discipline

/-- The iteration returns; where a call failed, its error is set and it is left out
of the warm median. -/
def AdbcReported (drv : Adbc.Driver) (verbose : Bool) (cfg : Config) (sql : Str) : Prop :=
  ∃ w, Adbc.runAdbcIter drv verbose cfg sql {} = (.ok (), w) ∧
    ((∃ e ∈ w.trace, e.Failed) → w.out.error ≠ [] ∧ Excluded w.out)

/-- The same where a call failed or a fetched cell was truncated. -/
def OdbcReported (drv : Odbc.Driver) (cfg : Config) (sql : Str) : Prop :=
  ∃ w, Odbc.runOdbcIter drv cfg sql "bound".toList {} = (.ok (), w) ∧
    ((∃ e ∈ w.trace, e.Faulty) → w.out.error ≠ [] ∧ Excluded w.out)

/-- The library has its entry point, or the loader has no message; and an iteration
that no check stops has no failure among the results it drops. -/
def AdbcTold (drv : Adbc.Driver) (cfg : Config) (sql : Str) : Prop :=
  ¬ Adbc.NoEntryPoint drv cfg ∧
    (Adbc.Passes drv cfg sql → ∀ c ∈ Adbc.discardedCalls cfg, drv.ok c = true)

/-- An iteration that no check stops has no cut cell and no failed release. -/
def OdbcTold (drv : Odbc.Driver) (cfg : Config) (sql : Str) : Prop :=
  Odbc.Passes drv cfg sql false →
    (∀ a ∈ drv.rows, ¬ a.Truncated) ∧
      ∀ c ∈ Odbc.discardedCalls, Odbc.succeeded (drv.answer c).rc = true

theorem adbcReported_iff (drv : Adbc.Driver) (verbose : Bool) (cfg : Config) (sql : Str) :
    AdbcReported drv verbose cfg sql ↔ AdbcTold drv cfg sql := by
  rcases (Adbc.runAdbcIter_spec drv verbose cfg sql).run with
    ⟨_, w, hrun, hentry, hend⟩ | ⟨_, w, hrun, rfl, hmissing⟩
  · have hends : (w.out.error = [] ∧ Adbc.Passes drv cfg sql ∧ ((∃ e ∈ w.trace, e.Failed) ↔
        ∃ c ∈ Adbc.discardedCalls cfg, drv.ok c = false)) ∨
        (w.out.error ≠ [] ∧ ¬ Adbc.Passes drv cfg sql) := by
      rcases hend with finished | left
      · exact .inl ⟨finished.error, finished.passes, finished.failed⟩
      · exact .inr ⟨left.error, left.failed⟩
    have hreported := reported_iff_of_end hends
    simp only [AdbcReported, AdbcTold, hrun, hentry, Prod.mk.injEq, true_and, not_false_eq_true,
      exists_eq_left', hreported, not_exists, not_and, Bool.not_eq_false]
  · simp [AdbcReported, AdbcTold, hrun, hmissing]

theorem odbcReported_iff (drv : Odbc.Driver) (cfg : Config) (sql : Str) :
    OdbcReported drv cfg sql ↔ OdbcTold drv cfg sql := by
  rcases (Odbc.runOdbcIter_spec drv cfg sql "bound".toList).run with
    ⟨_, w, hrun, hend⟩ | ⟨_, _, _, hfalse⟩
  · have hmode : Odbc.usesGetdata "bound".toList = false := by decide
    rw [hmode] at hend
    have hends : (w.out.error = [] ∧ Odbc.Passes drv cfg sql false ∧ ((∃ e ∈ w.trace, e.Faulty) ↔
        (∃ a ∈ drv.rows, a.Truncated) ∨
          ∃ c ∈ Odbc.discardedCalls, Odbc.succeeded (drv.answer c).rc = false)) ∨
        (w.out.error ≠ [] ∧ ¬ Odbc.Passes drv cfg sql false) := by
      rcases hend with finished | left
      · exact .inl ⟨finished.error, finished.passes, finished.faulty⟩
      · exact .inr ⟨left.error, left.failed⟩
    have hreported := reported_iff_of_end hends
    simp only [OdbcReported, OdbcTold, hrun, Prod.mk.injEq, true_and, exists_eq_left', hreported,
      not_or, not_exists, not_and, Bool.not_eq_false]
  · exact hfalse.elim

/-- **An iteration reports its failures exactly when** its entry point is not missing with
a message pending, and no failure is among the results nothing looks at. -/
theorem failures_reported_iff (adbc : Adbc.Driver) (odbc : Odbc.Driver) (verbose : Bool)
    (cfg : Config) (sql : Str) :
    (AdbcReported adbc verbose cfg sql ↔ AdbcTold adbc cfg sql) ∧
      (OdbcReported odbc cfg sql ↔ OdbcTold odbc cfg sql) :=
  ⟨adbcReported_iff adbc verbose cfg sql, odbcReported_iff odbc cfg sql⟩

theorem odbcFetching_passes (cfg : Config) (sql : Str) :
    Odbc.Passes (odbcFetching _ oneRow_ends) cfg sql false where
  calls _ _ := rfl
  cells h := absurd h Bool.false_ne_true
  ends a ha := by
    rw [← Option.some.inj ha]

theorem adbcFailing_passes :
    Adbc.Passes (adbcFailing (Adbc.credentialCalls tokenOnly) none) tokenOnly "SELECT 1".toList where
  calls := by decide
  ends a ha := by
    rw [← Option.some.inj ha]
  releases := by decide

/-- A library without the entry point, a login option that is refused, and a cell that
is cut: the first ends the program, the others are measured like any iteration. -/
theorem failure_not_reported :
    ¬ AdbcReported (adbcFailing [Adbc.initSymbol] (some "undefined symbol".toList)) false tokenOnly
        "SELECT 1".toList ∧
      ¬ AdbcReported (adbcFailing (Adbc.credentialCalls tokenOnly) none) false tokenOnly
        "SELECT 1".toList ∧
      ¬ OdbcReported (odbcFetching _ oneRow_ends) tokenOnly "SELECT 1".toList := by
  rw [adbcReported_iff, adbcReported_iff, odbcReported_iff]
  refine ⟨?_, ?_, ?_⟩
  · intro told
    exact told.1 ⟨rfl, rfl, rfl⟩
  · intro told
    have refused := told.2 adbcFailing_passes _ (.head _)
    exact Bool.false_ne_true refused
  · intro told
    have rows : truncatedRow ∈ (odbcFetching _ oneRow_ends).rows := .head _
    exact (told (odbcFetching_passes _ _)).1 _ rows ⟨rfl, _, .head _, rfl⟩

end DeltaForgeBench.Drivers.Reported
