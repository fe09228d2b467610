import DeltaForgeBench.Drivers.AdbcRuns
import DeltaForgeBench.Drivers.OdbcRuns

/-! # The discipline of handles

Whatever the drivers answer, both iterations return, and their traces keep the
discipline: every handle that was created is released once, before its parent,
and used only in between. -/
namespace DeltaForgeBench.Drivers.Discipline
open DeltaForgeBench.Base.Text DeltaForgeBench.Base.Handles DeltaForgeBench.Base.Interrupt
open DeltaForgeBench.Drivers

/-- The iteration returns, and its calls keep the discipline. -/
def OdbcDisciplined (drv : Odbc.Driver) (cfg : Config) (sql odbcMode : Str) : Prop :=
  ∃ w, Odbc.runOdbcIter drv cfg sql odbcMode {} = (.ok (), w) ∧
    Disciplined Odbc.parent (w.trace.map Odbc.Event.effect)

def AdbcDisciplined (drv : Adbc.Driver) (verbose : Bool) (cfg : Config) (sql : Str) : Prop :=
  ∃ w, Adbc.runAdbcIter drv verbose cfg sql {} = (.ok (), w) ∧
    Disciplined Adbc.parent (w.trace.map Adbc.Event.effect)

/-- **Both drivers' iterations keep the discipline of handles**, on every path out. -/
theorem handles_released :
    (∀ drv cfg sql odbcMode, OdbcDisciplined drv cfg sql odbcMode) ∧
      ∀ drv verbose cfg sql, drv.ok Adbc.initSymbol = true → AdbcDisciplined drv verbose cfg sql := by
  constructor
  · intro drv cfg sql odbcMode
    rcases (Odbc.runOdbcIter_spec drv cfg sql odbcMode).run with ⟨_, w, hrun, hend⟩ | ⟨_, _, _, hfalse⟩
    · have hreleased : Odbc.Released w := hend.elim (·.released) (·.released)
      obtain ⟨gone, accepted⟩ := hreleased
      exact ⟨w, hrun, accepted.disciplined rfl⟩
    · exact hfalse.elim
  · intro drv verbose cfg sql hsymbol
    rcases (Adbc.runAdbcIter_spec drv verbose cfg sql).run with
      ⟨_, w, hrun, -, hend⟩ | ⟨_, _, _, -, hmissing⟩
    · have hreleased : Adbc.Released w := hend.elim (·.released) (·.released)
      obtain ⟨gone, accepted⟩ := hreleased
      exact ⟨w, hrun, accepted.disciplined rfl⟩
    · exact absurd (hmissing.2.1.symm.trans hsymbol) Bool.false_ne_true

/-- A configuration with nothing in it but a session token. -/
def tokenOnly : Config := ⟨[], [], [], [], [], [], [], [], "token".toList⟩

theorem oneBatch_ends : ∃ a ∈ [Adbc.Answer.mk 0 true, ⟨0, false⟩], ¬ Adbc.IsBatch a :=
  ⟨⟨0, false⟩, .tail _ (.head _), fun h => Bool.false_ne_true h.2⟩

/-- A driver with one batch to give, at which these calls fail. -/
def adbcFailing (calls : List Adbc.Call) (message : Option Str) : Adbc.Driver where
  answer c := ⟨if c ∈ calls then 1 else 0, true⟩
  batches := [⟨0, true⟩, ⟨0, false⟩]
  error _ := ⟨[], none⟩
  dlMessage _ := message
  nChildren := 1
  batchLength _ := 1
  clock n := n
  stream_filled _ := rfl
  schema_filled _ := rfl
  batches_end := oneBatch_ends

/-- A driver all of whose calls succeed, with one column and these answers to `SQLFetch`. -/
def odbcFetching (fetches : List Odbc.Answer) (ends : ∃ a ∈ fetches, ¬ Odbc.IsRow a) :
    Odbc.Driver where
  answer _ := ⟨0, []⟩
  fetches := fetches
  handleSet _ := true
  ncols := 1
  column _ := ⟨12, 40⟩
  clock n := n
  handleSet_eq _ := rfl
  fetches_end := ends

/-- The diagnostic of a cell longer than its buffer. -/
def truncatedRow : Odbc.Answer :=
  ⟨Odbc.successWithInfo, [⟨"01004".toList, "String data, right truncated".toList⟩]⟩

theorem oneRow_ends : ∃ a ∈ [truncatedRow, ⟨Odbc.noData, []⟩], ¬ Odbc.IsRow a :=
  ⟨⟨Odbc.noData, []⟩, .tail _ (.head _), fun h => Bool.false_ne_true h⟩

theorem handles_released_failing :
    OdbcDisciplined (odbcFetching _ oneRow_ends) tokenOnly "SELECT 1".toList "getdata".toList ∧
      AdbcDisciplined (adbcFailing [.databaseInit] none) true tokenOnly "SELECT 1".toList :=
  ⟨handles_released.1 _ _ _ _, handles_released.2 _ _ _ _ rfl⟩

end DeltaForgeBench.Drivers.Discipline
