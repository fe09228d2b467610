import Mathlib.Logic.Function.Basic
import DeltaForgeBench.Base.Dict
import DeltaForgeBench.Base.Interrupt
import DeltaForgeBench.Workloads.ReadDelta

/-! # The Delta fixtures and their generators

A benchmark has a directory of staged parquet files and, beside it, one of Delta
tables. The generators write both one after another and pass over what is there
already. A process may be stopped before any of its actions, so it may leave a
file or a table half written. -/
namespace DeltaForgeBench.DataGen.Fixtures
open DeltaForgeBench.Base.Text DeltaForgeBench.Base.Dict DeltaForgeBench.Base.Interrupt
open DeltaForgeBench.Workloads

/-- A file or a table is there from its first byte on. -/
inductive Mark
  | begun | complete
  deriving DecidableEq, Repr

abbrev Directory := List (Str × Mark)

def Directory.has (dir : Directory) (t : Str) : Bool := (get? dir t).isSome

/-- The parquet files of a `data_subdir`, by table, and the tables beside it. -/
structure Fixture where
  parquet : Directory := []
  delta : Directory := []

/-- The benchmarks that read staged data. -/
inductive Suite
  | tpch | tpcds | ssb | job
  deriving DecidableEq, Repr

/-- A `data_subdir` with the scale filled in. -/
inductive Folder
  | tpch (scale : Int) | tpcds (scale : Int) | ssb (scale : Int) | job
  deriving DecidableEq, Repr

def Suite.folder (scale : Int) : Suite → Folder
  | .tpch => .tpch scale
  | .tpcds => .tpcds scale
  | .ssb => .ssb scale
  | .job => .job

def Folder.suite : Folder → Suite
  | .tpch _ => .tpch
  | .tpcds _ => .tpcds
  | .ssb _ => .ssb
  | .job => .job

@[simp] theorem Suite.suite_folder (scale : Int) (s : Suite) : (s.folder scale).suite = s := by
  cases s <;> rfl

/-- The tables a workload reads. -/
def Suite.tables : Suite → List Str
  | .tpch => ReadDelta.tpch.tables
  | .tpcds => ReadDelta.tpcds.tables
  | .ssb => ReadDelta.ssb.tables
  | .job => ReadDelta.job.tables

theorem Suite.tables_ne_nil (s : Suite) : s.tables ≠ [] := by
  cases s <;> exact List.cons_ne_nil _ _

abbrev Disk := Folder → Fixture

/-- Everything on disk, and how many actions the process has taken. -/
structure World where
  disk : Disk
  clock : Nat := 0

/-- What a build cannot foresee: before which of its actions it is stopped or
fails, and which files the IMDB archive has left. -/
structure Environment where
  stops : Nat → Bool
  csvs : Str → Bool

/-- Spark as a reader. A parquet file ends with its footer and a Delta table
with its first commit, so one that is not completely written cannot be read. -/
structure Spark where
  reads : Mark → Bool
  torn : reads .begun = false

def Spark.opens (spark : Spark) (m : Option Mark) : Bool := m.any spark.reads

/-! ## Actions -/

def checkpoint (env : Environment) : Program World Unit := do
  let w ← get
  if env.stops w.clock then halt .killed else modify fun w => { w with clock := w.clock + 1 }

def edit (env : Environment) (f : Folder) (g : Fixture → Fixture) : Program World Unit := do
  checkpoint env
  modify fun w => { w with disk := Function.update w.disk f (g (w.disk f)) }

/-- A look at one directory decides what to do. -/
def ifFixture (f : Folder) (c : Fixture → Bool) (yes no : Program World Unit) :
    Program World Unit := do
  let w ← get
  if c (w.disk f) then yes else no

def Fixture.putParquet (t : Str) (m : Mark) (x : Fixture) : Fixture :=
  { x with parquet := set x.parquet t m }

def Fixture.putDelta (t : Str) (m : Mark) (x : Fixture) : Fixture :=
  { x with delta := set x.delta t m }

/-- `COPY ... TO '<table>.parquet'`. -/
def copyTo (env : Environment) (f : Folder) (t : Str) : Program World Unit := do
  edit env f (.putParquet t .begun)
  edit env f (.putParquet t .complete)

/-- `CREATE OR REPLACE TABLE delta. ... AS SELECT`. -/
def createTable (env : Environment) (f : Folder) (t : Str) : Program World Unit := do
  edit env f (.putDelta t .begun)
  edit env f (.putDelta t .complete)

/-! ## The generators -/

/-- One table of `stage_parquet`, from a source that may be missing. -/
def stageTable (env : Environment) (f : Folder) (source : Str → Bool) (t : Str) :
    Program World Unit :=
  ifFixture f (·.parquet.has t) (pure ())
    (if source t then copyTo env f t else halt .raised)

/-- `stage_parquet`. -/
def stageParquet (env : Environment) (f : Folder) (source : Str → Bool) (tables : List Str) :
    Program World Unit :=
  ifFixture f (fun x => tables.all x.parquet.has) (pure ()) do
    checkpoint env
    forEach (stageTable env f source) tables

/-- `spark.read.parquet`. -/
def readParquet (spark : Spark) (f : Folder) (t : Str) : Program World Unit :=
  ifFixture f (fun x => spark.opens (get? x.parquet t)) (pure ()) (halt .raised)

/-- `spark.read.format("delta").load`. -/
def readDelta (spark : Spark) (f : Folder) (t : Str) : Program World Unit :=
  ifFixture f (fun x => spark.opens (get? x.delta t)) (pure ()) (halt .raised)

/-- One Delta table of a generator, written from what `source` reads. -/
def writeTable (env : Environment) (f : Folder) (source : Str → Program World Unit) (t : Str) :
    Program World Unit :=
  ifFixture f (·.delta.has t) (pure ()) do
    source t
    createTable env f t

/-- `stage_delta`. -/
def stageDelta (env : Environment) (spark : Spark) (f : Folder) (tables : List Str) :
    Program World Unit := do
  checkpoint env
  forEach (writeTable env f (readParquet spark f)) tables

/-- `generate` of `generate_tpch`, which passes over nothing. Its `TPCH_TABLES`
are the workload's. -/
def generateTpch (env : Environment) (scale : Int) : Program World Unit := do
  checkpoint env
  forEach (copyTo env (.tpch scale)) Suite.tpch.tables

/-- `TABLES` of `generate_tpch_delta`. -/
def tpchDeltaTables : List Str :=
  ["region".toList, "nation".toList, "supplier".toList, "customer".toList, "part".toList,
   "partsupp".toList, "orders".toList, "lineitem".toList]

/-- `main` of `generate_tpch_delta`. -/
def generateTpchDelta (env : Environment) (spark : Spark) (scale : Int) : Program World Unit :=
  ifFixture (.tpch scale) (fun x => tpchDeltaTables.all x.parquet.has)
    (stageDelta env spark (.tpch scale) tpchDeltaTables) (halt .raised)

/-- `main` of `generate_tpcds_delta`, whose source is DuckDB's own tables. -/
def generateTpcdsDelta (env : Environment) (spark : Spark) (scale : Int) : Program World Unit := do
  stageParquet env (.tpcds scale) (fun _ => true) Suite.tpcds.tables
  stageDelta env spark (.tpcds scale) Suite.tpcds.tables
  -- `extract_queries` touches no fixture
  checkpoint env

/-- `main` of `generate_job_delta`. -/
def generateJobDelta (env : Environment) (spark : Spark) : Program World Unit := do
  -- `download_imdb`, `extract_imdb`
  checkpoint env
  checkpoint env
  stageParquet env .job env.csvs Suite.job.tables
  stageDelta env spark .job Suite.job.tables

/-- The sources of `generate_ssb_delta`. -/
def ssbSources : List Str :=
  ["lineitem".toList, "orders".toList, "partsupp".toList, "customer".toList, "supplier".toList,
   "nation".toList, "region".toList, "part".toList]

/-- The preflight looks for a parquet file, so one is stamped beside the tables. -/
def ssbMarker : Str := "_marker".toList

/-- `main` of `generate_ssb_delta`. -/
def generateSsbDelta (env : Environment) (spark : Spark) (scale : Int) : Program World Unit :=
  ifFixture (.tpch scale) (fun x => ssbSources.all x.delta.has) (do
    checkpoint env
    forEach (readDelta spark (.tpch scale)) ssbSources
    forEach (writeTable env (.ssb scale) fun _ => pure ()) Suite.ssb.tables
    ifFixture (.ssb scale) (·.parquet.has ssbMarker) (pure ()) (copyTo env (.ssb scale) ssbMarker))
    (halt .raised)

/-! ## What a directory may look like -/

/-- Every table is completely written. -/
def Complete (tables : List Str) (dir : Directory) : Prop :=
  ∀ t ∈ tables, get? dir t = some .complete

instance (tables : List Str) (dir : Directory) : Decidable (Complete tables dir) :=
  inferInstanceAs (Decidable (∀ t ∈ tables, get? dir t = some .complete))

/-- No table is half written. -/
def Settled (dir : Directory) : Prop := ∀ t m, get? dir t = some m → m = .complete

/-- What holds of a directory at every moment: the marker of SSB is written after
its tables, and the tables of the others after their parquet files. -/
def Consistent (f : Folder) (x : Fixture) : Prop :=
  match f with
  | .ssb _ => x.parquet ≠ [] → Complete f.suite.tables x.delta
  | _ => x.delta ≠ [] → x.parquet ≠ []

theorem set_ne_nil (dir : Directory) (t : Str) (m : Mark) : set dir t m ≠ [] := by
  cases dir with
  | nil => exact List.cons_ne_nil _ _
  | cons e rest =>
    unfold DeltaForgeBench.Base.Dict.set
    split <;> exact List.cons_ne_nil _ _

theorem Directory.ne_nil_of_get? {dir : Directory} {t : Str} {m : Mark} (h : get? dir t = some m) :
    dir ≠ [] := by
  rintro rfl
  cases h

theorem Complete.ne_nil {s : Suite} {dir : Directory} (h : Complete s.tables dir) : dir ≠ [] := by
  obtain ⟨t, ht⟩ := List.exists_mem_of_ne_nil _ s.tables_ne_nil
  exact Directory.ne_nil_of_get? (h t ht)

theorem settled_nil : Settled [] := fun t m h => by cases h

/-- A table written to its end. -/
theorem Settled.written {dir : Directory} (h : Settled dir) (t : Str) :
    Settled (set (set dir t .begun) t .complete) := by
  intro t' m hm
  rw [get?_set, get?_set] at hm
  split at hm
  · exact (Option.some.inj hm).symm
  · exact h t' m hm

theorem Complete.written {tables : List Str} {dir : Directory} (h : Complete tables dir) (t : Str) :
    Complete (tables ++ [t]) (set (set dir t .begun) t .complete) := by
  intro t' ht'
  rw [get?_set, get?_set]
  split
  · rfl
  · rename_i hne
    rcases List.mem_append.mp ht' with ht' | ht'
    · exact h t' ht'
    · exact absurd (List.mem_singleton.mp ht').symm hne

/-! ## Programs that work in one directory -/

/-- From a directory in `P` a normal end leaves one in `Q`; at any moment it is
consistent, and no other directory is touched. -/
def Works (f : Folder) (P Q : Fixture → Prop) (p : Program World Unit) : Prop :=
  ∀ d : Disk, Triple (fun w => ∃ x, P x ∧ Consistent f x ∧ w.disk = Function.update d f x) p
    (fun _ w => ∃ x, Q x ∧ Consistent f x ∧ w.disk = Function.update d f x)
    (fun _ w => ∃ x, Consistent f x ∧ w.disk = Function.update d f x)

variable {f : Folder} {P Q S : Fixture → Prop} {env : Environment}

theorem Works.pure (h : ∀ x, P x → Consistent f x → Q x) : Works f P Q (Pure.pure ()) :=
  fun _ => Triple.pure fun _ ⟨x, hx, hc, hd⟩ => ⟨x, h x hx hc, hc, hd⟩

theorem Works.raise : Works f P Q (halt .raised) :=
  fun _ => Triple.halt fun _ ⟨x, _, hc, hd⟩ => ⟨x, hc, hd⟩

theorem Works.bind {p q : Program World Unit} (hp : Works f P Q p) (hq : Works f Q S q) :
    Works f P S (do p; q) :=
  fun d => (hp d).bind fun _ => hq d

theorem Works.weaken {P' Q' : Fixture → Prop} {p : Program World Unit} (h : Works f P Q p)
    (pre : ∀ x, P' x → Consistent f x → P x) (post : ∀ x, Q x → Q' x) : Works f P' Q' p :=
  fun d => (h d).weaken (fun _ ⟨x, hx, hc, hd⟩ => ⟨x, pre x hx hc, hc, hd⟩)
    (fun _ _ ⟨x, hx, hc⟩ => ⟨x, post x hx, hc⟩) fun _ _ h => h

theorem Works.forEach {body : Str → Program World Unit} (I : List Str → Fixture → Prop)
    (xs : List Str) (step : ∀ done t, done ++ [t] <+: xs → Works f (I done) (I (done ++ [t])) (body t)) :
    Works f (I []) (I xs) (forEach body xs) :=
  fun d => Triple.forEach (fun done (w : World) => ∃ x, I done x ∧ Consistent f x ∧
    w.disk = Function.update d f x) xs fun done t ht => step done t ht d

theorem Works.checkpoint : Works f P P (checkpoint env) := by
  refine fun d => Triple.read fun w hw => Triple.ite (fun _ => ?_) fun _ => ?_
  · obtain ⟨x, -, hc, hd⟩ := hw
    exact Triple.halt fun _ h => ⟨x, hc, h ▸ hd⟩
  · obtain ⟨x, hx, hc, hd⟩ := hw
    exact Triple.modify fun _ h => ⟨x, hx, hc, h ▸ hd⟩

theorem Works.edit {g : Fixture → Fixture}
    (h : ∀ x, P x → Consistent f x → Q (g x) ∧ Consistent f (g x)) :
    Works f P Q (edit env f g) := by
  refine Works.bind .checkpoint fun d => Triple.modify ?_
  rintro w ⟨x, hx, hc, hd⟩
  obtain ⟨hq, hc'⟩ := h x hx hc
  exact ⟨g x, hq, hc', by simp [hd]⟩

theorem Works.ifFixture {c : Fixture → Bool} {yes no : Program World Unit}
    (hyes : Works f (fun x => P x ∧ c x = true) Q yes)
    (hno : Works f (fun x => P x ∧ c x = false) Q no) : Works f P Q (ifFixture f c yes no) := by
  refine fun d => Triple.read fun w ⟨x, hx, hcons, hd⟩ => ?_
  have same : w.disk f = x := by rw [hd, Function.update_self]
  refine Triple.ite (fun hc => ?_) fun hc => ?_
  · rw [same] at hc
    exact (hyes d).weaken (fun _ h => ⟨x, ⟨hx, hc⟩, hcons, h ▸ hd⟩) (fun _ _ h => h) fun _ _ h => h
  · rw [same, Bool.not_eq_true] at hc
    exact (hno d).weaken (fun _ h => ⟨x, ⟨hx, hc⟩, hcons, h ▸ hd⟩) (fun _ _ h => h) fun _ _ h => h

/-- A look at any directory. -/
theorem Works.ifAny {f' : Folder} {c : Fixture → Bool} {yes no : Program World Unit}
    (hyes : Works f P Q yes) (hno : Works f P Q no) :
    Works f P Q (DataGen.Fixtures.ifFixture f' c yes no) := by
  refine fun d => Triple.read fun w hw => Triple.ite (fun _ => ?_) fun _ => ?_
  · exact (hyes d).weaken (fun _ h => h ▸ hw) (fun _ _ h => h) fun _ _ h => h
  · exact (hno d).weaken (fun _ h => h ▸ hw) (fun _ _ h => h) fun _ _ h => h

/-! ## Staging -/

theorem consistent_of_parquet {x : Fixture} (hf : ∀ scale, f ≠ .ssb scale) (h : x.parquet ≠ []) :
    Consistent f x := by
  cases f with
  | ssb scale => exact absurd rfl (hf scale)
  | _ => exact fun _ => h

/-- Staging leaves the tables as they are. -/
theorem copyTo_works {dir : Directory} (hf : ∀ scale, f ≠ .ssb scale) (t : Str) :
    Works f (·.delta = dir) (·.delta = dir) (copyTo env f t) := by
  have put : ∀ m, Works f (·.delta = dir) (·.delta = dir) (edit env f (.putParquet t m)) :=
    fun m => .edit fun x hx _ => ⟨hx, consistent_of_parquet hf (set_ne_nil x.parquet t m)⟩
  exact (put .begun).bind (put .complete)

theorem stageParquet_works {dir : Directory} (hf : ∀ scale, f ≠ .ssb scale) (source : Str → Bool)
    (tables : List Str) :
    Works f (·.delta = dir) (·.delta = dir) (stageParquet env f source tables) := by
  have table : ∀ t, Works f (·.delta = dir) (·.delta = dir) (stageTable env f source t) := by
    intro t
    refine .ifAny (.pure fun _ hx _ => hx) ?_
    split
    · exact copyTo_works hf t
    · exact .raise
  exact .ifAny (.pure fun _ hx _ => hx)
    (Works.checkpoint.bind (.forEach (fun _ x => x.delta = dir) tables fun _ t _ => table t))

theorem generateTpch_works {dir : Directory} (scale : Int) :
    Works (.tpch scale) (·.delta = dir) (·.delta = dir) (generateTpch env scale) :=
  Works.checkpoint.bind
    (.forEach (fun _ x => x.delta = dir) _ fun _ t _ => copyTo_works (by rintro _ ⟨⟩) t)

/-! ## Writing the tables -/

/-- A loop over the tables has come this far. -/
structure Progress (done : List Str) (dir : Directory) : Prop where
  settled : Settled dir
  complete : Complete done dir

theorem progress_nil : Progress [] [] := ⟨settled_nil, nofun⟩

theorem Progress.written {done : List Str} {dir : Directory} (h : Progress done dir) (t : Str) :
    Progress (done ++ [t]) (set (set dir t .begun) t .complete) :=
  ⟨h.settled.written t, h.complete.written t⟩

theorem Progress.skip {done : List Str} {dir : Directory} (h : Progress done dir) {t : Str}
    (ht : dir.has t = true) : Progress (done ++ [t]) dir := by
  refine ⟨h.settled, fun t' ht' => ?_⟩
  rcases List.mem_append.mp ht' with ht' | ht'
  · exact h.complete t' ht'
  · obtain rfl := List.mem_singleton.mp ht'
    obtain ⟨m, hm⟩ := Option.isSome_iff_exists.mp ht
    rw [hm, h.settled t' m hm]

/-- While the staged files are so, tables may be written. -/
def Writable (f : Folder) (x : Fixture) : Prop :=
  match f with
  | .ssb _ => x.parquet = []
  | _ => x.parquet ≠ []

theorem Writable.consistent {x : Fixture} (h : Writable f x) : Consistent f x := by
  cases f with
  | ssb => exact fun hne => absurd h hne
  | _ => exact fun _ => h

theorem createTable_works {done : List Str} {G : Directory → Prop} (t : Str) :
    Works f (fun x => (Progress done x.delta ∧ G x.parquet) ∧ Writable f x)
      (fun x => Progress (done ++ [t]) x.delta ∧ G x.parquet) (createTable env f t) := by
  refine Works.bind (Q := fun y => ∃ x, ((Progress done x.delta ∧ G x.parquet) ∧ Writable f x) ∧
    y = x.putDelta t .begun) (.edit fun x hx _ => ⟨⟨x, hx, rfl⟩, ?_⟩) (.edit ?_)
  · exact Writable.consistent (x := x.putDelta t .begun) hx.2
  · rintro _ ⟨x, ⟨⟨hprogress, hG⟩, hw⟩, rfl⟩ -
    refine ⟨⟨hprogress.written t, hG⟩, ?_⟩
    exact Writable.consistent (x := (x.putDelta t .begun).putDelta t .complete) hw

/-- One table, when its source can be read only while tables may be written. -/
theorem writeTable_works {done : List Str} {G : Directory → Prop}
    {source : Str → Program World Unit} (t : Str)
    (hsource : Works f (fun x => Progress done x.delta ∧ G x.parquet)
      (fun x => (Progress done x.delta ∧ G x.parquet) ∧ Writable f x) (source t)) :
    Works f (fun x => Progress done x.delta ∧ G x.parquet)
      (fun x => Progress (done ++ [t]) x.delta ∧ G x.parquet) (writeTable env f source t) := by
  refine .ifFixture (.pure fun x hx _ => ⟨hx.1.1.skip hx.2, hx.1.2⟩) ?_
  exact (hsource.bind (createTable_works t)).weaken (fun _ hx _ => hx.1) fun _ hx => hx

theorem stageDelta_works {spark : Spark} (hf : ∀ scale, f ≠ .ssb scale) (tables : List Str) :
    Works f (·.delta = []) (fun x => Complete tables x.delta) (stageDelta env spark f tables) := by
  have table : ∀ done t, Works f (fun x => Progress done x.delta ∧ True)
      (fun x => Progress (done ++ [t]) x.delta ∧ True) (writeTable env f (readParquet spark f) t) := by
    refine fun done t => writeTable_works (G := fun _ => True) t (.ifFixture (.pure ?_) .raise)
    rintro x ⟨hx, hopens⟩ -
    obtain ⟨m, hm, -⟩ := (Option.any_eq_true _ _).mp hopens
    have staged := Directory.ne_nil_of_get? hm
    refine ⟨hx, ?_⟩
    cases f with
    | ssb scale => exact absurd rfl (hf scale)
    | _ => exact staged
  refine Works.checkpoint.bind (Works.weaken
    (.forEach (fun done x => Progress done x.delta ∧ True) tables fun done t _ => table done t)
    (fun x hx _ => ⟨?_, trivial⟩) fun x hx => hx.1.complete)
  rw [hx]
  exact progress_nil

/-! ## The four generators -/

theorem generateTpchDelta_works {spark : Spark} (scale : Int) :
    Works (.tpch scale) (·.delta = []) (fun x => Complete Suite.tpch.tables x.delta)
      (generateTpchDelta env spark scale) := by
  refine .ifAny ((stageDelta_works (by rintro _ ⟨⟩) tpchDeltaTables).weaken (fun _ hx _ => hx) ?_) .raise
  have same : ∀ t ∈ Suite.tpch.tables, t ∈ tpchDeltaTables := by decide
  exact fun x hx t ht => hx t (same t ht)

theorem generateTpcdsDelta_works {spark : Spark} (scale : Int) :
    Works (.tpcds scale) (·.delta = []) (fun x => Complete Suite.tpcds.tables x.delta)
      (generateTpcdsDelta env spark scale) :=
  (stageParquet_works (by rintro _ ⟨⟩) _ _).bind ((stageDelta_works (by rintro _ ⟨⟩) _).bind .checkpoint)

theorem generateJobDelta_works {spark : Spark} :
    Works .job (·.delta = []) (fun x => Complete Suite.job.tables x.delta)
      (generateJobDelta env spark) :=
  Works.checkpoint.bind (Works.checkpoint.bind
    ((stageParquet_works (by rintro _ ⟨⟩) _ _).bind (stageDelta_works (by rintro _ ⟨⟩) _)))

theorem generateSsbDelta_works {spark : Spark} (scale : Int) :
    Works (.ssb scale) (·.delta = []) (fun x => Complete Suite.ssb.tables x.delta)
      (generateSsbDelta env spark scale) := by
  have sources : Works (.ssb scale) (·.delta = []) (·.delta = [])
      (forEach (readDelta spark (.tpch scale)) ssbSources) :=
    .forEach (fun _ x => x.delta = []) _ fun _ _ _ => .ifAny (.pure fun _ hx _ => hx) .raise
  have tables : Works (.ssb scale) (·.delta = []) (fun x => Complete Suite.ssb.tables x.delta)
      (forEach (writeTable env (.ssb scale) fun _ => pure ()) Suite.ssb.tables) := by
    refine Works.weaken (.forEach (fun done x => Progress done x.delta ∧ x.parquet = []) _
      fun done t _ => writeTable_works (G := (· = [])) t (.pure fun x hx _ => ⟨hx, hx.2⟩))
      (fun x hx hc => ?_) fun x hx => hx.1.complete
    rw [hx]
    refine ⟨progress_nil, ?_⟩
    by_contra hne
    -- a marker without tables
    exact (hc hne).ne_nil hx
  have marker : ∀ m, Works (.ssb scale) (fun x => Complete Suite.ssb.tables x.delta)
      (fun x => Complete Suite.ssb.tables x.delta)
      (edit env (.ssb scale) (.putParquet ssbMarker m)) :=
    fun m => .edit fun x hx _ => ⟨hx, fun _ => hx⟩
  exact .ifAny (Works.checkpoint.bind (sources.bind (tables.bind
    (.ifAny (.pure fun _ hx _ => hx) ((marker .begun).bind (marker .complete)))))) .raise

end DeltaForgeBench.DataGen.Fixtures
