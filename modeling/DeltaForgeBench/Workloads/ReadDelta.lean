import DeltaForgeBench.Workloads.DfCatalog
import DeltaForgeBench.Workloads.Spec

/-! # The `*_read_delta` workloads

The four read workloads differ in their tables, their zone, the directory their
data is staged in and a few words of description. Each mounts the Delta tables
beside that directory, for df in the catalog and for the others as views, and
then runs its query files. -/
namespace DeltaForgeBench.Workloads.ReadDelta
open DeltaForgeBench.Base.Text DeltaForgeBench.Engines.Base
open DeltaForgeBench.Workloads.DfCatalog DeltaForgeBench.Workloads.Spec

/-- What one of the workload modules fills in. -/
structure Benchmark where
  name : Str
  description : Str
  label : Str
  mount : Str
  tables : List Str
  zone : Str
  dataSubdir : Str
  nonempty : tables ≠ []
  free : '{' ∉ zone ∧ ∀ t ∈ tables, '{' ∉ t

/-- A file `queries/q*.sql`. -/
structure QueryFile where
  stem : Str
  text : Str

/-- `_DELTA_ROOT`. -/
def deltaRoot : Str := "{data_dir}_delta".toList

/-- `_SCHEMA`. -/
def schema : Str := "rd".toList

/-! ## Per-engine setup -/

def Benchmark.dfSetup (b : Benchmark) : Str := dfRegisterSetup b.zone schema deltaRoot b.tables

def dropView (t : Str) : Str := "DROP VIEW IF EXISTS ".toList ++ t

def duckdbView (root t : Str) : Str :=
  "CREATE OR REPLACE VIEW ".toList ++ t ++ " AS SELECT * FROM delta_scan('".toList ++
    root ++ ['/'] ++ t ++ "')".toList

def sparkView (root t : Str) : Str :=
  "CREATE OR REPLACE TEMPORARY VIEW ".toList ++ t ++ " USING delta OPTIONS (path '".toList ++
    root ++ ['/'] ++ t ++ "')".toList

def Benchmark.duckdbSetup (b : Benchmark) : Str :=
  join ";\n".toList
    (["INSTALL delta".toList, "LOAD delta".toList] ++
      b.tables.flatMap fun t => [dropView t, duckdbView deltaRoot t])

def Benchmark.sparkSetup (b : Benchmark) : Str :=
  join ";\n".toList (b.tables.map (sparkView deltaRoot))

/-- `_duckdb_cleanup` and `_spark_cleanup`. -/
def Benchmark.dropViews (b : Benchmark) : Str := join ";\n".toList (b.tables.map dropView)

/-! ## Steps -/

/-- df only: the catalog outlives the session, so this step runs once. -/
def Benchmark.catalogSetupSteps (b : Benchmark) : List WorkloadStep :=
  [{ id := "register_delta_catalog".toList
     kind := .sqlDdl
     perEngineSql := some [("df".toList, b.dfSetup)]
     description := "Register ".toList ++ b.label ++
       " Delta tables in the DeltaForge catalog (once)".toList
     measured := false }]

def Benchmark.setupSteps (b : Benchmark) : List WorkloadStep :=
  [{ id := "register_delta_tables".toList
     kind := .sqlDdl
     perEngineSql := some
       [("duckdb".toList, b.duckdbSetup), ("spark-default".toList, b.sparkSetup),
        ("spark-tuned".toList, b.sparkSetup)]
     description := b.mount
     measured := false }]

def Benchmark.cleanupSteps (b : Benchmark) : List WorkloadStep :=
  [{ id := "unregister_delta_tables".toList
     kind := .sqlDdl
     perEngineSql := some
       [("duckdb".toList, b.dropViews), ("spark-default".toList, b.dropViews),
        ("spark-tuned".toList, b.dropViews)]
     description := "Drop per-engine Delta mounts".toList
     measured := false }]

/-- `_load_query_steps`, over the files in the order they are visited. -/
def Benchmark.loadQuerySteps (b : Benchmark) (letters : Letters) (files : List QueryFile) :
    List WorkloadStep :=
  files.map fun file =>
    let sql := rstrip (rstripChar ';' (strip file.text))
    { id := file.stem
      kind := .sqlQuery
      sql := some sql
      perEngineSql := some [("df".toList, dfQualify ⟨b.tables, b.zone, schema, letters⟩ sql)]
      description := b.label ++ [' '] ++ upper file.stem ++ " (Delta read)".toList
      expectsRows := true }

def Benchmark.workload (b : Benchmark) (letters : Letters) (files : List QueryFile) : Workload where
  name := b.name
  description := b.description
  catalogSetupSteps := b.catalogSetupSteps
  setupSteps := b.setupSteps
  measuredSteps := b.loadQuerySteps letters files
  cleanupSteps := b.cleanupSteps
  dataSubdir := b.dataSubdir

/-! ## The four workloads -/

def tpch : Benchmark where
  name := "tpch_read_delta".toList
  description := "22 canonical TPC-H read queries against plain Delta tables (no DV).".toList
  label := "TPC-H".toList
  mount := "Per-engine Delta mount (DuckDB: load delta+views; Spark: views)".toList
  tables := ["lineitem".toList, "orders".toList, "customer".toList, "supplier".toList,
    "part".toList, "partsupp".toList, "nation".toList, "region".toList]
  zone := "tpch".toList
  dataSubdir := "tpch_sf{scale}".toList
  nonempty := by decide
  free := by decide

def tpcds : Benchmark where
  name := "tpcds_read_delta".toList
  description := "99 canonical TPC-DS read queries against plain Delta tables (no DV).".toList
  label := "TPC-DS".toList
  mount := "Per-engine Delta mount (DuckDB: load delta+views; Spark: views)".toList
  tables := ["call_center".toList, "catalog_page".toList, "catalog_returns".toList,
    "catalog_sales".toList, "customer".toList, "customer_address".toList,
    "customer_demographics".toList, "date_dim".toList, "household_demographics".toList,
    "income_band".toList, "inventory".toList, "item".toList, "promotion".toList,
    "reason".toList, "ship_mode".toList, "store".toList, "store_returns".toList,
    "store_sales".toList, "time_dim".toList, "warehouse".toList, "web_page".toList,
    "web_returns".toList, "web_sales".toList, "web_site".toList]
  zone := "tpcds".toList
  dataSubdir := "tpcds_sf{scale}".toList
  nonempty := by decide
  free := by decide

def ssb : Benchmark where
  name := "ssb_read_delta".toList
  description := "13 canonical SSB queries against a 5-table plain Delta star schema.".toList
  label := "SSB".toList
  mount := "Per-engine SSB Delta mount (session-local views)".toList
  tables := ["date".toList, "part".toList, "supplier".toList, "customer".toList,
    "lineorder".toList]
  zone := "ssb".toList
  dataSubdir := "ssb_sf{scale}".toList
  nonempty := by decide
  free := by decide

def job : Benchmark where
  name := "job_read_delta".toList
  description := "113 JOB queries against the IMDB snapshot as plain Delta tables.".toList
  label := "JOB".toList
  mount := "Per-engine JOB Delta mount (session-local views)".toList
  tables := ["aka_name".toList, "aka_title".toList, "cast_info".toList, "char_name".toList,
    "comp_cast_type".toList, "company_name".toList, "company_type".toList,
    "complete_cast".toList, "info_type".toList, "keyword".toList, "kind_type".toList,
    "link_type".toList, "movie_companies".toList, "movie_info".toList,
    "movie_info_idx".toList, "movie_keyword".toList, "movie_link".toList, "name".toList,
    "person_info".toList, "role_type".toList, "title".toList]
  zone := "job".toList
  dataSubdir := "job".toList
  nonempty := by decide
  free := by decide

def benchmarks : List Benchmark := [tpch, tpcds, ssb, job]

end DeltaForgeBench.Workloads.ReadDelta
