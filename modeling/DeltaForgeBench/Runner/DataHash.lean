import DeltaForgeBench.Base.Dict
import DeltaForgeBench.Runner.Resolve
import DeltaForgeBench.Workloads.ReadDelta

/-! # What the manifest's data hashes pin

`hash_data_dir` digests the parquet files below the directory a workload's data
is staged in. The Delta tables the engines read lie in a sibling of that
directory, so no file of theirs has a part in the manifest. -/
namespace DeltaForgeBench.Runner.DataHash
open DeltaForgeBench.Base DeltaForgeBench.Base.Text DeltaForgeBench.Base.Hashing
open DeltaForgeBench.Engines.Base DeltaForgeBench.Runner.Resolve
open DeltaForgeBench.Workloads.Spec DeltaForgeBench.Workloads.DfCatalog
open DeltaForgeBench.Workloads.ReadDelta

/-- The regular files on disk, each under the text of its path. -/
structure FileSystem where
  files : List (Str × ByteArray)
  nodup : (files.map Prod.fst).Nodup

def FileSystem.read? (fs : FileSystem) (path : Str) : Option ByteArray := Dict.get? fs.files path

def FileSystem.write (fs : FileSystem) (path : Str) (bytes : ByteArray) : FileSystem where
  files := Dict.set fs.files path bytes
  nodup := Dict.nodup_keys_set fs.nodup path bytes

/-- The path lies below the directory. -/
def below (dir path : Str) : Bool := (dir ++ ['/']).isPrefixOf path

/-! ## `hash_data_dir` -/

/-- `path.suffix`, from the last component. -/
def suffix (name : Str) : Str :=
  let ext := name.reverse.takeWhile (· ≠ '.')
  match name.reverse.dropWhile (· ≠ '.') with
  | [] => []
  | _ :: stem => if ext = [] || stem = [] then [] else '.' :: ext.reverse

def isParquet (path : Str) : Bool :=
  suffix ((splitOnChar '/' path).getLast?.getD []) = ".parquet".toList

/-- `hash_data_dir`. Paths compare by their components; a directory that does
not exist has nothing below it. -/
def hashDataDir (H : Digest) (fs : FileSystem) (dataDir : Path) : List (Str × Str) :=
  let found := fs.files.filter fun (path, _) => below dataDir.text path && isParquet path
  (found.insertionSort fun a b => splitOnChar '/' a.1 ≤ splitOnChar '/' b.1).map
    fun (path, bytes) => (path.drop (dataDir.text.length + 1), H.hexdigest bytes)

/-- `workload_data_dir`. -/
def workloadDataDir (root : Path) (workload : Workload) (scale : Int) : Path :=
  root ++ ["data".toList, substitute [("scale".toList, scale.repr.toList)] workload.dataSubdir]

/-- `manifest["data_hashes_by_workload"][workload.name]`. -/
def manifestEntry (H : Digest) (fs : FileSystem) (root : Path) (workload : Workload) (scale : Int) :
    List (Str × Str) :=
  hashDataDir H fs (workloadDataDir root workload scale)

/-! ## What the engines read -/

/-- The keys of `ENGINE_REGISTRY`. -/
inductive Engine
  | sparkDefault | sparkTuned | df | duckdb
  deriving DecidableEq

def Engine.name : Engine → Str
  | .sparkDefault => "spark-default".toList
  | .sparkTuned => "spark-tuned".toList
  | .df => "df".toList
  | .duckdb => "duckdb".toList

/-- The statement names a directory of Delta files: in DuckDB's scan, in Spark's
view, or as a df table's location in its zone. -/
def Names (sql dir : Str) : Prop :=
  "delta_scan('".toList ++ dir ++ "')".toList <:+: sql ∨
  "OPTIONS (path '".toList ++ dir ++ "')".toList <:+: sql ∨
  ∃ root t, dir = root ++ ['/'] ++ t ∧
    "STORAGE_ROOT = '".toList ++ root ++ ['\''] <:+: sql ∧
    "LOCATION '".toList ++ t ++ ['\''] <:+: sql

/-- The engine reads the directory in the workload's catalog, setup or measured steps. -/
def Reads (engine : Engine) (workload : Workload) (dataDir : Path) (scale : Int) (dir : Str) : Prop :=
  ∃ step ∈ workload.catalogSetupSteps ++ workload.setupSteps ++ workload.measuredSteps,
    ∃ sql, (resolveStep step dataDir engine.name scale).sql = some sql ∧ Names sql dir

/-- Where the files of a table lie. -/
def tableDir (dataDir : Path) (t : Str) : Str := dataDirText dataDir ++ "_delta".toList ++ ['/'] ++ t

/-- Every state with this manifest entry has the files the engine reads. -/
def Pinned (H : Digest) (engine : Engine) (root : Path) (workload : Workload) (scale : Int)
    (fs : FileSystem) : Prop :=
  ∀ fs', manifestEntry H fs' root workload scale = manifestEntry H fs root workload scale →
    ∀ dir, Reads engine workload (workloadDataDir root workload scale) scale dir →
      ∀ path, below dir path = true → fs'.read? path = fs.read? path

/-! ## The resolved setup -/

/-- Resolving a script resolves its statements. -/
theorem substitute_script {values : List (Str × Str)} {parts : List Str}
    (h : ∀ p ∈ parts, Closed values p) :
    substitute values (join ";\n".toList parts) =
      join ";\n".toList (parts.map (substitute values)) := by
  have sep : '{' ∉ ";\n".toList := by decide
  rw [(closed_join (closed_of_free sep) h).2, substitute, substituteFrom_of_free sep]

/-- What a resolved statement shows, the resolved script shows. -/
theorem script_shows {values : List (Str × Str)} {parts : List Str}
    (closed : ∀ p ∈ parts, Closed values p) {p text : Str} (hp : p ∈ parts)
    (shown : text <:+: substitute values p) :
    text <:+: substitute values (join ";\n".toList parts) := by
  rw [substitute_script closed]
  exact shown.trans (infix_join (List.mem_map_of_mem hp))

/-- A statement with the Delta root in it, resolved. -/
theorem substitute_deltaRoot {dataDir : Path} {scale : Int} {s t : Str} (hs : '{' ∉ s)
    (ht : '{' ∉ t) :
    Closed (placeholderValues dataDir scale) (s ++ deltaRoot ++ t) ∧
    substitute (placeholderValues dataDir scale) (s ++ deltaRoot ++ t) =
      s ++ (dataDirText dataDir ++ "_delta".toList) ++ t := by
  have split : s ++ deltaRoot ++ t = s ++ "{data_dir}".toList ++ ("_delta".toList ++ t) := by
    rw [show deltaRoot = "{data_dir}".toList ++ "_delta".toList from rfl]
    simp only [List.append_assoc]
  have free : '{' ∉ "_delta".toList ++ t := by
    rw [List.mem_append, not_or]
    exact ⟨by decide, ht⟩
  rw [split]
  obtain ⟨hclosed, htext⟩ := @substitute_dataDir dataDir scale _ _ hs free
  exact ⟨hclosed, by rw [htext]; simp only [List.append_assoc]⟩

theorem duckdbView_eq (root t : Str) : duckdbView root t =
    ("CREATE OR REPLACE VIEW ".toList ++ t ++ " AS SELECT * FROM delta_scan('".toList) ++ root ++
      (['/'] ++ t ++ "')".toList) := by
  unfold duckdbView
  simp only [List.append_assoc]

theorem sparkView_eq (root t : Str) : sparkView root t =
    ("CREATE OR REPLACE TEMPORARY VIEW ".toList ++ t ++ " USING delta OPTIONS (path '".toList) ++
      root ++ (['/'] ++ t ++ "')".toList) := by
  unfold sparkView
  simp only [List.append_assoc]

section Setup
variable {dataDir : Path} {scale : Int} {b : Benchmark} {t : Str}

theorem duckdbView_resolved (ht : '{' ∉ t) :
    Closed (placeholderValues dataDir scale) (duckdbView deltaRoot t) ∧
    substitute (placeholderValues dataDir scale) (duckdbView deltaRoot t) =
      duckdbView (dataDirText dataDir ++ "_delta".toList) t := by
  rw [duckdbView_eq, duckdbView_eq]
  refine substitute_deltaRoot ?_ ?_
  · simp only [List.mem_append, ht, or_false]
    decide
  · simp only [List.mem_append, ht, or_false]
    decide

theorem sparkView_resolved (ht : '{' ∉ t) :
    Closed (placeholderValues dataDir scale) (sparkView deltaRoot t) ∧
    substitute (placeholderValues dataDir scale) (sparkView deltaRoot t) =
      sparkView (dataDirText dataDir ++ "_delta".toList) t := by
  rw [sparkView_eq, sparkView_eq]
  refine substitute_deltaRoot ?_ ?_
  · simp only [List.mem_append, ht, or_false]
    decide
  · simp only [List.mem_append, ht, or_false]
    decide

theorem duckdbSetup_names (ht : t ∈ b.tables) :
    Names (substitute (placeholderValues dataDir scale) b.duckdbSetup) (tableDir dataDir t) := by
  have closed : ∀ p ∈ ["INSTALL delta".toList, "LOAD delta".toList] ++
      b.tables.flatMap (fun t => [dropView t, duckdbView deltaRoot t]),
      Closed (placeholderValues dataDir scale) p := by
    intro p hp
    rcases List.mem_append.mp hp with hp | hp
    · refine closed_of_free ?_
      rcases List.mem_pair.mp hp with h | h <;> rw [h] <;> decide
    · obtain ⟨u, hu, hp⟩ := List.mem_flatMap.mp hp
      have free := b.free.2 u hu
      rcases List.mem_pair.mp hp with h | h
      · rw [h]
        refine closed_of_free ?_
        unfold dropView
        simp only [List.mem_append, free, or_false]
        decide
      · rw [h]
        exact (duckdbView_resolved free).1
  have view : duckdbView deltaRoot t ∈ ["INSTALL delta".toList, "LOAD delta".toList] ++
      b.tables.flatMap (fun t => [dropView t, duckdbView deltaRoot t]) :=
    List.mem_append_right _ (List.mem_flatMap.mpr ⟨t, ht, List.mem_pair.mpr (.inr rfl)⟩)
  have scan : "delta_scan('".toList ++ tableDir dataDir t ++ "')".toList <:+:
      duckdbView (dataDirText dataDir ++ "_delta".toList) t := by
    refine ⟨"CREATE OR REPLACE VIEW ".toList ++ t ++ " AS SELECT * FROM ".toList, [], ?_⟩
    rw [duckdbView_eq, show " AS SELECT * FROM delta_scan('".toList =
      " AS SELECT * FROM ".toList ++ "delta_scan('".toList from rfl]
    simp only [tableDir, List.append_assoc, List.append_nil]
  left
  rw [← (duckdbView_resolved (b.free.2 t ht)).2] at scan
  exact script_shows closed view scan

theorem sparkSetup_names (ht : t ∈ b.tables) :
    Names (substitute (placeholderValues dataDir scale) b.sparkSetup) (tableDir dataDir t) := by
  have closed : ∀ p ∈ b.tables.map (sparkView deltaRoot),
      Closed (placeholderValues dataDir scale) p := by
    intro p hp
    obtain ⟨u, hu, rfl⟩ := List.mem_map.mp hp
    exact (sparkView_resolved (b.free.2 u hu)).1
  have options : "OPTIONS (path '".toList ++ tableDir dataDir t ++ "')".toList <:+:
      sparkView (dataDirText dataDir ++ "_delta".toList) t := by
    refine ⟨"CREATE OR REPLACE TEMPORARY VIEW ".toList ++ t ++ " USING delta ".toList, [], ?_⟩
    rw [sparkView_eq, show " USING delta OPTIONS (path '".toList =
      " USING delta ".toList ++ "OPTIONS (path '".toList from rfl]
    simp only [tableDir, List.append_assoc, List.append_nil]
  right; left
  rw [← (sparkView_resolved (b.free.2 t ht)).2] at options
  exact script_shows closed (List.mem_map_of_mem ht) options

theorem createZone_resolved (hz : '{' ∉ b.zone) :
    Closed (placeholderValues dataDir scale) (createZone b.zone deltaRoot) ∧
    substitute (placeholderValues dataDir scale) (createZone b.zone deltaRoot) =
      createZone b.zone (dataDirText dataDir ++ "_delta".toList) := by
  refine substitute_deltaRoot ?_ (by decide)
  simp only [List.mem_append, hz, or_false]
  decide

theorem registerTable_free (hz : '{' ∉ b.zone) (ht : '{' ∉ t) :
    '{' ∉ registerTable b.zone schema t := by
  unfold registerTable
  simp only [List.mem_append, hz, ht, or_false]
  decide

theorem dfSetup_names (ht : t ∈ b.tables) :
    Names (substitute (placeholderValues dataDir scale) b.dfSetup) (tableDir dataDir t) := by
  obtain ⟨hzone, htables⟩ := b.free
  have closed : ∀ p ∈ [createZone b.zone deltaRoot, createSchema b.zone schema] ++
      b.tables.map (registerTable b.zone schema), Closed (placeholderValues dataDir scale) p := by
    intro p hp
    rcases List.mem_append.mp hp with hp | hp
    · rcases List.mem_pair.mp hp with h | h
      · rw [h]
        exact (createZone_resolved hzone).1
      · rw [h]
        refine closed_of_free ?_
        unfold createSchema
        simp only [List.mem_append, hzone, or_false]
        decide
    · obtain ⟨u, hu, h⟩ := List.mem_map.mp hp
      rw [← h]
      exact closed_of_free (registerTable_free hzone (htables u hu))
  have root : "STORAGE_ROOT = '".toList ++ (dataDirText dataDir ++ "_delta".toList) ++ ['\''] <:+:
      substitute (placeholderValues dataDir scale) (createZone b.zone deltaRoot) := by
    rw [(createZone_resolved hzone).2]
    refine ⟨"CREATE ZONE IF NOT EXISTS ".toList ++ b.zone ++ [' '], [], ?_⟩
    unfold createZone
    rw [show " STORAGE_ROOT = '".toList = [' '] ++ "STORAGE_ROOT = '".toList from rfl]
    simp only [List.append_assoc, List.append_nil]
  have location : "LOCATION '".toList ++ t ++ ['\''] <:+:
      substitute (placeholderValues dataDir scale) (registerTable b.zone schema t) := by
    rw [substitute, substituteFrom_of_free (registerTable_free hzone (htables t ht))]
    refine ⟨"REGISTER DELTA TABLE ".toList ++ b.zone ++ ['.'] ++ schema ++ ['.'] ++ t ++ [' '],
      [], ?_⟩
    unfold registerTable
    rw [show " LOCATION '".toList = [' '] ++ "LOCATION '".toList from rfl]
    simp only [List.append_assoc, List.append_nil]
  refine .inr (.inr ⟨dataDirText dataDir ++ "_delta".toList, t, rfl, ?_, ?_⟩)
  · exact script_shows closed (List.mem_append_left _ (List.mem_pair.mpr (.inl rfl))) root
  · exact script_shows closed (List.mem_append_right _ (List.mem_map_of_mem ht)) location

/-- Every engine reads the directory of every table. -/
theorem reads_table (engine : Engine) (letters : Letters) (files : List QueryFile)
    (ht : t ∈ b.tables) : Reads engine (b.workload letters files) dataDir scale (tableDir dataDir t) := by
  cases engine with
  | df =>
    exact ⟨_, List.mem_append_left _ (List.mem_append_left _ (List.mem_singleton.mpr rfl)), _, rfl,
      dfSetup_names ht⟩
  | duckdb =>
    exact ⟨_, List.mem_append_left _ (List.mem_append_right _ (List.mem_singleton.mpr rfl)), _, rfl,
      duckdbSetup_names ht⟩
  | sparkDefault =>
    exact ⟨_, List.mem_append_left _ (List.mem_append_right _ (List.mem_singleton.mpr rfl)), _, rfl,
      sparkSetup_names ht⟩
  | sparkTuned =>
    exact ⟨_, List.mem_append_left _ (List.mem_append_right _ (List.mem_singleton.mpr rfl)), _, rfl,
      sparkSetup_names ht⟩

end Setup

/-! ## What the entry depends on -/

/-- The entry has every staged parquet file in it. -/
theorem staged_of_entry (H : Digest) {fs fs' : FileSystem} {dataDir : Path} {path : Str}
    {bytes : ByteArray} (h : hashDataDir H fs dataDir = hashDataDir H fs' dataDir)
    (hbelow : below dataDir.text path = true) (hparquet : isParquet path = true)
    (hread : fs.read? path = some bytes) : fs'.read? path = some bytes := by
  have found : (path, bytes) ∈ fs.files := (Dict.get?_eq_some_iff fs.nodup).mp hread
  have line : (path.drop (dataDir.text.length + 1), H.hexdigest bytes) ∈ hashDataDir H fs dataDir := by
    refine List.mem_map.mpr ⟨(path, bytes), ?_, rfl⟩
    rw [List.mem_insertionSort, List.mem_filter]
    exact ⟨found, by simp [hbelow, hparquet]⟩
  rw [h] at line
  obtain ⟨⟨path', bytes'⟩, hmem, heq⟩ := List.mem_map.mp line
  rw [List.mem_insertionSort, List.mem_filter] at hmem
  obtain ⟨hrel, hdigest⟩ := Prod.mk.inj heq
  obtain rfl := H.injective hdigest
  have hbelow' : below dataDir.text path' = true := ((Bool.and_eq_true _ _).mp hmem.2).1
  have same : path' = path := by
    obtain ⟨rest, rfl⟩ := List.isPrefixOf_iff_prefix.mp hbelow
    obtain ⟨rest', rfl⟩ := List.isPrefixOf_iff_prefix.mp hbelow'
    have cut : ∀ u : Str, (dataDir.text ++ ['/'] ++ u).drop (dataDir.text.length + 1) = u := by
      intro u
      rw [← List.length_singleton (a := '/'), ← List.length_append, List.drop_left]
    rw [cut, cut] at hrel
    rw [hrel]
  rw [FileSystem.read?, Dict.get?_eq_some_iff fs'.nodup, ← same]
  exact hmem.1

/-- **The entry pins the staged parquet files, and them alone.** -/
theorem staged_pinned (H : Digest) {fs fs' : FileSystem} {dataDir : Path} {path : Str}
    (h : hashDataDir H fs dataDir = hashDataDir H fs' dataDir)
    (hbelow : below dataDir.text path = true) (hparquet : isParquet path = true) :
    fs.read? path = fs'.read? path := by
  apply Option.ext
  intro bytes
  exact ⟨staged_of_entry H h hbelow hparquet, staged_of_entry H h.symm hbelow hparquet⟩

theorem hashDataDir_write (H : Digest) (fs : FileSystem) {dataDir : Path} {path : Str}
    (bytes : ByteArray) (h : below dataDir.text path = false) :
    hashDataDir H (fs.write path bytes) dataDir = hashDataDir H fs dataDir := by
  unfold hashDataDir FileSystem.write
  rw [Dict.filter_set _ (fun _ => by simp [h])]

/-- Right behind the directory's own text there is no separator. -/
theorem table_not_below (dataDir : Path) {t path : Str} (h : below (tableDir dataDir t) path = true) :
    below dataDir.text path = false := by
  obtain ⟨rest, rfl⟩ := List.isPrefixOf_iff_prefix.mp h
  rw [Bool.eq_false_iff]
  intro hbelow
  obtain ⟨rest', hrest⟩ := List.isPrefixOf_iff_prefix.mp hbelow
  have length : (dataDirText dataDir).length = dataDir.text.length := List.length_map _
  have split : tableDir dataDir t ++ ['/'] ++ rest =
      dataDirText dataDir ++ ('_' :: ("delta".toList ++ ['/'] ++ t ++ ['/'] ++ rest)) := by
    unfold tableDir
    rw [show "_delta".toList = '_' :: "delta".toList from rfl]
    simp only [List.append_assoc, List.cons_append]
  rw [split, List.append_assoc] at hrest
  have tails := (List.append_inj hrest length.symm).2
  exact absurd (List.cons.inj tails).1 (by decide)

theorem other_bytes (known : Option ByteArray) : ∃ bytes, known ≠ some bytes := by
  cases known with
  | none => exact ⟨ByteArray.empty, nofun⟩
  | some old =>
    refine ⟨old.push 0, fun h => ?_⟩
    have size := congrArg ByteArray.size (Option.some.inj h)
    rw [ByteArray.size_push] at size
    omega

/-- A file of a table can change under the same entry. -/
theorem table_file_unpinned (H : Digest) (fs : FileSystem) {dataDir : Path} {t path : Str}
    (h : below (tableDir dataDir t) path = true) : ∃ fs' : FileSystem,
    hashDataDir H fs' dataDir = hashDataDir H fs dataDir ∧ fs'.read? path ≠ fs.read? path := by
  obtain ⟨bytes, hbytes⟩ := other_bytes (fs.read? path)
  refine ⟨fs.write path bytes, hashDataDir_write H fs bytes (table_not_below dataDir h), fun e => ?_⟩
  rw [FileSystem.read?, FileSystem.write, Dict.get?_set, if_pos rfl] at e
  exact hbytes e.symm

/-- **In no state of the disk does the manifest pin what an engine reads.** -/
theorem manifest_never_pins (H : Digest) (engine : Engine) (b : Benchmark) (letters : Letters)
    (files : List QueryFile) (root : Path) (scale : Int) (fs : FileSystem) :
    ¬ Pinned H engine root (b.workload letters files) scale fs := by
  intro pinned
  obtain ⟨t, ht⟩ := List.exists_mem_of_ne_nil _ b.nonempty
  let dataDir := workloadDataDir root (b.workload letters files) scale
  have part : below (tableDir dataDir t) (tableDir dataDir t ++ "/part-00000.parquet".toList) = true :=
    List.isPrefixOf_iff_prefix.mpr ⟨"part-00000.parquet".toList, by
      rw [show "/part-00000.parquet".toList = ['/'] ++ "part-00000.parquet".toList from rfl,
        List.append_assoc]⟩
  obtain ⟨fs', hentry, hread⟩ := table_file_unpinned H fs part
  exact hread (pinned fs' hentry _ (reads_table engine letters files ht) _ part)

/-! ## Two states with one manifest -/

def latin : Letters := ⟨fun _ => false, fun _ _ => rfl⟩

def staged (bytes : List UInt8) : FileSystem where
  files :=
    [("/bench/data/tpch_sf1/lineitem.parquet".toList, ⟨#[1]⟩),
     ("/bench/data/tpch_sf1_delta/lineitem/part-0.parquet".toList, ⟨bytes.toArray⟩)]
  nodup := by
    simp only [List.map_cons, List.map_nil]
    decide

/-- The rows of the Delta table are replaced, and the manifest does not change. -/
theorem manifest_misses_delta_rows :
    manifestEntry spelled (staged [2]) ["bench".toList] (tpch.workload latin []) 1 =
      manifestEntry spelled (staged [3]) ["bench".toList] (tpch.workload latin []) 1 ∧
    Reads .duckdb (tpch.workload latin [])
      (workloadDataDir ["bench".toList] (tpch.workload latin []) 1) 1
      "/bench/data/tpch_sf1_delta/lineitem".toList ∧
    below "/bench/data/tpch_sf1_delta/lineitem".toList
      "/bench/data/tpch_sf1_delta/lineitem/part-0.parquet".toList = true ∧
    (staged [2]).read? "/bench/data/tpch_sf1_delta/lineitem/part-0.parquet".toList ≠
      (staged [3]).read? "/bench/data/tpch_sf1_delta/lineitem/part-0.parquet".toList := by
  refine ⟨rfl, ?_, by decide, by decide⟩
  exact reads_table .duckdb latin [] (t := "lineitem".toList) (by decide)

end DeltaForgeBench.Runner.DataHash
