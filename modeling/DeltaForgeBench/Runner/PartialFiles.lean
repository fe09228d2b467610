import Mathlib.Data.Rat.Encodable
import DeltaForgeBench.Base.JsonCompact
import DeltaForgeBench.Base.TextFiles
import DeltaForgeBench.Runner.Schedule
import DeltaForgeBench.ScaleOut.Aggregate

/-! # Reading record files that were cut off

Every record is one line of JSON in ASCII. The report and the aggregator both
stop at the first line that is no document, so a record that was cut in the
middle takes the rest of the run with it. -/
namespace DeltaForgeBench.Runner.PartialFiles
open DeltaForgeBench.Base.Text DeltaForgeBench.Base.Dict DeltaForgeBench.Base.JsonText
open DeltaForgeBench.Base.JsonPretty DeltaForgeBench.Base.JsonCompact
open DeltaForgeBench.Base DeltaForgeBench.Base.TextFiles DeltaForgeBench.Engines.Base
open DeltaForgeBench.Workloads.Spec DeltaForgeBench.Runner
open DeltaForgeBench.Runner.RunWorkload DeltaForgeBench.ScaleOut.Aggregate

variable {ν : Type} {number : Str → ν}

/-- Python's two kinds of numbers as the reader has them back. -/
structure Numbers (number : Str → ν) where
  printer : Printer number
  int : Int → ν
  float : ℚ → ν
  toInt : ν → Option Int
  toFloat : ν → ℚ
  toInt_int : ∀ n, toInt (int n) = some n
  toFloat_float : ∀ x, toFloat (float x) = x

/-! ## Writing -/

def points (s : Str) : Points := s.map Char.toNat

def key (name : String) : Points := points name.toList

def text (s : Str) : Json ν := .str (points s)

def optional {α : Type} (f : α → Json ν) : Option α → Json ν
  | none => .null
  | some x => f x

def metricJson (N : Numbers number) : Metric → Json ν
  | .num x => .num (N.float x)
  | .text s => text s

/-- The items of a dict in the order of `sort_keys`. -/
def sortKeys (members : List (Points × Json ν)) : List (Points × Json ν) :=
  members.insertionSort fun a b => a.1 ≤ b.1

def extraMembers (N : Numbers number) (extra : List (Str × Metric)) : List (Points × Json ν) :=
  sortKeys (extra.foldl (fun d item => set d (points item.1) (metricJson N item.2)) [])

/-- The dict of a record, by its sorted keys. -/
def recordMembers (N : Numbers number) (r : Record) : List (Points × Json ν) :=
  let float : Option ℚ → Json ν := optional fun x => .num (N.float x)
  [(key "cold", .bool r.cold),
   (key "cpu_pct_avg", float r.cpuPctAvg),
   (key "engine", text r.engine),
   (key "engine_reported_ms", float r.engineReportedMs),
   (key "error", optional text r.error),
   (key "exit_code", .num (N.int r.exitCode)),
   (key "extra", optional (fun e => .obj (extraMembers N e)) r.extra),
   (key "purge_verified", .bool r.purgeVerified),
   (key "result_sha256", optional text r.resultSha256),
   (key "rows_returned", optional (fun n => .num (N.int n)) r.rowsReturned),
   (key "rss_peak_mb", float r.rssPeakMb),
   (key "run_idx", .num (N.int r.runIdx)),
   (key "step_description", text r.stepDescription),
   (key "step_id", text r.stepId),
   (key "step_kind", text r.stepKind.text),
   (key "timestamp_utc", text r.timestampUtc),
   (key "wall_ms", .num (N.float r.wallMs)),
   (key "workload", text r.workload)]

def recordJson (N : Numbers number) (r : Record) : Json ν := .obj (recordMembers N r)

/-- `json.dumps(rec, sort_keys=True)`. -/
def recordText (N : Numbers number) (r : Record) : Str := compact N.printer (recordJson N r)

/-! ## Reading -/

/-- One file of `load_records`; `none` when it raises. -/
def loadFile (number : Str → ν) (file : List UInt8) : Option (List (Json ν)) := do
  let t ← decode file
  (contentLines t).mapM (loads number)

/-- `load_records`, from the files in the order of their names. -/
def loadRecords (number : Str → ν) (files : List (List UInt8)) : Option (List (Json ν)) :=
  (files.mapM (loadFile number)).map List.flatten

def field (members : List (Points × Json ν)) (name : String) : Option (Json ν) :=
  get? members (key name)

/-- A field of text that may be absent or null. -/
def readText : Option (Json ν) → Option (Option Str)
  | none => some none
  | some .null => some none
  | some (.str s) => some (some (s.map Char.ofNat))
  | _ => none

def readBool : Option (Json ν) → Option Bool
  | none => some false
  | some (.bool b) => some b
  | _ => none

def readNumber {α : Type} (f : ν → Option α) : Option (Json ν) → Option (Option α)
  | none => some none
  | some (.num x) => (f x).map some
  | _ => none

/-- The fields `load_query_timings` asks for; `none` where one has a type that
no run writes. -/
def timingRecord (N : Numbers number) : Json ν → Option TimingRecord
  | .obj members => do
    let stepKind ← readText (field members "step_kind")
    let stepId ← readText (field members "step_id")
    let exitCode ← readNumber N.toInt (field members "exit_code")
    let wallMs ← readNumber (fun x => some (N.toFloat x)) (field members "wall_ms")
    let cold ← readBool (field members "cold")
    return { stepKind := stepKind, stepId := stepId, exitCode := exitCode, wallMs := wallMs, cold := cold }
  | _ => none

/-- The lines of a stream's file. -/
def streamLines (N : Numbers number) (file : List UInt8) : Lines :=
  match decode file with
  | none => [none]
  | some t => (contentLines t).map fun line => (loads number line).bind (timingRecord N)

/-! ## Cut files -/

/-- The file of some records, cut behind a byte. -/
structure Cut where
  records : List Record
  bytes : Nat

variable (N : Numbers number)

def Cut.file (c : Cut) : List UInt8 := (encode (written (recordText N) c.records)).take c.bytes

/-- The records whose line is there up to its last character. -/
def Cut.whole (c : Cut) : List Record :=
  DeltaForgeBench.Base.TextFiles.whole (recordText N) c.bytes c.records

/-- The file does not end inside a record. -/
def Cut.Clean (c : Cut) : Prop := torn (recordText N) c.bytes c.records = []

/-- What `load_query_timings` asks of a record that was written. -/
def timingOf (r : Record) : TimingRecord where
  stepKind := some r.stepKind.text
  stepId := some r.stepId
  exitCode := some r.exitCode
  wallMs := some r.wallMs
  cold := r.cold

def Cut.lines (c : Cut) : Lines := (c.whole N).map fun r => some (timingOf r)

/-- A stream directory with one record file. -/
def stream (name : Str) (lines : Lines) : Entry where
  name := name
  isDir := true
  jsonl := [lines]

/-- Both readers get through the cut files and see the whole records. -/
structure Tolerated (cuts : List Cut) : Prop where
  records : loadRecords number (cuts.map (Cut.file N)) =
    some (cuts.flatMap fun c => (c.whole N).map (recordJson N))
  timings : ∀ c ∈ cuts, (loadQueryTimings (streamLines N (c.file N))).isSome ∧
    loadQueryTimings (streamLines N (c.file N)) = loadQueryTimings (c.lines N)
  /-- The other streams of a run are still pooled. -/
  streams : ∀ (named : List (Str × Cut)), (∀ s ∈ named, s.2 ∈ cuts) → ∀ runTs levels,
    ((named.map fun s => stream s.1 (streamLines N (s.2.file N))).foldlM
        (collectStep runTs levels) []).isSome ∧
      (named.map fun s => stream s.1 (streamLines N (s.2.file N))).foldlM
        (collectStep runTs levels) [] =
      (named.map fun s => stream s.1 (s.2.lines N)).foldlM (collectStep runTs levels) []

/-! ## The text of a record -/

variable {N}

theorem points_valid (s : Str) : ∀ n ∈ points s, n.isValidChar := by
  intro n hn
  obtain ⟨c, -, rfl⟩ := List.mem_map.mp hn
  exact c.valid

theorem printable_members {members : List (Points × Json ν)} :
    PrintableMembers members ↔
      ∀ m ∈ members, (∀ n ∈ m.1, n.isValidChar) ∧ Printable m.2 := by
  induction members with
  | nil => simp [PrintableMembers]
  | cons m ms ih =>
    obtain ⟨k, v⟩ := m
    simp [PrintableMembers, ih, and_assoc]

theorem mem_set {d : List (Points × Json ν)} {k : Points} {v : Json ν} {m : Points × Json ν}
    (h : m ∈ set d k v) : m = (k, v) ∨ m ∈ d := by
  induction d with
  | nil => exact .inl (List.mem_singleton.mp h)
  | cons e rest ih =>
    unfold DeltaForgeBench.Base.Dict.set at h
    split at h
    · rcases List.mem_cons.mp h with rfl | h
      · exact .inl rfl
      · exact .inr (List.mem_cons_of_mem _ h)
    · rcases List.mem_cons.mp h with rfl | h
      · exact .inr List.mem_cons_self
      · exact (ih h).imp_right (List.mem_cons_of_mem _)

theorem printable_metric (m : Metric) : Printable (metricJson N m) := by
  cases m with
  | num x => trivial
  | text s => exact points_valid s

theorem printable_extra (extra : List (Str × Metric)) :
    Printable (.obj (extraMembers N extra)) := by
  have built : ∀ (items : List (Str × Metric)) (d : List (Points × Json ν)),
      (d.map Prod.fst).Nodup → PrintableMembers d →
      let d' := items.foldl (fun d item => set d (points item.1) (metricJson N item.2)) d
      (d'.map Prod.fst).Nodup ∧ PrintableMembers d' := by
    intro items
    induction items with
    | nil => exact fun d hnodup hd => ⟨hnodup, hd⟩
    | cons item items ih =>
      intro d hnodup hd
      refine ih _ (nodup_keys_set hnodup _ _) (printable_members.mpr fun m hm => ?_)
      rcases mem_set hm with rfl | hm
      · exact ⟨points_valid _, printable_metric _⟩
      · exact printable_members.mp hd m hm
  obtain ⟨hnodup, hmembers⟩ := built extra [] List.nodup_nil trivial
  have perm := List.perm_insertionSort (fun a b : Points × Json ν => a.1 ≤ b.1)
    (extra.foldl (fun d item => set d (points item.1) (metricJson N item.2)) [])
  refine ⟨(perm.map Prod.fst).nodup_iff.mpr hnodup, printable_members.mpr fun m hm => ?_⟩
  exact printable_members.mp hmembers m (perm.mem_iff.mp hm)

theorem printable_optional {α : Type} {f : α → Json ν} (h : ∀ x, Printable (f x)) (x : Option α) :
    Printable (optional f x) := by
  cases x with
  | none => trivial
  | some x => exact h x

theorem printable_record (r : Record) : Printable (recordJson N r) := by
  have number : ∀ x : Option ℚ, Printable (optional (fun x => .num (N.float x)) x) :=
    printable_optional fun _ => trivial
  have count : ∀ x : Option Int, Printable (optional (fun n => .num (N.int n)) x) :=
    printable_optional fun _ => trivial
  refine ⟨?_, ?_⟩
  · have keys : (recordMembers N r).map Prod.fst = ["cold", "cpu_pct_avg", "engine",
        "engine_reported_ms", "error", "exit_code", "extra", "purge_verified", "result_sha256",
        "rows_returned", "rss_peak_mb", "run_idx", "step_description", "step_id", "step_kind",
        "timestamp_utc", "wall_ms", "workload"].map key := rfl
    rw [keys]
    decide
  · have valid : ∀ name, ∀ n ∈ key name, n.isValidChar := fun name => points_valid _
    refine ⟨valid _, trivial, valid _, number _, valid _, points_valid _, valid _, number _,
      valid _, printable_optional points_valid _, valid _, trivial, valid _,
      printable_optional printable_extra _, valid _, trivial, valid _,
      printable_optional points_valid _, valid _, count _,
      valid _, number _, valid _, trivial, valid _, points_valid _, valid _, points_valid _,
      valid _, points_valid _, valid _, points_valid _, valid _, trivial, valid _, points_valid _,
      trivial⟩

theorem loads_record (r : Record) : loads number (recordText N r) = some (recordJson N r) :=
  loads_compact N.printer (printable_record r)

/-- The reader of timings has back what was written. -/
theorem timingRecord_record (r : Record) :
    timingRecord N (recordJson N r) = some (timingOf r) := by
  have back : ∀ s : Str, (points s).map Char.ofNat = s := by
    intro s
    simp [points, Function.comp_def]
  have kind : field (recordMembers N r) "step_kind" = some (text r.stepKind.text) := rfl
  have id : field (recordMembers N r) "step_id" = some (text r.stepId) := rfl
  have exit : field (recordMembers N r) "exit_code" = some (.num (N.int r.exitCode)) := rfl
  have wall : field (recordMembers N r) "wall_ms" = some (.num (N.float r.wallMs)) := rfl
  have cold : field (recordMembers N r) "cold" = some (.bool r.cold) := rfl
  simp only [recordJson, timingRecord, kind, id, exit, wall, cold, text, readText, readNumber,
    readBool, back, N.toInt_int, N.toFloat_float]
  rfl

/-- A record's line as the readers of lines want it. -/
theorem recordText_line (r : Record) :
    Unbroken (recordText N r) ∧ recordText N r ≠ [] ∧ strip (recordText N r) = recordText N r := by
  have ascii : Ascii (recordText N r) := ascii_compact N.printer _
  obtain ⟨inner, htext⟩ := compact_object N.printer (recordMembers N r)
  have htext : recordText N r = '{' :: inner ++ ['}'] := htext
  refine ⟨⟨fun h => ?_, fun h => ?_⟩, ?_, ?_⟩
  · exact absurd (ascii _ h).1 (by decide)
  · exact absurd (ascii _ h).1 (by decide)
  · simp [htext]
  · rw [htext]
    simp [strip, lstrip, rstrip, isSpace]

/-- A record that comes first is the first line that is read. -/
theorem first_line (r : Record) (ws : Str) :
    recordText N r ∈ contentLines (recordText N r ++ ['\n'] ++ ws) := by
  obtain ⟨unbroken, hne, hstrip⟩ := recordText_line (N := N) r
  rw [List.append_assoc, List.singleton_append, contentLines_line unbroken, content, hstrip,
    if_neg hne]
  exact List.mem_append_left _ (List.mem_singleton_self _)

/-! ## A cut file -/

theorem ascii_written (records : List Record) :
    ∀ ch ∈ written (recordText N) records, ch.toNat < 0x80 := by
  intro ch hch
  obtain ⟨r, -, hr⟩ := List.mem_flatMap.mp hch
  rcases List.mem_append.mp hr with hr | hr
  · exact (ascii_compact N.printer _ ch hr).2.trans (by decide)
  · exact List.mem_singleton.mp hr ▸ (by decide)

theorem decode_file (c : Cut) :
    decode (c.file N) = some ((written (recordText N) c.records).take c.bytes) := by
  rw [Cut.file, take_encode (ascii_written c.records), decode_encode]

theorem contentLines_file (c : Cut) :
    contentLines ((written (recordText N) c.records).take c.bytes) =
      (c.whole N).map (recordText N) ++ content (torn (recordText N) c.bytes c.records) :=
  contentLines_take (fun r _ => recordText_line r) c.bytes

/-- A torn line is no document. -/
theorem loads_torn {c : Cut} (h : ¬ c.Clean N) :
    ∃ line, content (torn (recordText N) c.bytes c.records) = [line] ∧
      loads number line = none := by
  obtain ⟨r, -, rest, hrest, hcut⟩ := torn_of_ne_nil h
  obtain ⟨inner, htext⟩ := compact_object N.printer (recordMembers N r)
  obtain ⟨cs, hcs⟩ : ∃ cs, torn (recordText N) c.bytes c.records = '{' :: cs := by
    cases htorn : torn (recordText N) c.bytes c.records with
    | nil => exact absurd htorn h
    | cons d ds =>
      rw [htorn] at hcut
      exact ⟨ds, congrArg (· :: ds) (List.cons.inj (hcut.trans htext)).1⟩
  obtain ⟨front, back, hstrip, hfront, -⟩ := exists_strip (torn (recordText N) c.bytes c.records)
  have visible : strip (torn (recordText N) c.bytes c.records) ≠ [] :=
    List.ne_nil_of_mem (mem_strip_of_not_space (c := '{') (by simp [hcs]) rfl)
  have start : front = [] := by
    cases front with
    | nil => rfl
    | cons d ds =>
      have hd : d = '{' := by
        have e := hcs.symm.trans hstrip
        exact (List.cons.inj e).1.symm
      have white := hfront d List.mem_cons_self
      rw [hd] at white
      cases white
  have printable : Printable (.obj (recordMembers N r)) := printable_record r
  have cut : strip (torn (recordText N) c.bytes c.records) ++ (back ++ rest) =
      compact N.printer (.obj (recordMembers N r)) := by
    rw [start, List.nil_append] at hstrip
    rw [← List.append_assoc, ← hstrip]
    exact hcut
  exact ⟨_, if_neg visible, loads_cut N.printer printable cut (by simp [hrest])⟩

theorem loadFile_clean {c : Cut} (h : c.Clean N) :
    loadFile number (c.file N) = some ((c.whole N).map (recordJson N)) := by
  have lines : contentLines ((written (recordText N) c.records).take c.bytes) =
      (c.whole N).map (recordText N) := by
    rw [contentLines_file, show torn _ _ _ = [] from h]
    simp [content, strip, lstrip, rstrip]
  have reads : ((c.whole N).map (recordText N)).mapM (loads number) =
      some ((c.whole N).map (recordJson N)) := by
    rw [List.mapM_map]
    exact mapM_some fun r _ => loads_record r
  rw [loadFile, decode_file, Option.bind_eq_bind, Option.bind_some, lines, reads]

theorem loadFile_torn {c : Cut} (h : ¬ c.Clean N) : loadFile number (c.file N) = none := by
  obtain ⟨line, hline, hloads⟩ := loads_torn h
  rw [loadFile, decode_file, Option.bind_eq_bind, Option.bind_some, contentLines_file, hline]
  exact mapM_none (List.mem_append_right _ List.mem_cons_self) hloads

/-- `load_records` sees the whole records when no file ends inside one, and raises otherwise. -/
theorem loadRecords_iff (N : Numbers number) (cuts : List Cut) :
    loadRecords number (cuts.map (Cut.file N)) =
        some (cuts.flatMap fun c => (c.whole N).map (recordJson N)) ↔ ∀ c ∈ cuts, c.Clean N := by
  constructor
  · intro h
    by_contra hnot
    obtain ⟨c, hc, hclean⟩ : ∃ c ∈ cuts, ¬ c.Clean N := by simpa using hnot
    rw [loadRecords, mapM_none (List.mem_map_of_mem hc) (loadFile_torn hclean)] at h
    cases h
  · intro h
    have files : (cuts.map (Cut.file N)).mapM (loadFile number) =
        some (cuts.map fun c => (c.whole N).map (recordJson N)) := by
      rw [List.mapM_map]
      exact mapM_some fun c hc => loadFile_clean (h c hc)
    rw [loadRecords, files, List.flatMap]
    rfl

/-! ## The timings -/

theorem streamLines_file (c : Cut) :
    streamLines N (c.file N) = c.lines N ++
      (content (torn (recordText N) c.bytes c.records)).map
        fun line => (loads number line).bind (timingRecord N) := by
  have line : ∀ r, (loads number (recordText N r)).bind (timingRecord N) = some (timingOf r) := by
    intro r
    rw [loads_record, Option.bind_some, timingRecord_record]
  rw [streamLines, decode_file]
  simp only [contentLines_file, List.map_append, List.map_map, Function.comp_def, line]
  rfl

theorem readable_timingOf (r : Record) : Readable (some (timingOf r)) :=
  ⟨timingOf r, rfl, fun _ => ⟨rfl, fun _ => rfl⟩⟩

theorem streamLines_clean {c : Cut} (h : c.Clean N) : streamLines N (c.file N) = c.lines N := by
  rw [streamLines_file, show torn _ _ _ = [] from h]
  simp [content, strip, lstrip, rstrip]

theorem loadQueryTimings_lines (c : Cut) : (loadQueryTimings (c.lines N)).isSome := by
  rw [loadQueryTimings_isSome]
  intro line hline
  obtain ⟨r, -, rfl⟩ := List.mem_map.mp hline
  exact readable_timingOf r

/-- `load_query_timings` raises on a file that ends inside a record. -/
theorem loadQueryTimings_iff (c : Cut) :
    (loadQueryTimings (streamLines N (c.file N))).isSome ↔ c.Clean N := by
  constructor
  · intro h
    by_contra hclean
    obtain ⟨line, hline, hloads⟩ := loads_torn hclean
    rw [streamLines_file, hline, loadQueryTimings_isSome] at h
    obtain ⟨r, hr, -⟩ := h none (by simp [hloads])
    cases hr
  · intro h
    rw [streamLines_clean h]
    exact loadQueryTimings_lines c

/-- A collection raises only at a stream that cannot be read. -/
theorem collect_isSome {runTs : Str} {levels : List Int} {root : List Entry}
    (h : ∀ e ∈ root, ∀ lines ∈ e.jsonl, (loadQueryTimings lines).isSome) (samples : Samples) :
    (root.foldlM (collectStep runTs levels) samples).isSome := by
  induction root generalizing samples with
  | nil => rfl
  | cons e rest ih =>
    obtain ⟨he, hrest⟩ := List.forall_mem_cons.mp h
    have step : (collectStep runTs levels samples e).isSome := by
      unfold collectStep
      split
      · rfl
      split
      · rfl
      split
      · rfl
      split
      · rfl
      · rename_i lines hlines
        rw [Option.isSome_map]
        exact he lines (List.mem_of_getLast? hlines)
    obtain ⟨next, hnext⟩ := Option.isSome_iff_exists.mp step
    rw [List.foldlM_cons, hnext]
    exact ih hrest next

/-- **Both readers see the whole records of cut files, and the rest of the run,
when no file ends inside a record, and only then.** -/
theorem tolerated_iff (N : Numbers number) (cuts : List Cut) :
    Tolerated N cuts ↔ ∀ c ∈ cuts, c.Clean N := by
  refine ⟨fun h => (loadRecords_iff N cuts).mp h.records, fun h => ⟨?_, ?_, ?_⟩⟩
  · exact (loadRecords_iff N cuts).mpr h
  · intro c hc
    exact ⟨(loadQueryTimings_iff c).mpr (h c hc), by rw [streamLines_clean (h c hc)]⟩
  · intro named hnamed runTs levels
    have same : (named.map fun s => stream s.1 (streamLines N (s.2.file N))) =
        named.map fun s => stream s.1 (s.2.lines N) :=
      List.map_congr_left fun s hs => by rw [streamLines_clean (h _ (hnamed s hs))]
    rw [same]
    refine ⟨collect_isSome (fun e he lines hlines => ?_) [], rfl⟩
    obtain ⟨s, -, rfl⟩ := List.mem_map.mp he
    obtain rfl := List.mem_singleton.mp hlines
    exact loadQueryTimings_lines s.2

/-! ## The files of a run -/

/-- A write to a record file: the line of a record, or the first characters of one. -/
inductive Write
  | line (rec : Record)
  | torn (rec : Record) (landed : Nat)

def Write.ofEvent? : Event → Option Write
  | .appended rec => some (.line rec)
  | .torn rec landed => some (.torn rec landed)
  | _ => none

def Write.record? : Write → Option Record
  | .line rec => some rec
  | .torn _ _ => none

def Write.text (N : Numbers number) : Write → Str
  | .line rec => recordText N rec ++ ['\n']
  | .torn rec landed => (recordText N rec ++ ['\n']).take landed

/-- What some writes leave in a file. -/
def contents (N : Numbers number) (writes : List Write) : Str := writes.flatMap (Write.text N)

theorem contents_append (N : Numbers number) (ws vs : List Write) :
    contents N (ws ++ vs) = contents N ws ++ contents N vs := List.flatMap_append

theorem contents_lines (N : Numbers number) (records : List Record) :
    contents N (records.map .line) = written (recordText N) records := by
  rw [contents, List.flatMap_map]
  rfl

/-- Behind the whole runs there is no whole line. -/
theorem tail_writes {env : Environment} {job : Job} {runs : List Schedule.Run} {tail : List Event}
    (h : Schedule.Tail env job runs tail) : ∀ e ∈ tail, ∀ rec, e ≠ .appended rec := by
  intro e he rec hrec
  subst hrec
  cases h with
  | nothing => cases he
  | cutOff slot events next unfinished =>
    cases unfinished with
    | purged purge due => simp at he
    | ran purge outcome due => simp at he
    | torn purge result timestamp landed due => simp at he
  | cleanup events complete only =>
    obtain ⟨step, outcome, hran⟩ := only _ he
    cases hran

/-- The writes of a call: the lines of its runs, and at most one torn line. -/
theorem writes_of_conduct {env : Environment} {job : Job} {P : Str}
    {setup : List (WorkloadStep × Option StepResult)} {runs : List Schedule.Run} {tail : List Event}
    {exit : Except Interrupt.Halt (List Record)} {w : World}
    (h : Schedule.Conduct env job P setup runs tail exit w) :
    w.history.filterMap Write.ofEvent? =
      runs.map (fun r => .line (r.record job)) ++ tail.filterMap Write.ofEvent? := by
  have before : (setup.map fun o => Event.ran .setup o.1 o.2).filterMap Write.ofEvent? = [] := by
    refine List.filterMap_eq_nil_iff.mpr fun e he => ?_
    obtain ⟨o, -, rfl⟩ := List.mem_map.mp he
    rfl
  have one : ∀ r : Schedule.Run, (r.events job).filterMap Write.ofEvent? = [.line (r.record job)] := by
    intro r
    rw [Schedule.Run.events]
    cases r.purge <;> rfl
  rw [h.account.history, List.filterMap_append, List.filterMap_append, before, List.nil_append,
    List.filterMap_flatMap, List.flatMap_congr fun r _ => one r, ← List.map_eq_flatMap]

/-- What a call of `run_workload` leaves behind its file is what it wrote. -/
theorem file_written (N : Numbers number) (env : Environment) (hdumps : env.dumps = recordText N)
    (job : Job) (P : Str) :
    (runWorkload env job { file := P }).2.file = P ++
      contents N ((runWorkload env job { file := P }).2.history.filterMap Write.ofEvent?) := by
  obtain ⟨setup, runs, tail, conduct, -⟩ := Schedule.runWorkload_conduct env job P
  have pieces : ∀ events : List Event, (∀ e ∈ events, ∀ rec, e ≠ .appended rec) →
      events.flatMap (Schedule.piece env) = contents N (events.filterMap Write.ofEvent?) := by
    intro events
    induction events with
    | nil => exact fun _ => rfl
    | cons e rest ih =>
      intro h
      obtain ⟨he, hrest⟩ := List.forall_mem_cons.mp h
      rw [List.flatMap_cons, ih hrest]
      cases e with
      | ran phase step outcome => rfl
      | purged outcome => rfl
      | appended rec => exact absurd rfl (he rec)
      | torn rec landed =>
        simp [contents, Schedule.piece, Write.ofEvent?, Write.text, RunWorkload.encode, hdumps]
  rw [writes_of_conduct conduct, conduct.account.file, pieces tail (tail_writes conduct.rest),
    contents_append, List.append_assoc]
  congr 2
  simp only [contents, List.flatMap_map, Write.text, RunWorkload.encode, hdumps]

/-! ## A record cut behind its first byte -/

def tally (n : Nat) : Str := List.replicate (n + 1) '1'

theorem isNumber_tally (n : Nat) : isNumber (tally n) = true := by
  have ones : ∀ (p : Char → Bool), p '1' = true → (tally n).takeWhile p = tally n := fun p hp =>
    List.takeWhile_eq_self_iff.mpr fun c hc => List.eq_of_mem_replicate hc ▸ hp
  have none_left : ∀ (p : Char → Bool), p '1' = true → (tally n).dropWhile p = [] := fun p hp =>
    List.dropWhile_eq_nil_iff.mpr fun c hc => List.eq_of_mem_replicate hc ▸ hp
  have sign : (tally n).head? ≠ some '-' := by simp [tally, List.replicate_succ]
  have integer : isInteger (tally n) = true := by
    simp [tally, List.replicate_succ, isInteger, isDigits, isDigit]
  simp [isNumber, sign, ones, none_left, integer]

/-- Numbers written as tallies. -/
def tallies : Numbers fun t => ((Encodable.decode (t.length - 1)).getD (.inl 0) : ℤ ⊕ ℚ) where
  printer :=
    { print := fun x => tally (Encodable.encode x)
      reads := by
        intro x
        have first : ∀ t : Str, t.head? ≠ some '1' → tally (Encodable.encode x) ≠ t :=
          fun t ht e => ht (e ▸ rfl)
        rw [readScalar, if_neg (first _ (by simp)), if_neg (first _ (by simp)),
          if_neg (first _ (by simp)), if_pos (by rw [isNumber_tally]; rfl)]
        simp [tally]
      chars := fun x c hc => List.eq_of_mem_replicate hc ▸ rfl }
  int := .inl
  float := .inr
  toInt := Sum.getLeft?
  toFloat := Sum.elim (fun _ => 0) id
  toInt_int := fun _ => rfl
  toFloat_float := fun _ => rfl

def oneRecord : Record where
  workload := "tpch_read_delta".toList
  engine := "df".toList
  stepId := "q01".toList
  stepKind := .sqlQuery
  stepDescription := []
  runIdx := 0
  cold := true
  purgeVerified := false
  wallMs := 1500
  engineReportedMs := none
  rssPeakMb := none
  cpuPctAvg := none
  rowsReturned := some 4
  resultSha256 := none
  exitCode := 0
  error := none
  extra := none
  timestampUtc := "2026-05-28T01:02:03+00:00".toList

/-- One byte of a record makes both readers raise. -/
theorem torn_line_raises :
    ¬ ∀ (ν : Type) (number : Str → ν) (N : Numbers number) (cuts : List Cut), Tolerated N cuts := by
  intro h
  have clean := (loadRecords_iff tallies [⟨[oneRecord], 1⟩]).mp (h _ _ tallies _).records
    ⟨[oneRecord], 1⟩ List.mem_cons_self
  obtain ⟨inner, htext⟩ := compact_object tallies.printer (recordMembers tallies oneRecord)
  have htext : recordText tallies oneRecord = '{' :: inner ++ ['}'] := htext
  simp [Cut.Clean, torn, htext] at clean

end DeltaForgeBench.Runner.PartialFiles
