import DeltaForgeBench.Base.Tables
import DeltaForgeBench.Base.Text
import Mathlib.Data.List.ProdSigma
import Mathlib.Data.Rat.Floor

/-! # The edges of the synthetic graph

The setup of a graph with `n` nodes fills its edge table by six statements: four
batches of strides, the fan-out of the hubs and the random ties. Each takes its
ids from a range of its own. Integers are exact; the weight is what the engine's
floating arithmetic makes of it, which is a parameter here. -/
namespace DeltaForgeBench.Workloads.GraphEdges
open DeltaForgeBench.Base.Text DeltaForgeBench.Base.Tables

/-- A row of the edge table. -/
structure Edge (W : Type) where
  id : Int
  src : Int
  dst : Int
  weight : W
  etype : Str

/-- `generate_series(lo, hi)`. -/
def series (lo hi : Int) : List Int :=
  (List.range (hi + 1 - lo).toNat).map fun i : Nat => lo + i

section Batches
variable {W : Type}

-- `ROUND(base + scale*((CAST(key AS DOUBLE)*0.618033988749895) % 1.0), 3)`
variable (weight : ℚ → ℚ → Int → W)

/-! ## The batches -/

/-- `CASE (CAST(src + dst AS BIGINT) % 4) ... END`. -/
def strideType (src dst : Int) : Str :=
  match (src + dst).tmod 4 with
  | 0 => "wire".toList
  | 1 => "ach".toList
  | 2 => "card".toList
  | _ => "debit".toList

def strideEdge (n stride idOff gs : Int) : Edge W :=
  let src := (gs - 1).tmod n + 1
  let dst := ((gs - 1) + stride).tmod n + 1
  { id := idOff + gs
    src := src
    dst := dst
    weight := weight 0.5 0.5 (src * 7 + dst * 13)
    etype := strideType src dst }

/-- `_stride_batch_sql`. -/
def strideBatch (n stride idOff : Int) : List (Edge W) :=
  ((series 1 n).map (strideEdge weight n stride idOff)).filter fun e => e.src ≠ e.dst

def hubEdge (n idOff : Int) (hk : Int × Int) : Edge W :=
  let src := hk.1 * 1000
  let dst := ((hk.1 * 1000 - 1) + hk.2 * 7).tmod n + 1
  { id := idOff + ((hk.1 - 1) * 50 + hk.2)
    src := src
    dst := dst
    weight := weight 0.4 0.5 (src * 31 + dst * 37)
    etype := "hub".toList }

/-- `_hub_batch_sql`. -/
def hubBatch (n : Int) : List (Edge W) :=
  let hubs := n / 1000
  let idOff := 4 * n
  (((series 1 hubs).product (series 1 50)).map (hubEdge weight n idOff)).filter fun e =>
    e.src ≠ e.dst ∧ (1 ≤ e.src ∧ e.src ≤ n) ∧ (1 ≤ e.dst ∧ e.dst ≤ n)

def randomEdge (n idOff i : Int) : Edge W :=
  let src := (i * 104729 + 56891).tmod n + 1
  let dst := (i * 224737 + 31547).tmod n + 1
  { id := idOff + i
    src := src
    dst := dst
    weight := weight 0.05 0.2 (src * 43 + dst * 47)
    etype := "p2p".toList }

/-- `_random_batch_sql`. -/
def randomBatch (n : Int) : List (Edge W) :=
  let half := n / 2
  let idOff := 5 * n
  ((series 1 half).map (randomEdge weight n idOff)).filter fun e => e.src ≠ e.dst

/-! ## The setup -/

/-- The statements of the setup that concern the edge table. -/
inductive Statement (W : Type)
  | dropTable
  | createTable
  | insert (rows : List (Edge W))

/-- A statement on the table, if it exists; `none` is an error. -/
def Statement.exec : Statement W → Option (List (Edge W)) → Option (Option (List (Edge W)))
  | .dropTable, _ => some none
  | .createTable, none => some (some [])
  | .createTable, some _ => none
  | .insert rows, some table => some (some (table ++ rows))
  | .insert _, none => none

def run : List (Statement W) → Option (List (Edge W)) → Option (Option (List (Edge W)))
  | [], table => some table
  | s :: rest, table => (s.exec table).bind (run rest)

/-- The statements for `n` nodes. -/
def edgeStatements (n : Int) : List (Statement W) :=
  [.dropTable,
   .createTable,
   .insert (strideBatch weight n 20 0),
   .insert (strideBatch weight n 40 n),
   .insert (strideBatch weight n 200 (2 * n)),
   .insert (strideBatch weight n 21 (3 * n)),
   .insert (hubBatch weight n),
   .insert (randomBatch weight n)]

/-- `_setup_sql`, as far as it concerns the edge table, for `m` million nodes. -/
def setupSql (m : Int) : List (Statement W) := edgeStatements weight (m * 1000000)

/-- The rows of the six batches for `n` nodes. -/
def edges (n : Int) : List (Edge W) :=
  strideBatch weight n 20 0 ++ strideBatch weight n 40 n ++ strideBatch weight n 200 (2 * n) ++
    strideBatch weight n 21 (3 * n) ++ hubBatch weight n ++ randomBatch weight n

/-- Whatever was there before, the table holds the rows of the six batches. -/
theorem run_edgeStatements (n : Int) (before : Option (List (Edge W))) :
    run (edgeStatements weight n) before = some (some (edges weight n)) := by
  simp [run, edgeStatements, Statement.exec, edges]

/-! ## Series -/

@[simp] theorem mem_series {lo hi x : Int} : x ∈ series lo hi ↔ lo ≤ x ∧ x ≤ hi := by
  rw [series, List.mem_map]
  constructor
  · rintro ⟨i, hi, rfl⟩
    have := List.mem_range.mp hi
    omega
  · rintro ⟨hlo, hhi⟩
    exact ⟨(x - lo).toNat, List.mem_range.mpr (by omega), by omega⟩

theorem nodup_series (lo hi : Int) : (series lo hi).Nodup :=
  List.nodup_range.map fun i j h => by simpa using h

theorem length_series (lo hi : Int) : (series lo hi).length = (hi + 1 - lo).toNat := by
  rw [series, List.length_map, List.length_range]

/-! ## Batches of rows -/

/-- Rows with distinct ids from one range. -/
structure Block (lo hi : Int) (rows : List (Edge W)) : Prop where
  unique : UniqueKey Edge.id rows
  bounds : ∀ e ∈ rows, lo < e.id ∧ e.id ≤ hi

/-- A batch has a row for each of its indices that passes the filter. -/
theorem Block.of_batch {α : Type} {lo hi : Int} {l : List α} (hl : l.Nodup) {f : α → Edge W}
    (hinj : ∀ a ∈ l, ∀ b ∈ l, (f a).id = (f b).id → a = b)
    (hbounds : ∀ a ∈ l, lo < (f a).id ∧ (f a).id ≤ hi) (p : Edge W → Bool) :
    Block lo hi ((l.map f).filter p) where
  unique := by
    refine UniqueKey.filter ?_ p
    rw [UniqueKey, List.map_map]
    exact hl.map_on fun a ha b hb => hinj a ha b hb
  bounds e he := by
    obtain ⟨a, ha, rfl⟩ := List.mem_map.mp (List.mem_of_mem_filter he)
    exact hbounds a ha

/-- Batches from adjacent ranges do not share an id. -/
theorem Block.append {lo mid hi : Int} {rows more : List (Edge W)} (h : Block lo mid rows)
    (hmore : Block mid hi more) (hlo : lo ≤ mid) (hhi : mid ≤ hi) : Block lo hi (rows ++ more) where
  unique := by
    refine uniqueKey_append.mpr ⟨h.unique, hmore.unique, ?_⟩
    intro a ha b hb hab
    have hle := (h.bounds a ha).2
    have hlt := (hmore.bounds b hb).1
    omega
  bounds e he := by
    rcases List.mem_append.mp he with he | he
    · have := h.bounds e he
      omega
    · have := hmore.bounds e he
      omega

/-! ## Each batch -/

section Bounds
variable (n : Int) (hn : 1 ≤ n)
include hn

omit hn in
theorem strideBatch_block (stride : Int) {idOff hi : Int} (hhi : hi = idOff + n) :
    Block idOff hi (strideBatch weight n stride idOff) := by
  refine Block.of_batch (nodup_series 1 n) ?_ ?_ _
  · intro a _ b _ hid
    simp only [strideEdge] at hid
    omega
  · intro a ha
    have hrange := mem_series.mp ha
    simp only [strideEdge]
    omega

/-- The ids of the hubs end below those of the random ties. -/
theorem hubBatch_block : Block (4 * n) (5 * n) (hubBatch weight n) := by
  refine Block.of_batch ((nodup_series 1 _).product (nodup_series 1 50)) ?_ ?_ _
  · rintro ⟨h, k⟩ hhk ⟨h', k'⟩ hhk' hid
    have hk := mem_series.mp (List.mem_product.mp hhk).2
    have hk' := mem_series.mp (List.mem_product.mp hhk').2
    simp only [hubEdge] at hid hk hk'
    -- both `k` lie in the same block of fifty
    have hh : h = h' := by omega
    have hkk : k = k' := by omega
    rw [hh, hkk]
  · rintro ⟨h, k⟩ hhk
    have hh := mem_series.mp (List.mem_product.mp hhk).1
    have hk := mem_series.mp (List.mem_product.mp hhk).2
    simp only [hubEdge] at hh hk ⊢
    omega

omit hn in
theorem randomBatch_block : Block (5 * n) (5 * n + n / 2) (randomBatch weight n) := by
  refine Block.of_batch (nodup_series 1 _) ?_ ?_ _
  · intro a _ b _ hid
    simp only [randomEdge] at hid
    omega
  · intro a ha
    have hrange := mem_series.mp ha
    simp only [randomEdge]
    omega

/-- An edge between two different nodes. -/
structure Proper (n : Int) (e : Edge W) : Prop where
  src_mem : 1 ≤ e.src ∧ e.src ≤ n
  dst_mem : 1 ≤ e.dst ∧ e.dst ≤ n
  ne : e.src ≠ e.dst

theorem node_of_tmod {a : Int} (ha : 0 ≤ a) : 1 ≤ a.tmod n + 1 ∧ a.tmod n + 1 ≤ n := by
  have hlt := Int.tmod_lt_of_pos a (show 0 < n by omega)
  have hnonneg := Int.tmod_nonneg n ha
  omega

theorem strideBatch_proper {stride idOff : Int} (hstride : 0 ≤ stride) :
    ∀ e ∈ strideBatch weight n stride idOff, Proper n e := by
  intro e he
  obtain ⟨hmem, hne⟩ := List.mem_filter.mp he
  obtain ⟨gs, hgs, rfl⟩ := List.mem_map.mp hmem
  have hrange := mem_series.mp hgs
  exact ⟨node_of_tmod n hn (by omega), node_of_tmod n hn (by omega), of_decide_eq_true hne⟩

omit hn in
theorem hubBatch_proper : ∀ e ∈ hubBatch weight n, Proper n e := by
  intro e he
  obtain ⟨hne, hsrc, hdst⟩ := of_decide_eq_true (List.mem_filter.mp he).2
  exact ⟨hsrc, hdst, hne⟩

theorem randomBatch_proper : ∀ e ∈ randomBatch weight n, Proper n e := by
  intro e he
  obtain ⟨hmem, hne⟩ := List.mem_filter.mp he
  obtain ⟨i, hi, rfl⟩ := List.mem_map.mp hmem
  have hrange := mem_series.mp hi
  exact ⟨node_of_tmod n hn (by omega), node_of_tmod n hn (by omega), of_decide_eq_true hne⟩

theorem strideBatch_length (stride idOff : Int) :
    ((strideBatch weight n stride idOff).length : Int) ≤ n := by
  have hfilter := List.length_filter_le (fun e : Edge W => decide (e.src ≠ e.dst))
    ((series 1 n).map (strideEdge weight n stride idOff))
  rw [List.length_map, length_series] at hfilter
  rw [strideBatch]
  omega

theorem hubBatch_length : ((hubBatch weight n).length : Int) ≤ 50 * (n / 1000) := by
  have hfilter := List.length_filter_le
    (fun e : Edge W => decide (e.src ≠ e.dst ∧ (1 ≤ e.src ∧ e.src ≤ n) ∧ (1 ≤ e.dst ∧ e.dst ≤ n)))
    (((series 1 (n / 1000)).product (series 1 50)).map (hubEdge weight n (4 * n)))
  have hproduct := List.length_product (series 1 (n / 1000)) (series 1 50)
  have fifty : (series 1 50).length = 50 := length_series 1 50
  rw [length_series, fifty] at hproduct
  rw [List.length_map] at hfilter
  have hrows := hfilter.trans_eq hproduct
  rw [hubBatch]
  omega

theorem randomBatch_length : ((randomBatch weight n).length : Int) ≤ n / 2 := by
  have hfilter := List.length_filter_le (fun e : Edge W => decide (e.src ≠ e.dst))
    ((series 1 (n / 2)).map (randomEdge weight n (5 * n)))
  rw [List.length_map, length_series] at hfilter
  rw [randomBatch]
  omega

/-! ## All batches -/

theorem edges_block : Block 0 (5 * n + n / 2) (edges weight n) := by
  have first := strideBatch_block weight n 20 (show n = 0 + n by omega)
  have second := strideBatch_block weight n 40 (show 2 * n = n + n by omega)
  have third := strideBatch_block weight n 200 (show 3 * n = 2 * n + n by omega)
  have fourth := strideBatch_block weight n 21 (show 4 * n = 3 * n + n by omega)
  have strides := ((first.append second (by omega) (by omega)).append third (by omega)
    (by omega)).append fourth (by omega) (by omega)
  exact (strides.append (hubBatch_block weight n hn) (by omega) (by omega)).append
    (randomBatch_block weight n) (by omega) (by omega)

theorem edges_proper : ∀ e ∈ edges weight n, Proper n e := by
  simp only [edges, List.forall_mem_append]
  exact ⟨⟨⟨⟨⟨strideBatch_proper weight n hn (by omega), strideBatch_proper weight n hn (by omega)⟩,
    strideBatch_proper weight n hn (by omega)⟩, strideBatch_proper weight n hn (by omega)⟩,
    hubBatch_proper weight n⟩, randomBatch_proper weight n hn⟩

end Bounds

theorem edges_length (n : Int) (hn : 1 ≤ n) :
    ((edges weight n).length : Int) ≤ 4 * n + 50 * (n / 1000) + n / 2 := by
  have first := strideBatch_length weight n hn 20 0
  have second := strideBatch_length weight n hn 40 n
  have third := strideBatch_length weight n hn 200 (2 * n)
  have fourth := strideBatch_length weight n hn 21 (3 * n)
  have hubs := hubBatch_length weight n hn
  have random := randomBatch_length weight n hn
  simp only [edges, List.length_append]
  push_cast
  omega

/-- The graph that the setup leaves is well formed at every size. -/
theorem edges_well_formed (n : Int) (hn : 1 ≤ n) (before : Option (List (Edge W))) :
    ∃ table, run (edgeStatements weight n) before = some (some table) ∧
      UniqueKey Edge.id table ∧ (∀ e ∈ table, Proper n e) ∧
        (table.length : Int) ≤ 4 * n + 50 * (n / 1000) + n / 2 :=
  ⟨edges weight n, run_edgeStatements weight n before, (edges_block weight n hn).unique,
    edges_proper weight n hn, edges_length weight n hn⟩

end Batches

/-- The weight in exact arithmetic. -/
def exactWeight (base scale : ℚ) (key : Int) : ℚ :=
  ⌊1000 * (base + scale * Int.fract ((key : ℚ) * 0.618033988749895)) + 1 / 2⌋ / 1000

/-- The setup of the smallest published size. -/
theorem edges_well_formed_oneMillion :
    ∃ table, run (setupSql exactWeight 1) none = some (some table) ∧
      UniqueKey Edge.id table ∧ (∀ e ∈ table, Proper (1 * 1000000) e) ∧
        (table.length : Int) ≤ 4 * (1 * 1000000) + 50 * (1 * 1000000 / 1000) + 1 * 1000000 / 2 :=
  edges_well_formed exactWeight (1 * 1000000) (by omega) none

end DeltaForgeBench.Workloads.GraphEdges
