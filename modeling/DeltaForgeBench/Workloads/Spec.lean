import Mathlib
import DeltaForgeBench.Base.Fields
import DeltaForgeBench.Base.Numeral
import DeltaForgeBench.Base.Sorted
import DeltaForgeBench.Base.Hashing
import DeltaForgeBench.Engines.Base

/-! # Workloads and the canonical result hash

`hash_result_rows` renders every row as one tab-separated text, sorts the
texts, and digests them with a newline after each. The digest is blind to the
order of the rows, and blind to whatever the rendered text does not show: the
type of a cell, and whether a tab or a newline is inside a cell or between two. -/
namespace DeltaForgeBench.Workloads.Spec
open DeltaForgeBench.Base.Text DeltaForgeBench.Base.Sorted DeltaForgeBench.Base.Hashing
open DeltaForgeBench.Base.Fields DeltaForgeBench.Base.Numeral
open DeltaForgeBench.Engines.Base

/-- The part of a workload the runner schedules from. -/
structure Workload where
  name : Str
  description : Str
  catalogSetupSteps : List WorkloadStep := []
  setupSteps : List WorkloadStep := []
  measuredSteps : List WorkloadStep := []
  cleanupSteps : List WorkloadStep := []
  coldRuns : Nat := 1
  warmRuns : Nat := 9
  applicableEngines : Option (List Str) := none
  dataSubdir : Str := "tpch_sf{scale}".toList
  requiresInputData : Bool := true

/-! ## Cells and rows -/

/-- `repr` of a float shows a point, an exponent with its sign or one of the
special names, and it spells one float only. -/
def isFloatRepr (t : Str) : Bool :=
  ["inf".toList, "-inf".toList, "nan".toList].contains t ||
    (t.all ("0123456789.e+-".toList.contains ·) &&
      (t.contains '.' || t.contains 'e' && (t.contains '+' || t.contains '-')))

/-- A float, known by its `repr`. -/
structure PyFloat where
  repr : Str
  wf : isFloatRepr repr = true
  deriving DecidableEq

inductive Cell
  | none
  | int (n : Int)
  | float (x : PyFloat)
  | bytes (b : List UInt8)
  | str (s : Str)
  deriving DecidableEq

abbrev Row := List Cell

def hexDigit (n : Nat) : Char := ("0123456789abcdef".toList)[n]?.getD '0'

/-- `bytes.hex()`. -/
def hex (b : List UInt8) : Str :=
  b.flatMap fun u => [hexDigit (u.toNat / 16), hexDigit (u.toNat % 16)]

/-- `_render_cell`. -/
def renderCell : Cell → Str
  | .none => "NULL".toList
  | .float x => x.repr
  | .bytes b => hex b
  | .int n => n.repr.toList
  | .str s => s

/-- `_render_row`. -/
def renderRow (row : Row) : Str := join ['\t'] (row.map renderCell)

/-- `hash_result_rows`: the digest of the sorted rows and their number. -/
def hashResultRows (H : Digest) (rows : List Row) : Str × Nat :=
  let rendered := sorted (rows.map renderRow)
  (H.hexdigest (rendered.foldl (fun h line => (h ++ utf8 line) ++ utf8 ['\n'])
    ByteArray.empty), rendered.length)

/-! ## The digested text -/

def hashedText (rows : List Row) : Str := (sorted (rows.map renderRow)).flatMap (· ++ ['\n'])

/-- The lines the digested text falls into, whichever row they came from. -/
def textLines (rows : List Row) : List Str :=
  (sorted (rows.map renderRow)).flatMap (splitOnChar '\n')

theorem hashResultRows_fst (H : Digest) (rows : List Row) :
    (hashResultRows H rows).1 = H.hexdigest (utf8 (hashedText rows)) := by
  have h := foldl_update (sorted (rows.map renderRow)) []
  simpa [hashResultRows, hashedText] using congrArg H.hexdigest h

theorem digest_eq_iff_text (H : Digest) (A B : List Row) :
    (hashResultRows H A).1 = (hashResultRows H B).1 ↔ hashedText A = hashedText B := by
  rw [hashResultRows_fst, hashResultRows_fst]
  exact ⟨fun h => utf8_injective (H.injective h), fun h => by rw [h]⟩

theorem hashedText_eq_lines (rows : List Row) :
    hashedText rows = (textLines rows).flatMap (· ++ ['\n']) := by
  simp only [hashedText, textLines, List.flatMap_assoc, flatMap_splitOnChar]

theorem hashedText_eq_iff {A B : List Row} :
    hashedText A = hashedText B ↔ textLines A = textLines B := by
  have free : ∀ rows, ∀ l ∈ textLines rows, '\n' ∉ l := by
    intro rows l hl
    obtain ⟨r, -, hr⟩ := List.mem_flatMap.mp hl
    exact splitOnChar_free l hr
  constructor
  · intro h
    rw [hashedText_eq_lines, hashedText_eq_lines] at h
    exact terminated_injective (free A) (free B) h
  · intro h
    rw [hashedText_eq_lines, hashedText_eq_lines, h]

theorem digest_eq_iff_lines (H : Digest) (A B : List Row) :
    (hashResultRows H A).1 = (hashResultRows H B).1 ↔ textLines A = textLines B :=
  (digest_eq_iff_text H A B).trans hashedText_eq_iff

/-- Sorting makes the digest independent of the order of the rows. -/
theorem digest_congr (H : Digest) {A B : List Row} (h : A.Perm B) :
    (hashResultRows H A).1 = (hashResultRows H B).1 := by
  rw [digest_eq_iff_text]
  simp only [hashedText, sorted_congr (h.map renderRow)]

/-! ## Cells that are spelled alike -/

/-- Cells the digest takes for one another: of two types, but spelled alike. -/
inductive Alike : Cell → Cell → Prop
  | refl (c : Cell) : Alike c c
  | symm {c d : Cell} (h : Alike c d) : Alike d c
  | null : Alike .none (.str "NULL".toList)
  | int (n : Int) : Alike (.int n) (.str n.repr.toList)
  | float (x : PyFloat) : Alike (.float x) (.str x.repr)
  | bytes (b : List UInt8) : Alike (.bytes b) (.str (hex b))
  | digits (n : Int) (b : List UInt8) (h : n.repr.toList = hex b) : Alike (.int n) (.bytes b)

theorem hexDigit_injective : ∀ m < 16, ∀ n < 16, hexDigit m = hexDigit n → m = n := by decide

theorem hex_injective : ∀ {a b : List UInt8}, hex a = hex b → a = b
  | [], [], _ => rfl
  | [], _ :: _, h => by simp [hex] at h
  | _ :: _, [], h => by simp [hex] at h
  | u :: a, v :: b, h => by
    simp only [hex, List.flatMap_cons, List.cons_append, List.nil_append, List.cons.injEq] at h
    obtain ⟨hhi, hlo, hrest⟩ := h
    have hu := u.toNat_lt
    have hv := v.toNat_lt
    have e1 := hexDigit_injective _ (by omega) _ (by omega) hhi
    have e2 := hexDigit_injective _ (by omega) _ (by omega) hlo
    have huv : u = v := UInt8.toNat_inj.mp (by omega)
    rw [huv, hex_injective hrest]

def isHexDigit (c : Char) : Bool := isDigit c || ['a', 'b', 'c', 'd', 'e', 'f'].contains c

theorem isHexDigit_of_hex {b : List UInt8} {c : Char} (h : c ∈ hex b) : isHexDigit c = true := by
  have digit : ∀ n < 16, isHexDigit (hexDigit n) = true := by decide
  obtain ⟨u, -, hc⟩ := List.mem_flatMap.mp h
  have hu := u.toNat_lt
  rcases List.mem_cons.mp hc with rfl | hc
  · exact digit _ (by omega)
  · exact List.mem_singleton.mp hc ▸ digit _ (by omega)

def isNumeralChar (c : Char) : Bool := c = '-' || isDigit c

theorem isNumeralChar_of_int {n : Int} {c : Char} (h : c ∈ n.repr.toList) :
    isNumeralChar c = true := by
  cases n with
  | ofNat n => exact Bool.or_eq_true_iff.mpr (.inr (isDigit_repr n c h))
  | negSucc n =>
    have sign : (Int.negSucc n).repr.toList = '-' :: (n + 1).repr.toList := by
      simp [Int.repr]
    rw [sign] at h
    rcases List.mem_cons.mp h with rfl | h
    · rfl
    · exact Bool.or_eq_true_iff.mpr (.inr (isDigit_repr _ c h))

/-- A float shows something that no integer shows, something that no bytes show,
and neither an `N` nor a separator. -/
structure Floating (t : Str) : Prop where
  notInt : ∃ c ∈ t, isNumeralChar c = false
  notHex : ∃ c ∈ t, isHexDigit c = false
  noN : 'N' ∉ t
  noTab : '\t' ∉ t
  noNewline : '\n' ∉ t

theorem floating (x : PyFloat) : Floating x.repr := by
  obtain ⟨t, wf⟩ := x
  show Floating t
  rcases Bool.or_eq_true_iff.mp wf with special | plain
  · rcases List.mem_cons.mp (List.contains_iff_mem.mp special) with rfl | special
    · exact ⟨⟨'n', by simp, rfl⟩, ⟨'n', by simp, rfl⟩, by simp, by simp, by simp⟩
    rcases List.mem_cons.mp special with rfl | special
    · exact ⟨⟨'n', by simp, rfl⟩, ⟨'n', by simp, rfl⟩, by simp, by simp, by simp⟩
    · obtain rfl := List.mem_singleton.mp special
      exact ⟨⟨'n', by simp, rfl⟩, ⟨'n', by simp, rfl⟩, by simp, by simp, by simp⟩
  · obtain ⟨chars, mark⟩ := Bool.and_eq_true_iff.mp plain
    have allowed : ∀ c ∈ t, "0123456789.e+-".toList.contains c = true := List.all_eq_true.mp chars
    have none : ∀ c, "0123456789.e+-".toList.contains c = false → c ∉ t := fun c hc h => by
      rw [allowed c h] at hc
      cases hc
    rcases Bool.or_eq_true_iff.mp mark with point | exponent
    · have there := List.contains_iff_mem.mp point
      exact ⟨⟨_, there, rfl⟩, ⟨_, there, rfl⟩, none _ rfl, none _ rfl, none _ rfl⟩
    · obtain ⟨e, sign⟩ := Bool.and_eq_true_iff.mp exponent
      refine ⟨⟨_, List.contains_iff_mem.mp e, rfl⟩, ?_, none _ rfl, none _ rfl, none _ rfl⟩
      rcases Bool.or_eq_true_iff.mp sign with sign | sign
      · exact ⟨_, List.contains_iff_mem.mp sign, rfl⟩
      · exact ⟨_, List.contains_iff_mem.mp sign, rfl⟩

/-- A cell that is no string has no separator. -/
theorem noSeparator (c : Cell) (h : ∀ s, c ≠ .str s) : '\n' ∉ renderCell c ∧ '\t' ∉ renderCell c := by
  have hexed : ∀ (b : List UInt8) (d : Char), isHexDigit d = false → d ∉ hex b := fun b d hd h => by
    rw [isHexDigit_of_hex h] at hd
    cases hd
  have counted : ∀ (n : Int) (d : Char), isNumeralChar d = false → d ∉ n.repr.toList :=
    fun n d hd h => by
      rw [isNumeralChar_of_int h] at hd
      cases hd
  cases c with
  | none => exact ⟨by simp [renderCell], by simp [renderCell]⟩
  | int n => exact ⟨counted n _ rfl, counted n _ rfl⟩
  | float x => exact ⟨(floating x).noNewline, (floating x).noTab⟩
  | bytes b => exact ⟨hexed b _ rfl, hexed b _ rfl⟩
  | str s => exact absurd rfl (h s)

/-- Cells of one type. -/
def SameType : Cell → Cell → Prop
  | .none, .none | .int _, .int _ | .float _, .float _ | .bytes _, .bytes _ | .str _, .str _ => True
  | _, _ => False

theorem renderCell_injective {c d : Cell} (ht : SameType c d) (h : renderCell c = renderCell d) :
    c = d := by
  cases c <;> cases d <;> simp only [SameType] at ht
  case none => rfl
  case int m n => rw [Int.repr_inj.mp (String.toList_inj.mp h)]
  case float x y => rw [show x = y by cases x; cases y; simpa [renderCell] using h]
  case bytes a b => rw [hex_injective h]
  case str s t => rw [show s = t from h]

theorem renderCell_alike {c d : Cell} (h : Alike c d) : renderCell c = renderCell d := by
  induction h with
  | symm _ ih => exact ih.symm
  | digits n b h => exact h
  | _ => rfl

theorem alike_str (c : Cell) : Alike c (.str (renderCell c)) := by
  cases c with
  | none => exact .null
  | int n => exact .int n
  | float x => exact .float x
  | bytes b => exact .bytes b
  | str s => exact .refl _

/-- No other two types are spelled alike. -/
theorem alike_of_render {c d : Cell} (h : renderCell c = renderCell d) : Alike c d := by
  have null_hex : ∀ b, "NULL".toList ≠ hex b := fun b e => by
    have there : 'N' ∈ hex b := e ▸ by simp
    cases isHexDigit_of_hex there
  have null_int : ∀ n : Int, "NULL".toList ≠ n.repr.toList := fun n e => by
    have there : 'N' ∈ n.repr.toList := e ▸ by simp
    cases isNumeralChar_of_int there
  have null_float : ∀ x : PyFloat, "NULL".toList ≠ x.repr := fun x e =>
    (floating x).noN (e ▸ by simp)
  have int_float : ∀ (n : Int) (x : PyFloat), n.repr.toList ≠ x.repr := fun n x e => by
    obtain ⟨c, hc, hno⟩ := (floating x).notInt
    rw [isNumeralChar_of_int (e ▸ hc)] at hno
    cases hno
  have hex_float : ∀ (b : List UInt8) (x : PyFloat), hex b ≠ x.repr := fun b x e => by
    obtain ⟨c, hc, hno⟩ := (floating x).notHex
    rw [isHexDigit_of_hex (e ▸ hc)] at hno
    cases hno
  have same : SameType c d → Alike c d := fun ht => renderCell_injective ht h ▸ .refl c
  have text : ∀ {e : Cell} {s : Str}, renderCell e = s → Alike e (.str s) := fun {e _} he =>
    he ▸ alike_str e
  cases c with
  | str s => exact (text h.symm).symm
  | none =>
    cases d with
    | none => exact same trivial
    | int n => exact absurd h (null_int n)
    | float x => exact absurd h (null_float x)
    | bytes b => exact absurd h (null_hex b)
    | str s => exact text h
  | int n =>
    cases d with
    | none => exact absurd h.symm (null_int n)
    | int m => exact same trivial
    | float x => exact absurd h (int_float n x)
    | bytes b => exact .digits n b h
    | str s => exact text h
  | float x =>
    cases d with
    | none => exact absurd h.symm (null_float x)
    | int n => exact absurd h.symm (int_float n x)
    | float y => exact same trivial
    | bytes b => exact absurd h.symm (hex_float b x)
    | str s => exact text h
  | bytes b =>
    cases d with
    | none => exact absurd h.symm (null_hex b)
    | int n => exact .symm (.digits n b h.symm)
    | float x => exact absurd h (hex_float b x)
    | bytes b' => exact same trivial
    | str s => exact text h

theorem renderCell_eq_iff {c d : Cell} : renderCell c = renderCell d ↔ Alike c d :=
  ⟨alike_of_render, renderCell_alike⟩

/-! ## Rows that read alike -/

/-- The lines a cell falls into, each read as the cells between its tabs. -/
def cellLines : Cell → List Row
  | .str s => (fields '\n' '\t' s).map (List.map .str)
  | c => [[c]]

/-- The lines a row falls into; no cells at all read as one empty string. -/
def rowLines : Row → List Row
  | [] => [[.str []]]
  | [c] => cellLines c
  | c :: row => beside (cellLines c) (rowLines row)

/-- The rows in the order of their texts. -/
def ascending (rows : List Row) : List Row := sortedBy renderRow rows

/-- Line by line and cell by cell, the two lists are spelled alike. -/
def ReadAlike (A B : List Row) : Prop :=
  List.Forall₂ (List.Forall₂ Alike) ((ascending A).flatMap rowLines) ((ascending B).flatMap rowLines)

theorem fields_cell (c : Cell) :
    fields '\n' '\t' (renderCell c) = (cellLines c).map (List.map renderCell) := by
  have plain : ('\n' ∉ renderCell c ∧ '\t' ∉ renderCell c) → cellLines c = [[c]] →
      fields '\n' '\t' (renderCell c) = (cellLines c).map (List.map renderCell) := by
    rintro ⟨hn, ht⟩ hlines
    rw [fields_free hn ht, hlines]
    rfl
  cases c with
  | str s =>
    have back : ∀ r : List Str, (r.map Cell.str).map renderCell = r := fun r => by
      rw [List.map_map]
      exact List.map_id r
    show fields '\n' '\t' s = _
    rw [cellLines, List.map_map]
    conv_lhs => rw [← List.map_id (fields '\n' '\t' s)]
    exact List.map_congr_left fun r _ => (back r).symm
  | none => exact plain (noSeparator _ (by simp)) rfl
  | int n => exact plain (noSeparator _ (by simp)) rfl
  | float x => exact plain (noSeparator _ (by simp)) rfl
  | bytes b => exact plain (noSeparator _ (by simp)) rfl

theorem fields_row : ∀ row : Row,
    fields '\n' '\t' (renderRow row) = (rowLines row).map (List.map renderCell)
  | [] => rfl
  | [c] => by
    rw [renderRow, List.map_singleton, join_singleton]
    exact fields_cell c
  | c :: d :: row => by
    have tab : renderRow (c :: d :: row) = renderCell c ++ '\t' :: renderRow (d :: row) := by
      simp [renderRow]
    rw [tab, fields_append (by decide), fields_cell, fields_row (d :: row), ← map_beside]
    rfl

theorem map_ascending (rows : List Row) : (ascending rows).map renderRow = sorted (rows.map renderRow) :=
  (sorted_eq_of_pairwise ((sortedBy_perm renderRow rows).map renderRow)
    (List.pairwise_map.mpr (sortedBy_pairwise renderRow rows))).symm

theorem textLines_fields (rows : List Row) : (textLines rows).map (splitOnChar '\t') =
    ((ascending rows).flatMap rowLines).map (List.map renderCell) := by
  rw [textLines, ← map_ascending, List.flatMap_map, List.map_flatMap, List.map_flatMap]
  exact List.flatMap_congr fun row _ => fields_row row

theorem map_eq_map_iff {α β γ : Type} {f : α → γ} {g : β → γ} {l : List α} {m : List β} :
    l.map f = m.map g ↔ List.Forall₂ (fun a b => f a = g b) l m := by
  rw [← List.forall₂_eq_eq_eq, List.forall₂_map_left_iff, List.forall₂_map_right_iff]

theorem digest_eq_iff (H : Digest) (A B : List Row) :
    (hashResultRows H A).1 = (hashResultRows H B).1 ↔ ReadAlike A B := by
  have injective : Function.Injective (List.map (splitOnChar '\t')) :=
    List.map_injective_iff.mpr (splitOnChar_injective '\t')
  rw [digest_eq_iff_lines, ← injective.eq_iff, textLines_fields, textLines_fields, map_eq_map_iff]
  simp only [map_eq_map_iff, renderCell_eq_iff]
  rfl

/-- **When the digest is canonical.** Two row lists are told apart correctly
exactly when they are one multiset, or they do not read alike cell by cell. -/
theorem hashResultRows_canonical_iff (H : Digest) (A B : List Row) :
    ((hashResultRows H A).1 = (hashResultRows H B).1 ↔ A.Perm B) ↔ (A.Perm B ∨ ¬ ReadAlike A B) := by
  rw [digest_eq_iff]
  constructor
  · intro h
    exact (em (A.Perm B)).imp_right fun hp alike => hp (h.mp alike)
  · rintro (hp | unlike)
    · exact ⟨fun _ => hp, fun _ => (digest_eq_iff default A B).mp (digest_congr default hp)⟩
    · refine ⟨fun alike => absurd alike unlike, fun hp => ?_⟩
      exact absurd ((digest_eq_iff default A B).mp (digest_congr default hp)) unlike

/-- A null and the text `NULL` render alike, so the digest is not canonical. -/
theorem hashResultRows_null_collision :
    ¬ ∀ (H : Digest) (A B : List Row),
      ((hashResultRows H A).1 = (hashResultRows H B).1 ↔ A.Perm B) := by
  intro h
  have hp := (h default [[Cell.none]] [[Cell.str "NULL".toList]]).mp
    ((digest_eq_iff_lines _ _ _).mpr rfl)
  exact absurd hp (by decide)

/-! ## Typed tables -/

/-- A row set as a typed result table of `k` columns returns it: no string holds
a separator, and the cells of one column have one type. -/
structure Typed (k : Nat) (rows : List Row) : Prop where
  width : ∀ r ∈ rows, r.length = k
  plain : ∀ r ∈ rows, ∀ c ∈ r, cellLines c = [[c]]
  column : ∀ r ∈ rows, ∀ s ∈ rows, List.Forall₂ SameType r s

theorem rowLines_plain {r : Row} (hne : r ≠ []) (h : ∀ c ∈ r, cellLines c = [[c]]) :
    rowLines r = [r] := by
  induction r with
  | nil => exact absurd rfl hne
  | cons c row ih =>
    obtain ⟨hc, hrow⟩ := List.forall_mem_cons.mp h
    cases row with
    | nil => exact hc
    | cons d row =>
      rw [rowLines, hc, ih (List.cons_ne_nil _ _) hrow]
      · rfl
      · simp

/-- Rows of one type that are spelled alike are the same. -/
theorem row_eq {r s : Row} (typed : List.Forall₂ SameType r s) (alike : List.Forall₂ Alike r s) :
    r = s := by
  induction typed with
  | nil => rfl
  | cons ht _ ih =>
    obtain ⟨hc, hrest⟩ := List.forall₂_cons.mp alike
    rw [renderCell_injective ht (renderCell_alike hc), ih hrest]

theorem forall₂_eq_of_mem {α : Type} {R : α → α → Prop} {l m : List α} (h : List.Forall₂ R l m)
    (eq : ∀ a ∈ l, ∀ b ∈ m, R a b → a = b) : l = m := by
  induction h with
  | nil => rfl
  | cons hab _ ih =>
    rw [eq _ List.mem_cons_self _ List.mem_cons_self hab,
      ih fun a ha b hb => eq a (List.mem_cons_of_mem _ ha) b (List.mem_cons_of_mem _ hb)]

/-- Typed tables that read alike hold the same rows. -/
theorem perm_of_readAlike {k : Nat} {A B : List Row} (hk : 0 < k) (h : Typed k (A ++ B))
    (alike : ReadAlike A B) : A.Perm B := by
  have lines : ∀ rows, (∀ r ∈ rows, r ∈ A ++ B) → (ascending rows).flatMap rowLines = ascending rows := by
    intro rows hrows
    have one : ∀ r ∈ ascending rows, rowLines r = [r] := fun r hr => by
      have mem : r ∈ A ++ B := hrows r ((sortedBy_perm renderRow rows).mem_iff.mp hr)
      refine rowLines_plain (fun hnil => ?_) (h.plain r mem)
      have width := h.width r mem
      rw [hnil, List.length_nil] at width
      omega
    rw [List.flatMap_congr one]
    simp
  rw [ReadAlike, lines A (by simp +contextual), lines B (by simp +contextual)] at alike
  have mem : ∀ {rows r}, r ∈ ascending rows → r ∈ rows := fun hr =>
    (sortedBy_perm renderRow _).mem_iff.mp hr
  have same : ascending A = ascending B := by
    refine forall₂_eq_of_mem alike fun r hr s hs hrs => ?_
    have typed := h.column r (List.mem_append_left B (mem hr)) s (List.mem_append_right A (mem hs))
    exact row_eq typed hrs
  have back : (ascending A).Perm B := by
    rw [same]
    exact sortedBy_perm renderRow B
  exact (sortedBy_perm renderRow A).symm.trans back

/-- On typed result tables without separators in their cells the digest does
what it is for. -/
theorem hashResultRows_faithful (H : Digest) {k : Nat} {A B : List Row} (hk : 0 < k)
    (h : Typed k (A ++ B)) : (hashResultRows H A).1 = (hashResultRows H B).1 ↔ A.Perm B :=
  ⟨fun hd => perm_of_readAlike hk h ((digest_eq_iff H A B).mp hd), digest_congr H⟩

end DeltaForgeBench.Workloads.Spec
