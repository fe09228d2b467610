import DeltaForgeBench.Base.JsonCompact

/-! # JSON without blanks

Objects and arrays as a program writes them by hand: the members and the items
one behind the other, with commas between them and no white space. The grammar
derives them as soon as it derives their parts. -/
namespace DeltaForgeBench.Base.JsonDense
open DeltaForgeBench.Base DeltaForgeBench.Base.Text DeltaForgeBench.Base.JsonText
open DeltaForgeBench.Base.JsonGrammar

variable {ν : Type}

def points (t : Str) : Points := t.map Char.toNat

def commaJoin : List Str → Str
  | [] => []
  | t :: ts => t ++ ts.flatMap (',' :: ·)

/-- A member with its name and its text. -/
def field (name : String) (text : Str) : Str := '"' :: (name.toList ++ '"' :: ':' :: text)

/-- A member, with the value that its text stands for. -/
structure Member (ν : Type) where
  name : String
  text : Str
  value : Json ν

def Member.json (m : Member ν) : Points × Json ν := (points m.name.toList, m.value)

def objectText (ms : List (Member ν)) : Str :=
  '{' :: (commaJoin (ms.map fun m => field m.name m.text) ++ ['}'])

def objectJson (ms : List (Member ν)) : Json ν := .obj (ms.map Member.json)

def arrayText (ts : List Str) : Str := '[' :: (commaJoin ts ++ [']'])

/-- `member` of an object. -/
def member? (v : Json ν) (name : String) : Option (Json ν) :=
  match v with
  | .obj ms => Dict.get? ms (points name.toList)
  | _ => none

theorem points_injective : Function.Injective points :=
  List.map_injective_iff.mpr fun _ _ h => Char.toNat_inj.mp h

/-- A member is looked up by its name. -/
theorem member?_objectJson (ms : List (Member ν)) (name : String) :
    member? (objectJson ms) name = Dict.get? (ms.map fun m => (m.name, m.value)) name := by
  induction ms with
  | nil => rfl
  | cons m ms ih =>
    simp only [member?, objectJson] at ih ⊢
    have hname : points m.name.toList = points name.toList ↔ m.name = name :=
      points_injective.eq_iff.trans String.toList_inj
    rw [List.map_cons, List.map_cons, Member.json, Dict.get?_cons, Dict.get?_cons, ih]
    simp only [hname]

/-- A loop that writes a comma in front of every entry but the first. -/
def commaLoop {α : Type*} (entry : Nat → α → Str) : Nat → List α → Str
  | _, [] => []
  | k, a :: l => (if k ≠ 0 then [','] else []) ++ (entry k a ++ commaLoop entry (k + 1) l)

theorem commaLoop_behind {α : Type*} (entry : Nat → α → Str) (l : List α) {k : Nat} (hk : k ≠ 0) :
    commaLoop entry k l = ((l.zipIdx k).map fun p => entry p.2 p.1).flatMap (',' :: ·) := by
  induction l generalizing k with
  | nil => rfl
  | cons a l ih =>
    rw [commaLoop, if_pos hk, ih (Nat.succ_ne_zero k)]
    rfl

theorem commaLoop_eq {α : Type*} (entry : Nat → α → Str) (l : List α) :
    commaLoop entry 0 l = commaJoin (l.zipIdx.map fun p => entry p.2 p.1) := by
  cases l with
  | nil => rfl
  | cons a l =>
    rw [commaLoop, commaLoop_behind entry l (Nat.succ_ne_zero 0)]
    rfl

/-- Names that need no escape and are distinct. -/
def Fit (names : List String) : Prop :=
  (∀ n ∈ names, n.toList.all isPlain = true) ∧ (names.map fun n => points n.toList).Nodup

instance (names : List String) : Decidable (Fit names) := inferInstanceAs (Decidable (_ ∧ _))

theorem Fit.of_append {names more : List String} (h : Fit (names ++ more)) : Fit names := by
  refine ⟨fun n hn => h.1 n (List.mem_append_left more hn), ?_⟩
  have distinct := h.2
  rw [List.map_append] at distinct
  exact distinct.of_append_left

/-! ## Derivations -/

section Derivations
variable {scalar : Str → Json ν → Prop}

theorem items_join {t : Str} {v : Json ν} (ht : Value scalar t v) {ts : List Str}
    {vs : List (Json ν)} (h : List.Forall₂ (Value scalar) ts vs) :
    Items scalar (commaJoin (t :: ts)) (v :: vs) := by
  induction h generalizing t v with
  | nil => simpa [commaJoin] using Items.last (w := []) (z := []) rfl ht rfl
  | cons hu _ ih =>
    have more := Items.more (w := []) (z := []) rfl ht rfl (ih hu)
    simpa [commaJoin] using more

/-- An array, empty or not. -/
theorem value_array {ts : List Str} {vs : List (Json ν)} (h : List.Forall₂ (Value scalar) ts vs) :
    Value scalar (arrayText ts) (.arr vs) := by
  cases h with
  | nil => exact .emptyArray (w := []) rfl
  | cons ht hts => exact .array (items_join ht hts)

theorem members_join {m : Member ν} {ms : List (Member ν)}
    (hplain : ∀ n ∈ m :: ms, n.name.toList.all isPlain = true)
    (h : ∀ n ∈ m :: ms, Value scalar n.text n.value) :
    Members scalar (commaJoin ((m :: ms).map fun n => field n.name n.text))
      ((m :: ms).map Member.json) := by
  induction ms generalizing m with
  | nil =>
    have hkey := Chars.of_plain (hplain m (by simp)) []
    have hm := h m (by simp)
    have last := Members.last (w := []) (x := []) (y := []) (z := []) rfl hkey rfl rfl hm rfl
    simpa [commaJoin, field, Member.json, points] using last
  | cons n ms ih =>
    obtain ⟨hmplain, hplain⟩ := List.forall_mem_cons.mp hplain
    obtain ⟨hm, hms⟩ := List.forall_mem_cons.mp h
    have hkey := Chars.of_plain hmplain []
    have more := Members.more (w := []) (x := []) (y := []) (z := []) rfl hkey rfl rfl hm rfl
      (ih hplain hms)
    simpa [commaJoin, field, Member.json, points] using more

/-- An object with members of fit names. -/
theorem value_object {ms : List (Member ν)} (hne : ms ≠ []) (hnames : Fit (ms.map Member.name))
    (h : ∀ m ∈ ms, Value scalar m.text m.value) : Value scalar (objectText ms) (objectJson ms) := by
  cases ms with
  | nil => exact absurd rfl hne
  | cons m ms =>
    have object := Value.object (members_join (List.forall_mem_map.mp hnames.1) h)
    have hkeys : (([] : List (Points × Json ν)) ++ (m :: ms).map Member.json).map Prod.fst =
        ((m :: ms).map Member.name).map fun n => points n.toList := by
      rw [List.nil_append, List.map_map, List.map_map]
      rfl
    rw [Dict.foldl_set (hkeys ▸ hnames.2)] at object
    exact object

end Derivations

end DeltaForgeBench.Base.JsonDense
