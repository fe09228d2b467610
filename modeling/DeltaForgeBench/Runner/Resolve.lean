import DeltaForgeBench.Engines.Base

/-! # Resolving a step for one engine

`resolve_step` picks the engine's own variant of a step and then fills in the
runner's three placeholders. Everything else in braces stays as it is, since
graph queries use braces of their own. -/
namespace DeltaForgeBench.Runner.Resolve
open DeltaForgeBench.Base.Text DeltaForgeBench.Engines.Base

/-- An absolute path: its components below the root. -/
abbrev Path := List Str

/-- `str(path)`. -/
def Path.text (p : Path) : Str :=
  if p = [] then ['/'] else p.flatMap ('/' :: ·)

/-- `path.name`. -/
def Path.name (p : Path) : Str := p.getLast?.getD []

/-- The placeholder the text starts with: its value, and how much of the text
follows the opening brace and belongs to it. -/
def placeholder? (values : List (Str × Str)) (t : Str) : Option (Str × Nat) :=
  values.findSome? fun (name, value) =>
    if (('{' :: name) ++ ['}']).isPrefixOf t then some (value, name.length + 1) else none

/-- `_PLACEHOLDER_RE.sub`, from left to right; `skip` characters still belong
to the placeholder just replaced. -/
def substituteFrom (values : List (Str × Str)) : Nat → Str → Str
  | _, [] => []
  | skip + 1, _ :: t => substituteFrom values skip t
  | 0, c :: t =>
    match placeholder? values (c :: t) with
    | some (value, skip) => value ++ substituteFrom values skip t
    | none => c :: substituteFrom values 0 t

def substitute (values : List (Str × Str)) (t : Str) : Str := substituteFrom values 0 t

def placeholderValues (dataDir : Path) (scale : Int) : List (Str × Str) :=
  [("data_dir".toList, dataDir.text.map fun c => if c = '\\' then '/' else c),
   ("data_basename".toList, dataDir.name),
   ("scale".toList, scale.repr.toList)]

/-- `resolve_step`. -/
def resolveStep (step : WorkloadStep) (dataDir : Path) (engineName : Str) (scale : Int) :
    WorkloadStep :=
  let own (variants : Option (List (Str × Str))) : Option Str :=
    variants.bind fun d => d.lookup engineName
  let sql := (own step.perEngineSql).or step.sql
  let kind := ((step.perEngineKind.bind fun d => d.lookup engineName)).getD step.kind
  match sql with
  | none => { step with kind := kind }
  | some text =>
    { step with kind := kind, sql := some (substitute (placeholderValues dataDir scale) text) }

/-! ## What resolving leaves alone -/

theorem substituteFrom_of_free {values : List (Str × Str)} :
    ∀ {t : Str}, '{' ∉ t → substituteFrom values 0 t = t
  | [], _ => rfl
  | c :: t, h => by
    simp only [List.mem_cons, not_or] at h
    have none_here : placeholder? values (c :: t) = none := by
      simp only [placeholder?, List.findSome?_eq_none_iff]
      rintro ⟨name, value⟩ -
      simp [List.isPrefixOf, h.1]
    simp [substituteFrom, none_here, substituteFrom_of_free h.2]

theorem substituteFrom_append {values : List (Str × Str)} {s t : Str} (h : '{' ∉ s) :
    substituteFrom values 0 (s ++ t) = s ++ substituteFrom values 0 t := by
  induction s with
  | nil => rfl
  | cons c s ih =>
    simp only [List.mem_cons, not_or] at h
    have none_here : placeholder? values (c :: (s ++ t)) = none := by
      simp only [placeholder?, List.findSome?_eq_none_iff]
      rintro ⟨name, value⟩ -
      simp [List.isPrefixOf, h.1]
    simp [substituteFrom, none_here, ih h.2]

theorem substituteFrom_skip {values : List (Str × Str)} (s t : Str) :
    substituteFrom values s.length (s ++ t) = substituteFrom values 0 t := by
  induction s with
  | nil => rfl
  | cons c s ih => simpa [substituteFrom] using ih

/-! ## What resolving fills in -/

/-- No placeholder starts in the text and ends behind it. -/
def Closed (values : List (Str × Str)) (s : Str) : Prop :=
  ∀ t, substituteFrom values 0 (s ++ t) = substitute values s ++ substituteFrom values 0 t

theorem closed_of_free {values : List (Str × Str)} {s : Str} (h : '{' ∉ s) : Closed values s := by
  intro t
  rw [substituteFrom_append h, substitute, substituteFrom_of_free h]

theorem Closed.substitute_append {values : List (Str × Str)} {s : Str} (h : Closed values s)
    (t : Str) : substitute values (s ++ t) = substitute values s ++ substitute values t := h t

theorem Closed.append {values : List (Str × Str)} {s t : Str} (h : Closed values s)
    (h' : Closed values t) : Closed values (s ++ t) := by
  intro u
  rw [List.append_assoc, h, h', h.substitute_append, List.append_assoc]

theorem closed_join {values : List (Str × Str)} {sep : Str} (hsep : Closed values sep) :
    ∀ {parts : List Str}, (∀ p ∈ parts, Closed values p) →
      Closed values (join sep parts) ∧
      substitute values (join sep parts) =
        join (substitute values sep) (parts.map (substitute values))
  | [], _ => ⟨fun _ => rfl, rfl⟩
  | [p], h => by simpa using h p (by simp)
  | p :: q :: rest, h => by
    have hp : Closed values p := h p (by simp)
    have others : ∀ x ∈ q :: rest, Closed values x := fun x hx => h x (by simp [hx])
    obtain ⟨hclosed, htext⟩ := closed_join hsep others
    rw [join_cons_cons]
    refine ⟨(hp.append hsep).append hclosed, ?_⟩
    rw [(hp.append hsep).substitute_append, hp.substitute_append, htext]
    simp

/-- The text the `data_dir` placeholder stands for. -/
def dataDirText (dataDir : Path) : Str := dataDir.text.map fun c => if c = '\\' then '/' else c

theorem closed_dataDir (dataDir : Path) (scale : Int) :
    Closed (placeholderValues dataDir scale) "{data_dir}".toList ∧
    substitute (placeholderValues dataDir scale) "{data_dir}".toList = dataDirText dataDir := by
  have all : ∀ t, substituteFrom (placeholderValues dataDir scale) 0 ("{data_dir}".toList ++ t) =
      dataDirText dataDir ++ substituteFrom (placeholderValues dataDir scale) 0 t := by
    intro t
    have here : placeholder? (placeholderValues dataDir scale) ("{data_dir}".toList ++ t) =
        some (dataDirText dataDir, 9) := rfl
    have skipped : substituteFrom (placeholderValues dataDir scale) _ _ = _ :=
      substituteFrom_skip "data_dir\x7d".toList t
    rw [show "{data_dir}".toList ++ t = '{' :: ("data_dir\x7d".toList ++ t) from rfl] at here ⊢
    rw [substituteFrom, here]
    exact congrArg (dataDirText dataDir ++ ·) skipped
  have self : substitute (placeholderValues dataDir scale) "{data_dir}".toList =
      dataDirText dataDir := by simpa [substitute, substituteFrom] using all []
  exact ⟨fun t => by rw [all, self], self⟩

/-- Resolving fills in the directory and leaves the text around it alone. -/
theorem substitute_dataDir {dataDir : Path} {scale : Int} {s t : Str} (hs : '{' ∉ s) (ht : '{' ∉ t) :
    Closed (placeholderValues dataDir scale) (s ++ "{data_dir}".toList ++ t) ∧
    substitute (placeholderValues dataDir scale) (s ++ "{data_dir}".toList ++ t) =
      s ++ dataDirText dataDir ++ t := by
  obtain ⟨hclosed, htext⟩ := closed_dataDir dataDir scale
  have head := (closed_of_free hs).append hclosed
  refine ⟨head.append (closed_of_free ht), ?_⟩
  rw [head.substitute_append, (closed_of_free hs).substitute_append, htext, substitute,
    substituteFrom_of_free hs, substitute, substituteFrom_of_free ht]

/-! ## What resolving never touches -/

theorem resolveStep_expectsRows (step : WorkloadStep) (dataDir : Path) (engineName : Str)
    (scale : Int) : (resolveStep step dataDir engineName scale).expectsRows = step.expectsRows := by
  simp only [resolveStep]
  split <;> rfl

end DeltaForgeBench.Runner.Resolve
