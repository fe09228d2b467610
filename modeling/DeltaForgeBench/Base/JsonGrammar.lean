import DeltaForgeBench.Base.JsonText

/-! # The grammar of JSON

The texts of a value, as a grammar derives them. Dialects differ in their
scalars only. The reader reads every text that the grammar derives as the value
it is derived for, so a printer is right as soon as the grammar derives what it
prints. -/
namespace DeltaForgeBench.Base.JsonGrammar
open DeltaForgeBench.Base DeltaForgeBench.Base.Text DeltaForgeBench.Base.JsonText

variable {ν : Type}

def White (t : Str) : Prop := t.all isWhite = true

/-- The text of a string behind the code points read so far. -/
inductive Chars : Points → Str → Points → Prop
  | done {read : Points} : Chars read [] read
  | plain {read s : Points} {c : Char} {t : Str} : c ≠ '"' → c ≠ '\\' → 0x20 ≤ c.toNat →
      Chars (read ++ [c.toNat]) t s → Chars read (c :: t) s
  | escape {read s : Points} {c : Char} {n : Nat} {t : Str} : unescape c = some n →
      Chars (read ++ [n]) t s → Chars read ('\\' :: c :: t) s
  | unit {read s : Points} {c₁ c₂ c₃ c₄ : Char} {d₁ d₂ d₃ d₄ : Nat} {t : Str} :
      hexValue c₁ = some d₁ → hexValue c₂ = some d₂ → hexValue c₃ = some d₃ →
      hexValue c₄ = some d₄ →
      Chars (appendUnit read (((d₁ * 16 + d₂) * 16 + d₃) * 16 + d₄)) t s →
      Chars read ('\\' :: 'u' :: c₁ :: c₂ :: c₃ :: c₄ :: t) s

section Grammar
variable (scalar : Str → Json ν → Prop)

mutual

inductive Value : Str → Json ν → Prop
  | scalar {t : Str} {v : Json ν} : scalar t v → Value t v
  | string {t : Str} {s : Points} : Chars [] t s → Value ('"' :: (t ++ ['"'])) (.str s)
  | emptyArray {w : Str} : White w → Value ('[' :: (w ++ [']'])) (.arr [])
  | array {t : Str} {vs : List (Json ν)} : Items t vs → Value ('[' :: (t ++ [']'])) (.arr vs)
  | emptyObject {w : Str} : White w → Value ('{' :: (w ++ ['}'])) (.obj [])
  /-- A key that comes twice keeps its last value. -/
  | object {t : Str} {ms : List (Points × Json ν)} : Members t ms →
      Value ('{' :: (t ++ ['}'])) (.obj (ms.foldl (fun d m => Dict.set d m.1 m.2) []))

/-- The items of an array that is not empty. -/
inductive Items : Str → List (Json ν) → Prop
  | last {w t z : Str} {v : Json ν} : White w → Value t v → White z →
      Items (w ++ (t ++ z)) [v]
  | more {w t z u : Str} {v : Json ν} {vs : List (Json ν)} : White w → Value t v → White z →
      Items u vs → Items (w ++ (t ++ (z ++ ',' :: u))) (v :: vs)

/-- The members of an object that is not empty. -/
inductive Members : Str → List (Points × Json ν) → Prop
  | last {w k x y t z : Str} {s : Points} {v : Json ν} : White w → Chars [] k s → White x →
      White y → Value t v → White z →
      Members (w ++ '"' :: (k ++ '"' :: (x ++ ':' :: (y ++ (t ++ z))))) [(s, v)]
  | more {w k x y t z u : Str} {s : Points} {v : Json ν} {ms : List (Points × Json ν)} :
      White w → Chars [] k s → White x → White y → Value t v → White z → Members u ms →
      Members (w ++ '"' :: (k ++ '"' :: (x ++ ':' :: (y ++ (t ++ (z ++ ',' :: u))))))
        ((s, v) :: ms)

end

/-- A value between white space. -/
inductive Document : Str → Json ν → Prop
  | mk {w t z : Str} {v : Json ν} : White w → Value scalar t v → White z →
      Document (w ++ (t ++ z)) v

end Grammar

/-! ## Dialects -/

/-- The literals and the numbers of the standard. -/
inductive Standard (number : Str → ν) : Str → Json ν → Prop
  | null : Standard number "null".toList .null
  | true : Standard number "true".toList (.bool .true)
  | false : Standard number "false".toList (.bool .false)
  | num {t : Str} : isNumber t = .true → Standard number t (.num (number t))

/-- The scalars of Python, which has numbers beyond the standard. -/
def Lenient (number : Str → ν) (t : Str) (v : Json ν) : Prop :=
  readScalar number t = some v ∧ ∀ c ∈ t, isScalarChar c = true

/-! ## White space -/

variable {number : Str → ν}

theorem not_scalar_of_white {c : Char} (h : isWhite c = true) : isScalarChar c = false := by
  simp only [isWhite, Bool.or_eq_true, decide_eq_true_eq] at h
  rcases h with ((rfl | rfl) | rfl) | rfl <;> rfl

theorem White.head {w : Str} (h : White w) {c : Char} (hc : isScalarChar c = false) (rest : Str) :
    ∃ d ds, w ++ c :: rest = d :: ds ∧ isScalarChar d = false := by
  cases w with
  | nil => exact ⟨c, rest, rfl, hc⟩
  | cons d ds =>
    have hd : isWhite d = true := (Bool.and_eq_true_iff.mp h).1
    exact ⟨d, ds ++ c :: rest, rfl, not_scalar_of_white hd⟩

theorem run_white {s : State ν} (hs : ∀ c, isWhite c = true → step number s c = some s) {w : Str}
    (h : White w) (rest : Str) : run number s (w ++ rest) = run number s rest := by
  induction w with
  | nil => rfl
  | cons c cs ih =>
    obtain ⟨hc, hcs⟩ := Bool.and_eq_true_iff.mp h
    rw [List.cons_append, run, hs c hc]
    exact ih hcs

theorem step_complete (v : Json ν) (stack : List (Frame ν)) (c : Char) :
    step number (complete v stack) c = after (complete v stack) c := by
  match stack with
  | [] => rfl
  | .arr _ :: _ => rfl
  | .obj _ _ :: _ => rfl

theorem run_complete_white {v : Json ν} {stack : List (Frame ν)} {w : Str} (h : White w)
    (rest : Str) : run number (complete v stack) (w ++ rest) = run number (complete v stack) rest :=
  run_white (fun c hc => by rw [step_complete, after, if_pos hc]) h rest

/-! ## Strings -/

theorem run_chars {read s : Points} {t : Str} (h : Chars read t s) (isKey : Bool)
    (stack : List (Frame ν)) (rest : Str) :
    run number ⟨.string isKey read, stack⟩ (t ++ '"' :: rest) =
      (finishString isKey s stack).bind fun s' => run number s' rest := by
  induction h with
  | done => simp [run, step]
  | plain hquote hback hlow _ ih =>
    rw [← ih]
    simp [run, step, hquote, hback, Nat.not_lt.mpr hlow]
  | @escape _ _ c n _ hescape _ ih =>
    have hu : c ≠ 'u' := by
      rintro rfl
      cases hescape
    rw [← ih]
    simp [run, step, hu, hescape]
  | unit h₁ h₂ h₃ h₄ _ ih =>
    rw [← ih]
    simp [run, step, h₁, h₂, h₃, h₄]

/-- Characters that stand for themselves. -/
def isPlain (c : Char) : Bool := c ≠ '"' && c ≠ '\\' && 0x20 ≤ c.toNat

theorem Chars.of_plain {t : Str} (h : t.all isPlain = true) (read : Points) :
    Chars read t (read ++ t.map Char.toNat) := by
  induction t generalizing read with
  | nil => simpa using Chars.done
  | cons c cs ih =>
    obtain ⟨hc, hcs⟩ := Bool.and_eq_true_iff.mp h
    simp only [isPlain, Bool.and_eq_true, decide_eq_true_eq] at hc
    have rest := ih hcs (read ++ [c.toNat])
    rw [List.append_assoc] at rest
    exact .plain hc.1.1 hc.1.2 hc.2 rest

/-- A string is spelt character by character. -/
theorem Chars.of_flatMap {α : Type*} {f : α → Str} {g : α → Nat} {l : List α}
    (h : ∀ a ∈ l, ∀ (read : Points) (t : Str) (s : Points), Chars (read ++ [g a]) t s →
      Chars read (f a ++ t) s) (read : Points) :
    Chars read (l.flatMap f) (read ++ l.map g) := by
  induction l generalizing read with
  | nil => simpa using Chars.done
  | cons a l ih =>
    obtain ⟨ha, hl⟩ := List.forall_mem_cons.mp h
    have rest := ih hl (read ++ [g a])
    rw [List.append_assoc] at rest
    rw [List.flatMap_cons]
    exact ha read _ _ rest

/-! ## Scalars -/

/-- A scalar ends at the next character. -/
theorem run_scalar {token : Str} {v : Json ν} (hread : readScalar number token = some v)
    (hchars : ∀ c ∈ token, isScalarChar c = true) {c : Char} (hc : isScalarChar c = false)
    (stack : List (Frame ν)) (rest : Str) :
    run number ⟨.value, stack⟩ (token ++ c :: rest) = run number (complete v stack) (c :: rest) := by
  have ends : ∀ (read more : Str), read ++ more = token → (∀ d ∈ more, isScalarChar d = true) →
      run number ⟨.scalar read, stack⟩ (more ++ c :: rest) =
        run number (complete v stack) (c :: rest) := by
    intro read more
    induction more generalizing read with
    | nil =>
      intro h _
      obtain rfl : read = token := by simpa using h
      have last : step number ⟨.scalar read, stack⟩ c = step number (complete v stack) c := by
        rw [step_complete]
        simp [step, hc, hread]
      simp only [List.nil_append, run, last]
    | cons d ds ih =>
      intro h hmore
      obtain ⟨hd, hds⟩ := List.forall_mem_cons.mp hmore
      have next := ih (read ++ [d]) (by simp [h]) hds
      simpa [run, step, hd] using next
  cases token with
  | nil => cases hread
  | cons d ds =>
    obtain ⟨hd, hds⟩ := List.forall_mem_cons.mp hchars
    have other : ∀ e, isScalarChar e = false → d ≠ e := fun e he h => by simp [← h, hd] at he
    have white : isWhite d = false := by
      simp [isWhite, other ' ' rfl, other '\t' rfl, other '\n' rfl, other '\r' rfl]
    have next := ends [d] ds rfl hds
    simpa [run, step, begin, white, other '{' rfl, other '[' rfl, other '"' rfl, hd] using next

/-! ## Values -/

variable {scalar : Str → Json ν → Prop}

/-- No value begins like the end of an array. -/
theorem Value.head (hscalar : ∀ t v, scalar t v → Lenient number t v) {t : Str} {v : Json ν}
    (h : Value scalar t v) :
    ∃ c cs, t = c :: cs ∧ isWhite c = false ∧ c ≠ ']' := by
  cases h with
  | scalar h =>
    obtain ⟨hread, hchars⟩ := hscalar _ _ h
    cases t with
    | nil => cases hread
    | cons c cs =>
      have hc : isScalarChar c = true := hchars c (by simp)
      have other : ∀ d, isScalarChar d = false → c ≠ d := fun d hd e => by simp [← e, hc] at hd
      refine ⟨c, cs, rfl, ?_, other ']' rfl⟩
      simp [isWhite, other ' ' rfl, other '\t' rfl, other '\n' rfl, other '\r' rfl]
  | string h => exact ⟨'"', _, rfl, rfl, by decide⟩
  | emptyArray h => exact ⟨'[', _, rfl, rfl, by decide⟩
  | array h => exact ⟨'[', _, rfl, rfl, by decide⟩
  | emptyObject h => exact ⟨'{', _, rfl, rfl, by decide⟩
  | object h => exact ⟨'{', _, rfl, rfl, by decide⟩

/-- The first item of an array reads like any other. -/
theorem run_firstItem (hscalar : ∀ t v, scalar t v → Lenient number t v) {t : Str}
    {vs : List (Json ν)} (h : Items scalar t vs) (stack : List (Frame ν)) (rest : Str) :
    run number ⟨.firstItem, stack⟩ (t ++ rest) = run number ⟨.value, stack⟩ (t ++ rest) := by
  have first : ∀ {w u more : Str} {v : Json ν}, White w → Value scalar u v →
      run number ⟨.firstItem, stack⟩ (w ++ (u ++ more)) =
        run number ⟨.value, stack⟩ (w ++ (u ++ more)) := by
    intro w u more v hw hu
    obtain ⟨c, cs, rfl, hwhite, hne⟩ := hu.head hscalar
    rw [run_white (fun d hd => by simp [step, hd]) hw, run_white (fun d hd => by simp [step, hd]) hw]
    simp [run, step, hwhite, hne]
  cases h with
  | last hw hu _ =>
    rw [List.append_assoc, List.append_assoc]
    exact first hw hu
  | more hw hu _ _ =>
    rw [List.append_assoc, List.append_assoc]
    exact first hw hu

/-- So does the first key of an object. -/
theorem run_firstKey {t : Str} {ms : List (Points × Json ν)} (h : Members scalar t ms)
    (stack : List (Frame ν)) (rest : Str) :
    run number ⟨.firstKey, stack⟩ (t ++ rest) = run number ⟨.key, stack⟩ (t ++ rest) := by
  have first : ∀ {w more : Str}, White w → run number ⟨.firstKey, stack⟩ (w ++ '"' :: more) =
      run number ⟨.key, stack⟩ (w ++ '"' :: more) := by
    intro w more hw
    rw [run_white (fun d hd => by simp [step, hd]) hw, run_white (fun d hd => by simp [step, hd]) hw]
    rfl
  cases h with
  | last hw _ _ _ _ _ =>
    rw [List.append_assoc]
    exact first hw
  | more hw _ _ _ _ _ _ =>
    rw [List.append_assoc]
    exact first hw

/-- A key with its colon. -/
theorem run_key {w k x y : Str} {s : Points} (hw : White w) (hk : Chars [] k s) (hx : White x)
    (hy : White y) (members : List (Points × Json ν)) (last : Points) (stack : List (Frame ν))
    (rest : Str) :
    run number ⟨.key, .obj members last :: stack⟩
        (w ++ '"' :: (k ++ '"' :: (x ++ ':' :: (y ++ rest)))) =
      run number ⟨.value, .obj members s :: stack⟩ rest := by
  have opened : step number ⟨.key, .obj members last :: stack⟩ '"' =
      some ⟨.string true [], .obj members last :: stack⟩ := rfl
  have colon : step number ⟨.colon, .obj members s :: stack⟩ ':' =
      some ⟨.value, .obj members s :: stack⟩ := rfl
  rw [run_white (fun c hc => by simp [step, hc]) hw, run, opened, Option.bind_some,
    run_chars hk, finishString, Option.bind_some, run_white (fun c hc => by simp [step, hc]) hx,
    run, colon, Option.bind_some, run_white (fun c hc => by simp [step, hc]) hy]

mutual

/-- The reader has a derived value whole at the next character. -/
theorem run_value (hscalar : ∀ t v, scalar t v → Lenient number t v) {t : Str} {v : Json ν} :
    Value scalar t v → ∀ (stack : List (Frame ν)) {c : Char}, isScalarChar c = false →
    ∀ rest : Str,
    run number ⟨.value, stack⟩ (t ++ c :: rest) = run number (complete v stack) (c :: rest)
  | .scalar h, stack, _, hc, rest => run_scalar (hscalar _ _ h).1 (hscalar _ _ h).2 hc stack rest
  | @Value.string _ _ k s h, stack, c, _, rest => by
    have body : run number _ _ = _ := run_chars h false stack (c :: rest)
    simpa [run, step, begin, finishString, isWhite] using body
  | @Value.emptyArray _ _ w h, stack, c, _, rest => by
    have body : run number ⟨.firstItem, .arr [] :: stack⟩ (w ++ ']' :: c :: rest) =
        run number (complete (.arr []) stack) (c :: rest) :=
      run_white (fun d hd => by simp [step, hd]) h (']' :: c :: rest)
    simpa [run, step, begin, isWhite] using body
  | @Value.array _ _ u vs h, stack, c, _, rest => by
    have body := run_items hscalar h [] stack (c :: rest)
    rw [← run_firstItem hscalar h] at body
    simpa [run, step, begin, isWhite] using body
  | @Value.emptyObject _ _ w h, stack, c, _, rest => by
    have body : run number ⟨.firstKey, .obj [] [] :: stack⟩ (w ++ '}' :: c :: rest) =
        run number (complete (.obj []) stack) (c :: rest) :=
      run_white (fun d hd => by simp [step, hd]) h ('}' :: c :: rest)
    simpa [run, step, begin, isWhite] using body
  | @Value.object _ _ u ms h, stack, c, _, rest => by
    have body := run_members hscalar h [] [] stack (c :: rest)
    rw [← run_firstKey h] at body
    simpa [run, step, begin, isWhite] using body

theorem run_items (hscalar : ∀ t v, scalar t v → Lenient number t v) {t : Str}
    {vs : List (Json ν)} : Items scalar t vs → ∀ (read : List (Json ν)) (stack : List (Frame ν))
    (rest : Str),
    run number ⟨.value, .arr read :: stack⟩ (t ++ ']' :: rest) =
      run number (complete (.arr (read ++ vs)) stack) rest
  | @Items.last _ _ w t z v hw h hz, read, stack, rest => by
    obtain ⟨d, ds, hd, hdscalar⟩ := hz.head (c := ']') rfl rest
    calc run number ⟨.value, .arr read :: stack⟩ ((w ++ (t ++ z)) ++ ']' :: rest)
        = run number ⟨.value, .arr read :: stack⟩ (t ++ d :: ds) := by
          rw [List.append_assoc, List.append_assoc, hd,
            run_white (fun c hc => by simp [step, hc]) hw]
      _ = run number (complete v (.arr read :: stack)) (z ++ ']' :: rest) := by
          rw [run_value hscalar h _ hdscalar, hd]
      _ = run number (complete (.arr (read ++ [v])) stack) rest := by
          rw [run_complete_white hz]
          rfl
  | @Items.more _ _ w t z u v vs hw h hz hu, read, stack, rest => by
    obtain ⟨d, ds, hd, hdscalar⟩ := hz.head (c := ',') rfl (u ++ ']' :: rest)
    calc run number ⟨.value, .arr read :: stack⟩ ((w ++ (t ++ (z ++ ',' :: u))) ++ ']' :: rest)
        = run number ⟨.value, .arr read :: stack⟩ (t ++ d :: ds) := by
          rw [← hd, List.append_assoc, run_white (fun c hc => by simp [step, hc]) hw]
          simp only [List.append_assoc, List.cons_append]
      _ = run number (complete v (.arr read :: stack)) (z ++ ',' :: (u ++ ']' :: rest)) := by
          rw [run_value hscalar h _ hdscalar, hd]
      _ = run number ⟨.value, .arr (read ++ [v]) :: stack⟩ (u ++ ']' :: rest) := by
          rw [run_complete_white hz]
          rfl
      _ = run number (complete (.arr (read ++ v :: vs)) stack) rest := by
          rw [run_items hscalar hu, List.append_assoc]
          rfl

theorem run_members (hscalar : ∀ t v, scalar t v → Lenient number t v) {t : Str}
    {ms : List (Points × Json ν)} : Members scalar t ms → ∀ (read : List (Points × Json ν))
    (last : Points) (stack : List (Frame ν)) (rest : Str),
    run number ⟨.key, .obj read last :: stack⟩ (t ++ '}' :: rest) =
      run number (complete (.obj (ms.foldl (fun d m => Dict.set d m.1 m.2) read)) stack) rest
  | @Members.last _ _ w k x y t z s v hw hk h₁ h₂ h hz, read, last, stack, rest => by
    obtain ⟨d, ds, hd, hdscalar⟩ := hz.head (c := '}') rfl rest
    calc run number ⟨.key, .obj read last :: stack⟩
          ((w ++ '"' :: (k ++ '"' :: (x ++ ':' :: (y ++ (t ++ z))))) ++ '}' :: rest)
        = run number ⟨.value, .obj read s :: stack⟩ (t ++ d :: ds) := by
          rw [← run_key hw hk h₁ h₂ read last stack (t ++ d :: ds), ← hd]
          simp only [List.append_assoc, List.cons_append]
      _ = run number (complete v (.obj read s :: stack)) (z ++ '}' :: rest) := by
          rw [run_value hscalar h _ hdscalar, hd]
      _ = run number (complete (.obj (Dict.set read s v)) stack) rest := by
          rw [run_complete_white hz]
          rfl
  | @Members.more _ _ w k x y t z u s v ms hw hk h₁ h₂ h hz hu, read, last, stack, rest => by
    obtain ⟨d, ds, hd, hdscalar⟩ := hz.head (c := ',') rfl (u ++ '}' :: rest)
    calc run number ⟨.key, .obj read last :: stack⟩
          ((w ++ '"' :: (k ++ '"' :: (x ++ ':' :: (y ++ (t ++ (z ++ ',' :: u)))))) ++ '}' :: rest)
        = run number ⟨.value, .obj read s :: stack⟩ (t ++ d :: ds) := by
          rw [← run_key hw hk h₁ h₂ read last stack (t ++ d :: ds), ← hd]
          simp only [List.append_assoc, List.cons_append]
      _ = run number (complete v (.obj read s :: stack)) (z ++ ',' :: (u ++ '}' :: rest)) := by
          rw [run_value hscalar h _ hdscalar, hd]
      _ = run number ⟨.key, .obj (Dict.set read s v) s :: stack⟩ (u ++ '}' :: rest) := by
          rw [run_complete_white hz]
          rfl
      _ = run number (complete (.obj (((s, v) :: ms).foldl (fun d m => Dict.set d m.1 m.2) read))
            stack) rest := by
          rw [run_members hscalar hu, List.foldl_cons]

end

/-- **A text that is derived for a value is read as that value.** -/
theorem loads_document (hscalar : ∀ t v, scalar t v → Lenient number t v) {t : Str} {v : Json ν} (h : Document scalar t v) :
    loads number t = some v := by
  cases h with
  | @mk w t z v hw h hz =>
    obtain ⟨d, ds, hd, hdscalar⟩ := hz.head (c := '\n') rfl []
    rw [loads_eq_some]
    calc run number start ((w ++ (t ++ z)) ++ ['\n'])
        = run number ⟨.value, []⟩ (t ++ d :: ds) := by
          rw [← hd, List.append_assoc, List.append_assoc, start,
            run_white (fun c hc => by simp [step, hc]) hw]
      _ = run number (complete v []) (z ++ ['\n']) := by rw [run_value hscalar h _ hdscalar, hd]
      _ = some ⟨.done v, []⟩ := by
          rw [run_complete_white hz]
          rfl


/-! ## Dialects read -/

theorem readScalar_of_isNumber {t : Str} (h : isNumber t = true) :
    readScalar number t = some (.num (number t)) := by
  have other : ∀ {u : Str}, isNumber u = false → t ≠ u := fun hu e => by
    rw [e, hu] at h
    cases h
  rw [readScalar, if_neg (other rfl), if_neg (other rfl), if_neg (other rfl), h, Bool.true_or,
    if_pos rfl]

theorem isScalarChar_of_isDigits {t : Str} (h : isDigits t = true) :
    ∀ c ∈ t, isScalarChar c = true := by
  intro c hc
  have hdigit : isDigit c = true := List.all_eq_true.mp (Bool.and_eq_true_iff.mp h).2 c hc
  simp [isScalarChar, hdigit]

theorem isScalarChar_of_isInteger {t : Str} (h : isInteger t = true) :
    ∀ c ∈ t, isScalarChar c = true := by
  unfold isInteger at h
  split at h
  · cases h
  · obtain rfl := of_decide_eq_true h
    simp [isScalarChar, isDigit]
  · exact isScalarChar_of_isDigits h

theorem isScalarChar_of_isExponent {t : Str} (h : isExponent t = true) :
    ∀ c ∈ t, isScalarChar c = true := by
  unfold isExponent at h
  split at h
  · exact List.forall_mem_cons.mpr ⟨rfl, isScalarChar_of_isDigits h⟩
  · exact List.forall_mem_cons.mpr ⟨rfl, isScalarChar_of_isDigits h⟩
  · exact isScalarChar_of_isDigits h

/-- A part that may be missing begins with the character that the text was cut at. -/
theorem isScalarChar_of_tail {t : Str} {stop : Char → Bool} {tailOk : Str → Bool}
    (hstop : ∀ c, stop c = false → isScalarChar c = true)
    (htail : ∀ u, tailOk u = true → ∀ c ∈ u, isScalarChar c = true)
    (h : (t.dropWhile stop = [] || tailOk (t.dropWhile stop).tail) = true) :
    ∀ c ∈ t.dropWhile stop, isScalarChar c = true := by
  cases hpart : t.dropWhile stop with
  | nil => nofun
  | cons c cs =>
    rw [hpart] at h
    have hhead : stop c = false := by
      have hne : t.dropWhile stop ≠ [] := by simp [hpart]
      have hnot := List.head_dropWhile_not stop hne
      simpa [hpart] using hnot
    have hrest : tailOk cs = true := by simpa using h
    exact List.forall_mem_cons.mpr ⟨hstop c hhead, htail cs hrest⟩

theorem isScalarChar_of_isNumber {t : Str} (h : isNumber t = true) :
    ∀ c ∈ t, isScalarChar c = true := by
  simp only [isNumber, Bool.and_eq_true] at h
  obtain ⟨⟨hinteger, hfraction⟩, hexponent⟩ := h
  set u := if t.head? = some '-' then t.tail else t with hu
  set mantissa := u.takeWhile fun c => c ≠ 'e' && c ≠ 'E'
  have hpoint : ∀ c, decide (c ≠ '.') = false → isScalarChar c = true := by
    intro c hc
    obtain rfl : c = '.' := by simpa using hc
    rfl
  have hletter : ∀ c, (decide (c ≠ 'e') && decide (c ≠ 'E')) = false → isScalarChar c = true := by
    intro c hc
    rcases Bool.and_eq_false_iff.mp hc with hc | hc
    · obtain rfl : c = 'e' := by simpa using hc
      rfl
    · obtain rfl : c = 'E' := by simpa using hc
      rfl
  have hmantissa : ∀ c ∈ mantissa, isScalarChar c = true := by
    intro c hc
    rw [← List.takeWhile_append_dropWhile (p := (decide <| · ≠ '.')) (l := mantissa)] at hc
    rcases List.mem_append.mp hc with hc | hc
    · exact isScalarChar_of_isInteger hinteger c hc
    · exact isScalarChar_of_tail hpoint (fun _ => isScalarChar_of_isDigits) hfraction c hc
  have hunsigned : ∀ c ∈ u, isScalarChar c = true := by
    intro c hc
    rw [← List.takeWhile_append_dropWhile (p := fun c => decide (c ≠ 'e') && decide (c ≠ 'E'))
      (l := u)] at hc
    rcases List.mem_append.mp hc with hc | hc
    · exact hmantissa c hc
    · exact isScalarChar_of_tail hletter (fun _ => isScalarChar_of_isExponent) hexponent c hc
  by_cases hsign : t.head? = some '-'
  · rw [if_pos hsign] at hu
    obtain ⟨rest, rfl⟩ := List.head?_eq_some_iff.mp hsign
    exact List.forall_mem_cons.mpr ⟨rfl, fun c hc => hunsigned c (hu ▸ hc)⟩
  · rw [if_neg hsign] at hu
    exact hu ▸ hunsigned

/-- The lenient dialect has every scalar of the standard. -/
theorem lenient_of_standard {t : Str} {v : Json ν} (h : Standard number t v) :
    Lenient number t v := by
  cases h with
  | null => exact ⟨rfl, List.all_eq_true.mp rfl⟩
  | true => exact ⟨rfl, List.all_eq_true.mp rfl⟩
  | false => exact ⟨rfl, List.all_eq_true.mp rfl⟩
  | num h => exact ⟨readScalar_of_isNumber h, isScalarChar_of_isNumber h⟩

end DeltaForgeBench.Base.JsonGrammar
