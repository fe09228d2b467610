import DeltaForgeBench.Base.Text

/-! # Lines of fields

A text with two separators is a list of lines, each a list of fields. Two texts
with a field separator between them share the line they meet in. -/
namespace DeltaForgeBench.Base.Fields
open DeltaForgeBench.Base.Text

variable {α β : Type} {n t : Char}

/-- Two lists of lines that share the line they meet in. -/
def beside : List (List α) → List (List α) → List (List α)
  | [], m => m
  | [r], [] => [r]
  | [r], s :: m => (r ++ s) :: m
  | r :: l, m => r :: beside l m

/-- The lines of a text, at `n`, and their fields, at `t`. -/
def fields (n t : Char) (text : Str) : List (List Str) := (splitOnChar n text).map (splitOnChar t)

theorem map_beside (f : α → β) (l m : List (List α)) :
    (beside l m).map (List.map f) = beside (l.map (List.map f)) (m.map (List.map f)) := by
  induction l with
  | nil => rfl
  | cons r l ih =>
    cases l with
    | nil => cases m <;> simp [beside]
    | cons s l =>
      rw [List.map_cons, List.map_cons]
      show r.map f :: (beside (s :: l) m).map (List.map f) = _
      rw [ih]
      rfl

theorem beside_cons {r : List α} {l m : List (List α)} (h : l ≠ []) :
    beside (r :: l) m = r :: beside l m := by
  cases l with
  | nil => exact absurd rfl h
  | cons s l => rfl

theorem fields_ne_nil (text : Str) : fields n t text ≠ [] := by
  simpa [fields] using splitOnChar_ne_nil n text

theorem splitOnChar_injective (c : Char) : Function.Injective (splitOnChar c) := by
  intro a b h
  have ended : a ++ [c] = b ++ [c] := by rw [← flatMap_splitOnChar, h, flatMap_splitOnChar]
  exact List.append_cancel_right ended

theorem fields_free {text : Str} (hn : n ∉ text) (ht : t ∉ text) : fields n t text = [[text]] := by
  rw [fields, splitOnChar_eq_singleton hn, List.map_singleton, splitOnChar_eq_singleton ht]

/-- A character in front of a line, as the first field of it sees it. -/
def push (t d : Char) : List (List Str) → List (List Str)
  | [] => []
  | line :: rest =>
    (if d = t then [] :: line
      else match line with
        | [] => [[d]]
        | field :: more => (d :: field) :: more) :: rest

theorem fields_cons {d : Char} (hd : d ≠ n) (text : Str) :
    fields n t (d :: text) = push t d (fields n t text) := by
  rw [fields, fields, splitOnChar, if_neg hd]
  cases hlines : splitOnChar n text with
  | nil => exact absurd hlines (splitOnChar_ne_nil n text)
  | cons line rest =>
    show (splitOnChar t (d :: line)) :: _ = _
    rw [splitOnChar]
    rfl

theorem fields_break (text : Str) : fields n t (n :: text) = [[]] :: fields n t text := by
  rw [fields, splitOnChar, if_pos rfl]
  rfl

theorem push_beside {d : Char} {l m : List (List Str)} (h : l ≠ []) (hhead : ∀ r ∈ l, r ≠ []) :
    push t d (beside l m) = beside (push t d l) m := by
  cases l with
  | nil => exact absurd rfl h
  | cons r l =>
    obtain ⟨field, more, rfl⟩ := List.exists_cons_of_ne_nil (hhead r List.mem_cons_self)
    cases l with
    | nil =>
      cases m with
      | nil => rfl
      | cons s m =>
        show push t d ((field :: more ++ s) :: m) = beside [_] (s :: m)
        by_cases hd : d = t <;> simp [push, beside, hd]
    | cons s l => rfl

theorem field_ne_nil {text : Str} : ∀ line ∈ fields n t text, line ≠ [] := by
  intro line hline
  obtain ⟨u, -, rfl⟩ := List.mem_map.mp hline
  exact splitOnChar_ne_nil t u

/-- A field separator puts two texts beside each other. -/
theorem fields_append (hnt : t ≠ n) (a b : Str) :
    fields n t (a ++ t :: b) = beside (fields n t a) (fields n t b) := by
  induction a with
  | nil =>
    rw [List.nil_append, fields_cons hnt]
    show _ = beside [[[]]] (fields n t b)
    cases hb : fields n t b with
    | nil => exact absurd hb (fields_ne_nil b)
    | cons line rest => simp [push, beside]
  | cons d a ih =>
    by_cases hd : d = n
    · subst hd
      rw [List.cons_append, fields_break, fields_break, ih, beside_cons (fields_ne_nil a)]
    · rw [List.cons_append, fields_cons hd, fields_cons hd, ih,
        push_beside (fields_ne_nil a) field_ne_nil]

end DeltaForgeBench.Base.Fields
