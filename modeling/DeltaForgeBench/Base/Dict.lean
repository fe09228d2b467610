import Mathlib.Data.List.Induction
import Mathlib.Data.List.Nodup

/-! # Insertion-ordered dictionaries and folds that write

A `dict` is its list of items in insertion order. Writing a present key keeps
its place. Grouping a list with a `defaultdict(list)` gives, for every key
that occurs, the sublist of its items in their order. -/
namespace DeltaForgeBench.Base.Dict

variable {κ α ρ σ : Type*} [DecidableEq κ]

/-- `d[k] = v`. -/
def set (d : List (κ × α)) (k : κ) (v : α) : List (κ × α) :=
  match d with
  | [] => [(k, v)]
  | (k', v') :: rest => if k' = k then (k, v) :: rest else (k', v') :: set rest k v

/-- `d.get(k)`. -/
def get? (d : List (κ × α)) (k : κ) : Option α :=
  match d with
  | [] => none
  | (k', v) :: rest => if k' = k then some v else get? rest k

@[simp] theorem get?_nil (k : κ) : get? ([] : List (κ × α)) k = none := rfl

theorem get?_cons (k' k : κ) (v : α) (rest : List (κ × α)) :
    get? ((k', v) :: rest) k = if k' = k then some v else get? rest k := rfl

theorem get?_set (d : List (κ × α)) (k k' : κ) (v : α) :
    get? (set d k v) k' = if k = k' then some v else get? d k' := by
  induction d with
  | nil => simp [set, get?_cons]
  | cons head rest ih =>
    obtain ⟨k₀, v₀⟩ := head
    by_cases h : k₀ = k
    · subst h
      by_cases hk : k₀ = k' <;> simp [set, get?_cons, hk]
    · simp only [set, h, if_false, get?_cons, ih]
      by_cases hk : k₀ = k'
      · subst hk; simp [Ne.symm h]
      · simp [hk]

/-- A new key goes to the end. -/
theorem set_new {d : List (κ × α)} {k : κ} (h : k ∉ d.map Prod.fst) (v : α) :
    set d k v = d ++ [(k, v)] := by
  induction d with
  | nil => rfl
  | cons head rest ih =>
    obtain ⟨k₀, v₀⟩ := head
    simp only [List.map_cons, List.mem_cons, not_or] at h
    simp [set, Ne.symm h.1, ih h.2]

/-- Members with new and distinct keys stay as they are. -/
theorem foldl_set {d ms : List (κ × α)} (h : ((d ++ ms).map Prod.fst).Nodup) :
    ms.foldl (fun d m => set d m.1 m.2) d = d ++ ms := by
  induction ms generalizing d with
  | nil => rw [List.foldl_nil, List.append_nil]
  | cons m ms ih =>
    have hnew : m.1 ∉ d.map Prod.fst := by
      rw [List.map_append, List.nodup_append] at h
      exact fun hmem => h.2.2 m.1 hmem m.1 (by simp) rfl
    have assoc : d ++ m :: ms = (d ++ [m]) ++ ms := List.append_cons d m ms
    rw [List.foldl_cons, set_new hnew, ih (assoc ▸ h), assoc]

/-- A lookup in a dict built over the items of another. -/
theorem get?_map {β : Type*} (f : κ → α → β) (d : List (κ × α)) (k : κ) :
    get? (d.map fun (k, v) => (k, f k v)) k = (get? d k).map (f k) := by
  induction d with
  | nil => rfl
  | cons head rest ih =>
    obtain ⟨k₀, v₀⟩ := head
    simp only [List.map_cons, get?_cons]
    split
    · rename_i h
      simp [h]
    · exact ih

theorem keys_set (d : List (κ × α)) (k : κ) (v : α) :
    (set d k v).map Prod.fst =
      if k ∈ d.map Prod.fst then d.map Prod.fst else d.map Prod.fst ++ [k] := by
  induction d with
  | nil => simp [set]
  | cons head rest ih =>
    obtain ⟨k₀, v₀⟩ := head
    by_cases h : k₀ = k
    · subst h; simp [set]
    · simp only [set, h, if_false, List.map_cons, ih, List.mem_cons, Ne.symm h, false_or]
      split <;> simp

theorem nodup_keys_set {d : List (κ × α)} (h : (d.map Prod.fst).Nodup) (k : κ) (v : α) :
    ((set d k v).map Prod.fst).Nodup := by
  rw [keys_set]
  split
  · exact h
  · rename_i hk
    exact List.nodup_append.mpr ⟨h, by simp, by
      intro a ha b hb e
      subst e
      exact hk (List.mem_singleton.mp hb ▸ ha)⟩

/-- A write under a key that the filter drops does not show. -/
theorem filter_set (p : κ × α → Bool) {k : κ} (hp : ∀ v, p (k, v) = false) (d : List (κ × α))
    (v : α) : (set d k v).filter p = d.filter p := by
  induction d with
  | nil => simp [set, hp]
  | cons head rest ih =>
    obtain ⟨k₀, v₀⟩ := head
    by_cases h : k₀ = k
    · subst h
      simp [set, hp]
    · simp only [set, h, if_false, List.filter_cons, ih]

theorem get?_isSome_iff {d : List (κ × α)} {k : κ} : (get? d k).isSome ↔ k ∈ d.map Prod.fst := by
  induction d with
  | nil => simp
  | cons head rest ih =>
    obtain ⟨k₀, v₀⟩ := head
    by_cases h : k₀ = k
    · simp [get?_cons, h]
    · simp [get?_cons, h, ih, Ne.symm h]

theorem mem_of_get? {d : List (κ × α)} {k : κ} {v : α} (h : get? d k = some v) : (k, v) ∈ d := by
  induction d with
  | nil => cases h
  | cons head rest ih =>
    obtain ⟨k₀, v₀⟩ := head
    rw [get?_cons] at h
    split at h
    · rename_i heq
      rw [heq, Option.some.inj h]
      exact List.mem_cons_self
    · exact List.mem_cons_of_mem _ (ih h)

/-- Among distinct keys a lookup finds an item exactly when the item is there. -/
theorem get?_eq_some_iff {d : List (κ × α)} (hnd : (d.map Prod.fst).Nodup) {k : κ} {v : α} :
    get? d k = some v ↔ (k, v) ∈ d := by
  induction d with
  | nil => simp
  | cons head rest ih =>
    obtain ⟨k₀, v₀⟩ := head
    obtain ⟨hnot, hrest⟩ := List.nodup_cons.mp hnd
    by_cases h : k₀ = k
    · subst h
      have habsent : (k₀, v) ∉ rest := fun hm => hnot (List.mem_map.mpr ⟨_, hm, rfl⟩)
      simp [get?_cons, habsent, eq_comm]
    · simp [get?_cons, h, ih hrest, Ne.symm h]

/-- Dicts that look up alike hold the same items. -/
theorem perm_of_get? {d e : List (κ × α)} (hd : (d.map Prod.fst).Nodup)
    (he : (e.map Prod.fst).Nodup) (h : ∀ k, get? d k = get? e k) : d.Perm e := by
  refine (List.perm_ext_iff_of_nodup (List.Nodup.of_map _ hd) (List.Nodup.of_map _ he)).mpr ?_
  intro item
  obtain ⟨k, v⟩ := item
  rw [← get?_eq_some_iff hd, ← get?_eq_some_iff he, h]

/-- Among distinct keys, picking by key is looking up. -/
theorem filterMap_key {β : Type*} (f : α → Option β) {d : List (κ × α)}
    (hnd : (d.map Prod.fst).Nodup) (k : κ) :
    (d.filterMap fun (k', v) => if k' = k then f v else none) = ((get? d k).bind f).toList := by
  induction d with
  | nil => rfl
  | cons head rest ih =>
    obtain ⟨k₀, v₀⟩ := head
    obtain ⟨hnot, hrest⟩ := List.nodup_cons.mp hnd
    by_cases h : k₀ = k
    · subst h
      have absent : get? rest k₀ = none := by
        rw [← Option.not_isSome_iff_eq_none, get?_isSome_iff]
        exact hnot
      have tail := ih hrest
      rw [absent, Option.bind_none, Option.toList_none] at tail
      rw [List.filterMap_cons, get?_cons, if_pos rfl, tail]
      simp only [if_true, Option.bind_some]
      cases f v₀ <;> rfl
    · simpa [get?_cons, h] using ih hrest

/-! ## Lists as values -/

/-- `d[k].append(x)` of a `defaultdict(list)`. -/
def append (d : List (κ × List α)) (k : κ) (x : α) : List (κ × List α) :=
  set d k ((get? d k).getD [] ++ [x])

theorem getD_append (d : List (κ × List α)) (k k' : κ) (x : α) :
    (get? (append d k x) k').getD [] = (get? d k').getD [] ++ if k = k' then [x] else [] := by
  rw [append, get?_set]
  by_cases h : k = k'
  · rw [if_pos h, if_pos h, Option.getD_some, h]
  · rw [if_neg h, if_neg h, List.append_nil]

theorem nodup_keys_append {d : List (κ × List α)} (h : (d.map Prod.fst).Nodup) (k : κ) (x : α) :
    ((append d k x).map Prod.fst).Nodup :=
  nodup_keys_set h k _

/-- `{k: f(v) for k, v in d.items()}`, without the keys whose value has none. -/
def mapValues {β : Type*} (f : α → Option β) (d : List (κ × α)) : List (κ × β) :=
  d.filterMap fun m => (f m.2).map fun y => (m.1, y)

theorem get?_mapValues {β : Type*} (f : α → Option β) {d : List (κ × α)}
    (h : (d.map Prod.fst).Nodup) (k : κ) : get? (mapValues f d) k = (get? d k).bind f := by
  induction d with
  | nil => rfl
  | cons m rest ih =>
    obtain ⟨k₀, v⟩ := m
    obtain ⟨hnot, hrest⟩ := List.nodup_cons.mp h
    have tail := ih hrest
    rw [mapValues] at tail
    rw [mapValues, List.filterMap_cons, get?_cons]
    by_cases hk : k₀ = k
    · subst hk
      have absent : get? rest k₀ = none := by
        rw [← Option.not_isSome_iff_eq_none, get?_isSome_iff]
        exact hnot
      rw [absent, Option.bind_none] at tail
      rw [if_pos rfl, Option.bind_some]
      cases hv : f v with
      | none => simpa [hv] using tail
      | some y => simp [get?_cons]
    · rw [if_neg hk, ← tail]
      cases hv : f v with
      | none => simp
      | some y => simp [get?_cons, hk]

/-! ## Grouping -/

/-- `groups[key(r)].append(r)` over a `defaultdict(list)`. -/
def groupBy (key : ρ → κ) (l : List ρ) : List (κ × List ρ) :=
  l.foldl (fun groups r => set groups (key r) (((get? groups (key r)).getD []) ++ [r])) []

theorem groupBy_append_singleton (key : ρ → κ) (l : List ρ) (r : ρ) :
    groupBy key (l ++ [r]) =
      set (groupBy key l) (key r) (((get? (groupBy key l) (key r)).getD []) ++ [r]) := by
  simp [groupBy]

/-- Every key is given the records that carry it, in order, and no other key
is present. -/
theorem get?_groupBy (key : ρ → κ) (l : List ρ) (k : κ) :
    get? (groupBy key l) k =
      if l.filter (fun r => key r = k) = [] then none else some (l.filter (fun r => key r = k)) := by
  induction l using List.reverseRecOn with
  | nil => simp [groupBy]
  | append_singleton l r ih =>
    rw [groupBy_append_singleton, get?_set]
    by_cases hk : key r = k
    · subst hk
      rw [if_pos rfl, ih]
      split <;> simp_all
    · rw [if_neg hk, ih]
      simp [List.filter_append, hk]

theorem nodup_keys_groupBy (key : ρ → κ) (l : List ρ) :
    ((groupBy key l).map Prod.fst).Nodup := by
  induction l using List.reverseRecOn with
  | nil => simp [groupBy]
  | append_singleton l r ih =>
    rw [groupBy_append_singleton]
    exact nodup_keys_set ih _ _

theorem mem_groupBy_iff {key : ρ → κ} {l : List ρ} {k : κ} {g : List ρ} :
    (k, g) ∈ groupBy key l ↔ g = l.filter (fun r => key r = k) ∧ g ≠ [] := by
  rw [← get?_eq_some_iff (nodup_keys_groupBy key l), get?_groupBy]
  split
  · rename_i h; simp [h]
  · rename_i h
    constructor
    · intro he; obtain rfl := Option.some.inj he; exact ⟨rfl, h⟩
    · rintro ⟨rfl, -⟩; rfl

theorem flatMap_set_append (d : List (κ × List ρ)) (k : κ) (r : ρ) :
    ((set d k (((get? d k).getD []) ++ [r])).flatMap Prod.snd).Perm (r :: d.flatMap Prod.snd) := by
  induction d with
  | nil => exact List.Perm.refl _
  | cons head rest ih =>
    obtain ⟨k₀, g⟩ := head
    by_cases h : k₀ = k
    · simp only [set, get?_cons, if_pos h, Option.getD_some, List.flatMap_cons, List.append_assoc,
        List.singleton_append]
      exact List.perm_middle
    · simp only [set, get?_cons, if_neg h, List.flatMap_cons]
      exact (ih.append_left g).trans List.perm_middle

/-- The groups hold the records, each once. -/
theorem flatMap_groupBy (key : ρ → κ) (l : List ρ) : ((groupBy key l).flatMap Prod.snd).Perm l := by
  induction l using List.reverseRecOn with
  | nil => exact List.Perm.refl _
  | append_singleton l r ih =>
    rw [groupBy_append_singleton]
    exact (flatMap_set_append _ _ r).trans ((ih.cons r).trans (List.perm_append_singleton r l).symm)

/-! ## Folds that overwrite -/

section Overwrite
variable {β : Type*} {step : σ → ρ → σ}

/-- What a fold keeps in a component that some items overwrite. -/
theorem foldl_overwrite {f : σ → β} {w : ρ → Option β}
    (h : ∀ s r, f (step s r) = (w r).getD (f s)) (l : List ρ) (s : σ) :
    f (l.foldl step s) = ((l.filterMap w).getLast?).getD (f s) := by
  induction l generalizing s with
  | nil => simp
  | cons r rest ih =>
    rw [List.foldl_cons, ih, h, List.filterMap_cons]
    cases hw : w r with
    | none => simp
    | some v =>
      cases ht : rest.filterMap w with
      | nil => simp
      | cons a as => simp [List.getLast?_cons]

/-- The same for a component that is a value or nothing yet, when no item
erases it. -/
theorem foldl_last_write {f : σ → Option β} {w : ρ → Option β}
    (h : ∀ s r, f (step s r) = (w r).or (f s)) (l : List ρ) (s : σ) :
    f (l.foldl step s) = (l.filterMap w).getLast?.or (f s) := by
  rw [foldl_overwrite (f := f) (w := fun r => (w r).map some)
    (fun s r => by rw [h]; cases w r <;> rfl)]
  have hmap : (l.filterMap fun r => (w r).map some) = (l.filterMap w).map some := by
    rw [List.map_filterMap]
  rw [hmap, List.getLast?_map]
  cases (l.filterMap w).getLast? <;> rfl

end Overwrite

/-! ## Partial readers -/

theorem mapM_some {f : ρ → Option σ} {g : ρ → σ} {l : List ρ}
    (h : ∀ a ∈ l, f a = some (g a)) : l.mapM f = some (l.map g) := by
  induction l with
  | nil => rfl
  | cons a as ih =>
    obtain ⟨ha, has⟩ := List.forall_mem_cons.mp h
    simp [List.mapM_cons, ha, ih has]

theorem mapM_none {f : ρ → Option σ} {l : List ρ} {a : ρ} (ha : a ∈ l)
    (h : f a = none) : l.mapM f = none := by
  induction l with
  | nil => cases ha
  | cons b bs ih =>
    rw [List.mapM_cons]
    rcases List.mem_cons.mp ha with rfl | ha
    · simp [h]
    · simp [ih ha]

/-- A list read through a partial reader ends with the reading of its last
readable item. -/
theorem getLast?_filterMap_of_last {read : ρ → Option σ} {l : List ρ} {r : ρ} {x : σ}
    (hl : l.getLast? = some r) (hr : read r = some x) : (l.filterMap read).getLast? = some x := by
  obtain ⟨init, rfl⟩ := List.getLast?_eq_some_iff.mp hl
  simp [List.filterMap_append, hr]

end DeltaForgeBench.Base.Dict
