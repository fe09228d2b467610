import DeltaForgeBench.Base.Numeral
import DeltaForgeBench.Engines.Base

/-! # The steps of the graph workload

Every algorithm runs on every graph on both devices. The id of a step names the
three, with two underscores between them; the report reads them back from it by
a regular expression whose first group takes as little as it can. -/
namespace DeltaForgeBench.Workloads.GraphSteps
open DeltaForgeBench.Base.Text DeltaForgeBench.Base.Numeral DeltaForgeBench.Engines.Base

inductive Device
  | cpu | gpu
  deriving DecidableEq

def Device.text : Device → Str
  | .cpu => "cpu".toList
  | .gpu => "gpu".toList

/-- An entry of `ALGOS`. -/
structure Algo where
  key : Str
  label : Str
  call : Str
  klass : Str

def algos : List Algo :=
  [⟨"pagerank_i5".toList, "PageRank (5 iter)".toList,
    ("CALL algo.pageRank(\x7bdampingFactor: 0.85, iterations: 5\x7d) " ++
      "YIELD node_id, score, rank " ++
      "RETURN node_id, score, rank ORDER BY score DESC LIMIT 25").toList,
    "memory_bound".toList⟩,
   ⟨"pagerank_i50".toList, "PageRank (50 iter)".toList,
    ("CALL algo.pageRank(\x7bdampingFactor: 0.85, iterations: 50\x7d) " ++
      "YIELD node_id, score, rank " ++
      "RETURN node_id, score, rank ORDER BY score DESC LIMIT 25").toList,
    "compute_bound".toList⟩,
   ⟨"wcc".toList, "Connected Components".toList,
    ("CALL algo.connectedComponents() " ++
      "YIELD node_id, component_id " ++
      "RETURN component_id, count(*) AS sz ORDER BY sz DESC LIMIT 25").toList,
    "memory_bound".toList⟩,
   ⟨"louvain".toList, "Louvain".toList,
    ("CALL algo.louvain(\x7bresolution: 1.0\x7d) " ++
      "YIELD node_id, community_id " ++
      "RETURN community_id, count(*) AS sz ORDER BY sz DESC LIMIT 25").toList,
    "memory_bound".toList⟩,
   ⟨"triangles".toList, "Triangle Count".toList,
    ("CALL algo.triangleCount() " ++
      "YIELD node_id, triangle_count " ++
      "RETURN node_id, triangle_count ORDER BY triangle_count DESC LIMIT 25").toList,
    "compute_bound".toList⟩,
   ⟨"betweenness".toList, "Betweenness (sampled 128)".toList,
    ("CALL algo.betweenness(\x7bsamplingSize: 128\x7d) " ++
      "YIELD node_id, centrality, rank " ++
      "RETURN node_id, centrality, rank ORDER BY centrality DESC LIMIT 25").toList,
    "compute_bound".toList⟩]

/-- The id that `_algo_step` gives to a step. -/
def stepIdOf (key : Str) (m : Nat) (device : Device) : Str :=
  key ++ "__".toList ++ m.repr.toList ++ "m__".toList ++ device.text

/-- `_algo_step`. -/
def algoStep (m : Nat) (key label call : Str) (device : Device) : WorkloadStep :=
  let g := "graph_bench.g".toList ++ m.repr.toList ++ "m.g".toList
  { id := stepIdOf key m device
    kind := .cypherQuery
    sql := some (match device with
      | .gpu => "USE ".toList ++ g ++ " ON GPU THRESHOLD 1 ".toList ++ call
      | .cpu => "USE ".toList ++ g ++ " ".toList ++ call)
    description := label ++ " on ".toList ++ m.repr.toList ++ "M-node graph (".toList ++
      upper device.text ++ ")".toList }

/-! ## `_STEP_RE` -/

/-- `[a-z0-9_]`. -/
def isKeyChar (c : Char) : Bool := ('a' ≤ c && c ≤ 'z') || isDigit c || c = '_'

/-- `(cpu|gpu)$`; a line feed may stand behind the end. -/
def device? (t : Str) : Option Device :=
  if t = "cpu".toList ∨ t = "cpu\n".toList then some .cpu
  else if t = "gpu".toList ∨ t = "gpu\n".toList then some .gpu
  else none

/-- `m__(cpu|gpu)$`. -/
def deviceTail (t : Str) : Option Device :=
  match t with
  | 'm' :: '_' :: '_' :: dev => device? dev
  | _ => none

/-- `__(\d+)m__(cpu|gpu)$`. The digits end where the first other character stands. -/
def stepTail (t : Str) : Option (Nat × Device) :=
  match t with
  | '_' :: '_' :: rest =>
    let digits := rest.takeWhile isDigit
    if digits = [] then none
    else (deviceTail (rest.dropWhile isDigit)).map fun dev => (digitsValue digits, dev)
  | _ => none

/-- The shortest key of at least one character behind which the tail matches. -/
def matchFrom (algo : Str) : Str → Option (Str × Nat × Device)
  | [] => none
  | c :: cs =>
    match (if algo = [] then none else stepTail (c :: cs)) with
    | some (m, dev) => some (algo, m, dev)
    | none => if isKeyChar c then matchFrom (algo ++ [c]) cs else none

/-- `_STEP_RE.match`. -/
def stepRe (sid : Str) : Option (Str × Nat × Device) := matchFrom [] sid

/-! ## Ids read back -/

/-- What stands behind the key. -/
def idTail (m : Nat) (device : Device) : Str :=
  '_' :: '_' :: (m.repr.toList ++ 'm' :: '_' :: '_' :: device.text)

theorem stepIdOf_eq (key : Str) (m : Nat) (device : Device) :
    stepIdOf key m device = key ++ idTail m device := by
  simp only [stepIdOf, idTail, List.append_assoc]
  rfl

theorem stepTail_idTail (m : Nat) (device : Device) :
    stepTail (idTail m device) = some (m, device) := by
  have hdigits : (m.repr.toList ++ 'm' :: '_' :: '_' :: device.text).takeWhile isDigit =
      m.repr.toList := by
    rw [List.takeWhile_append_of_pos (isDigit_repr m), List.takeWhile_cons_of_neg (by decide),
      List.append_nil]
  have hrest : (m.repr.toList ++ 'm' :: '_' :: '_' :: device.text).dropWhile isDigit =
      'm' :: '_' :: '_' :: device.text := by
    rw [List.dropWhile_append_of_pos (isDigit_repr m), List.dropWhile_cons_of_neg (by decide)]
  have hdevice : deviceTail ('m' :: '_' :: '_' :: device.text) = some device := by
    cases device <;> rfl
  simp only [stepTail, idTail, hdigits, hrest, if_neg (repr_ne_nil m), hdevice, Option.map_some,
    digitsValue_repr]

/-- What a tail looks like. -/
theorem of_stepTail {t : Str} {m : Nat} {device : Device} (h : stepTail t = some (m, device)) :
    ∃ digits dev, (∀ c ∈ digits, isDigit c = true) ∧ device? dev = some device ∧
      t = '_' :: '_' :: (digits ++ 'm' :: '_' :: '_' :: dev) := by
  unfold stepTail at h
  split at h
  · rename_i rest
    dsimp only at h
    split at h
    · cases h
    · obtain ⟨d, hd, hpair⟩ := Option.map_eq_some_iff.mp h
      obtain ⟨-, rfl⟩ := Prod.mk.inj hpair
      unfold deviceTail at hd
      split at hd
      · rename_i dev hdrop
        refine ⟨rest.takeWhile isDigit, dev, fun c hc => List.mem_takeWhile_imp hc, hd, ?_⟩
        rw [← hdrop, List.takeWhile_append_dropWhile]
      · cases hd
  · cases h

theorem device?_eq {dev : Str} {device : Device} (h : device? dev = some device) :
    dev = device.text ∨ dev = device.text ++ ['\n'] := by
  unfold device? at h
  split at h
  · rename_i hdev
    obtain rfl := Option.some.inj h
    exact hdev
  split at h
  · rename_i hdev
    obtain rfl := Option.some.inj h
    exact hdev
  · cases h

theorem length_text (device : Device) : device.text.length = 3 := by
  cases device <;> rfl

/-- The text in front of digits at an end is determined by the whole. -/
theorem eq_of_append_digits {a b x y : Str} (hx : ∀ c ∈ x, isDigit c = true)
    (hy : ∀ c ∈ y, isDigit c = true) (h : a ++ '_' :: x = b ++ '_' :: y) : a = b := by
  have hunder : isDigit '_' = false := rfl
  have hrev : x.reverse ++ '_' :: a.reverse = y.reverse ++ '_' :: b.reverse := by
    simpa using congrArg List.reverse h
  have hdigits := congrArg (List.dropWhile isDigit) hrev
  rw [List.dropWhile_append_of_pos (by simpa using hx), List.dropWhile_append_of_pos (by simpa using hy),
    List.dropWhile_cons_of_neg (by simp [hunder]), List.dropWhile_cons_of_neg (by simp [hunder])]
    at hdigits
  exact List.reverse_inj.mp (List.cons.inj hdigits).2

/-- No tail begins in front of the last one. -/
theorem stepTail_append {b : Str} (hb : b ≠ []) (m : Nat) (device : Device) :
    stepTail (b ++ idTail m device) = none := by
  cases h : stepTail (b ++ idTail m device) with
  | none => rfl
  | some found =>
    obtain ⟨n, dev'⟩ := found
    obtain ⟨digits, dev, hdigits, hdev, htext⟩ := of_stepTail h
    have hlast : (b ++ idTail m device).getLast? = some 'u' := by
      have hsplit : b ++ idTail m device =
          (b ++ '_' :: '_' :: (m.repr.toList ++ ['m', '_', '_'])) ++ device.text := by
        simp [idTail]
      rw [hsplit, List.getLast?_append_of_ne_nil _ (by cases device <;> nofun)]
      cases device <;> rfl
    have hplain : dev = dev'.text := by
      rcases device?_eq hdev with hdev | hdev
      · exact hdev
      · have hline : (b ++ idTail m device).getLast? = some '\n' := by
          have hsplit : '_' :: '_' :: (digits ++ 'm' :: '_' :: '_' :: dev) =
              ('_' :: '_' :: (digits ++ 'm' :: '_' :: '_' :: dev'.text)) ++ ['\n'] := by
            simp [hdev]
          rw [htext, hsplit, List.getLast?_concat]
        rw [hlast] at hline
        cases hline
    subst hplain
    have hends : (b ++ '_' :: '_' :: m.repr.toList) ++ 'm' :: '_' :: '_' :: device.text =
        ('_' :: '_' :: digits) ++ 'm' :: '_' :: '_' :: dev'.text := by
      simpa [idTail] using htext
    have hfront := (List.append_inj' hends (by simp [length_text])).1
    have hkey : b ++ ['_'] = ['_'] := by
      refine eq_of_append_digits (isDigit_repr m) hdigits ?_
      simpa using hfront
    exact absurd (List.append_left_eq_self.mp hkey) hb

/-- The match runs through the key to its end. -/
theorem matchFrom_append {key : Str} (hkey : ∀ c ∈ key, isKeyChar c = true) (m : Nat)
    (device : Device) (algo : Str) (h : algo ++ key ≠ []) :
    matchFrom algo (key ++ idTail m device) = some (algo ++ key, m, device) := by
  induction key generalizing algo with
  | nil =>
    have hne : algo ≠ [] := by simpa using h
    have htail := stepTail_idTail m device
    rw [List.nil_append, List.append_nil]
    unfold idTail at htail ⊢
    rw [matchFrom, if_neg hne, htail]
  | cons c key ih =>
    obtain ⟨hc, hcs⟩ := List.forall_mem_cons.mp hkey
    have hnone : (if algo = [] then none else stepTail (c :: (key ++ idTail m device))) = none := by
      have htail := stepTail_append (List.cons_ne_nil c key) m device
      rw [List.cons_append] at htail
      rw [htail, ite_self]
    have hrest := ih hcs (algo ++ [c]) (by simp)
    rw [List.cons_append, matchFrom, hnone, if_pos hc, hrest, List.append_assoc]
    rfl

/-- The report reads a step's id as what it was built from. -/
theorem stepRe_stepIdOf {key : Str} (hne : key ≠ []) (hkey : ∀ c ∈ key, isKeyChar c = true)
    (m : Nat) (device : Device) : stepRe (stepIdOf key m device) = some (key, m, device) := by
  rw [stepRe, stepIdOf_eq, matchFrom_append hkey m device [] hne]
  rfl

end DeltaForgeBench.Workloads.GraphSteps
