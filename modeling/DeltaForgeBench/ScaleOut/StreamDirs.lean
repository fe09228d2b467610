import DeltaForgeBench.ScaleOut.Phases
import DeltaForgeBench.ScaleOut.Laws

/-! # From the streams to the curve

The orchestrator names the directory of a stream after its level, its run and
its index, and the aggregator reads these back. What it finds on the disk is
what the streams of the run have written, however their writes interleave. -/
namespace DeltaForgeBench.ScaleOut.StreamDirs
open DeltaForgeBench.Base.Text DeltaForgeBench.Base.Dict DeltaForgeBench.Base.Sorted
open DeltaForgeBench.Base.Numeral DeltaForgeBench.Base.Runs
open DeltaForgeBench.ScaleOut.Aggregate DeltaForgeBench.ScaleOut.Summary
open DeltaForgeBench.ScaleOut.Orchestrate DeltaForgeBench.ScaleOut.Phases

/-! ## The names -/

/-- What `date -u +%Y%m%dT%H%M%SZ` prints. -/
structure IsStamp (ts : Str) : Prop where
  length : ts.length = 16
  date : (ts.take 8).all isDigit = true
  separator : (ts.drop 8).take 1 = ['T']
  time : ((ts.drop 9).take 6).all isDigit = true
  zone : ts.drop 15 = ['Z']

theorem dropPrefix?_append (p t : Str) : (p ++ t).dropPrefix? p = some t := by
  rw [List.dropPrefix?_eq_some_iff]
  exact ⟨p, rfl, by simp⟩

theorem span_digits (n : Nat) (c : Char) (hc : isDigit c = false) (t : Str) :
    (natText n ++ c :: t).span isDigit = (natText n, c :: t) := by
  rw [List.span_eq_takeWhile_dropWhile, natText,
    List.takeWhile_append_of_pos (isDigit_repr n), List.dropWhile_append_of_pos (isDigit_repr n)]
  simp [hc]

theorem span_digits_end (n : Nat) : (natText n).span isDigit = (natText n, []) := by
  have all := isDigit_repr n
  rw [List.span_eq_takeWhile_dropWhile, natText, List.takeWhile_eq_self_iff.mpr all,
    List.dropWhile_eq_nil_iff.mpr all]

/-- The aggregator reads back what the orchestrator put into the name of a directory. -/
theorem parseStreamDir_tag {ts : Str} (h : IsStamp ts) (cfg : Config) (n : Nat) (i : Nat) :
    parseStreamDir (runStream cfg (atLevel ts n) i).streamTag = some (n, ts, i) := by
  have hsplit : (ts ++ "_s".toList ++ natText i).splitAt 16 = (ts, "_s".toList ++ natText i) := by
    rw [List.splitAt_eq, List.append_assoc, ← h.length]
    simp
  have htag : (runStream cfg (atLevel ts n) i).streamTag =
      "scaleout_n".toList ++ (natText n ++ '_' :: (ts ++ "_s".toList ++ natText i)) := by
    simp [runStream, atLevel, intText, natText, Int.repr]
  have hunder : isDigit '_' = false := rfl
  rw [htag, parseStreamDir, dropPrefix?_append]
  simp only [Option.bind_eq_bind, Option.bind_some, span_digits n '_' hunder]
  rw [show '_' :: (ts ++ "_s".toList ++ natText i) = ['_'] ++ (ts ++ "_s".toList ++ natText i) from rfl,
    dropPrefix?_append]
  simp only [Option.bind_some, hsplit]
  rw [dropPrefix?_append]
  simp only [Option.bind_some, span_digits_end]
  have hn : natText n ≠ [] := repr_ne_nil n
  have hi : natText i ≠ [] := repr_ne_nil i
  simp [h.date, h.separator, h.time, h.zone, hn, hi]
  exact ⟨digitsValue_repr n, digitsValue_repr i⟩

/-- The warm-up is no stream of a matrix. -/
theorem parseStreamDir_warmup (cfg : Config) (warmupTs : Str) (i : Nat) :
    parseStreamDir (runStream cfg (warmup warmupTs) i).streamTag = none := by
  have hnone : (runStream cfg (warmup warmupTs) i).streamTag.dropPrefix? "scaleout_n".toList =
      none := by
    rw [← Option.not_isSome_iff_eq_none, Option.isSome_iff_exists]
    rintro ⟨t, ht⟩
    obtain ⟨p, hp, hbeq⟩ := List.dropPrefix?_eq_some_iff.mp ht
    obtain rfl := beq_iff_eq.mp hbeq
    have := congrArg List.head? hp
    simp [runStream, warmup] at this
  simp only [parseStreamDir, hnone, Option.bind_eq_bind, Option.bind_none]

/-! ## The streams of a run -/

/-- The streams in the order they are launched. -/
def plan (cfg : Config) (warmupTs runTs : Str) : List Stream :=
  (batches cfg warmupTs runTs).flatMap (Batch.streams cfg)

section
variable {cfg : Config} {warmupTs runTs : Str}

theorem streams_atLevel {n : Int} {stream : Stream} (h : stream ∈ (atLevel runTs n).streams cfg) :
    ∃ m i : Nat, (m : Int) = n ∧ 1 ≤ i ∧ i ≤ m ∧ stream = runStream cfg (atLevel runTs m) i := by
  obtain ⟨i, hi, rfl⟩ := List.mem_map.mp h
  simp only [Batch.streamIds, atLevel, Option.getD_some, List.mem_range'_1] at hi
  have hm : ((n.toNat : Nat) : Int) = n := by omega
  exact ⟨n.toNat, i, hm, hi.1, by omega, by rw [hm]⟩

/-- A stream is the warm-up's or one of a level, which its directory tells. -/
theorem mem_plan (hts : IsStamp runTs) {stream : Stream} (h : stream ∈ plan cfg warmupTs runTs) :
    (stream.level = none ∧ parseStreamDir stream.streamTag = none) ∨
      ∃ n i : Nat, stream.level = some (n : Int) ∧
        parseStreamDir stream.streamTag = some (n, runTs, i) := by
  obtain ⟨b, hb, hs⟩ := List.mem_flatMap.mp h
  rcases List.mem_append.mp hb with hb | hb
  · split at hb
    · cases hb
    · obtain rfl := List.mem_singleton.mp hb
      obtain ⟨i, -, rfl⟩ := List.mem_map.mp hs
      exact .inl ⟨rfl, parseStreamDir_warmup cfg warmupTs i⟩
  · obtain ⟨n, -, rfl⟩ := List.mem_map.mp hb
    obtain ⟨m, i, -, -, -, rfl⟩ := streams_atLevel hs
    exact .inr ⟨m, i, rfl, parseStreamDir_tag hts cfg m i⟩

/-- No two streams write to the same directory. -/
theorem nodup_tags (hts : IsStamp runTs) (hnd : cfg.nValues.Nodup) :
    ((plan cfg warmupTs runTs).map (·.streamTag)).Nodup := by
  have parsed : ∀ n : Int, ((atLevel runTs n).streams cfg).map
      (fun s => parseStreamDir s.streamTag) =
        (List.range' 1 n.toNat).map fun i => some (n.toNat, runTs, i) := by
    intro n
    rw [Batch.streams, List.map_map]
    refine List.map_congr_left fun i hi => ?_
    have hi := List.mem_range'_1.mp hi
    have hm : ((n.toNat : Nat) : Int) = n := by
      simp only [atLevel, Option.getD_some] at hi
      omega
    have := parseStreamDir_tag hts cfg n.toNat i
    rwa [hm] at this
  have levels : ((cfg.nValues.map (atLevel runTs)).flatMap (Batch.streams cfg)).map
      (fun s => parseStreamDir s.streamTag) =
        cfg.nValues.flatMap fun n => (List.range' 1 n.toNat).map fun i => some (n.toNat, runTs, i) := by
    rw [List.flatMap_map, List.map_flatMap]
    exact List.flatMap_congr fun n _ => parsed n
  have nodupLevels : (cfg.nValues.flatMap fun n =>
      (List.range' 1 n.toNat).map fun i => some (n.toNat, runTs, i)).Nodup := by
    rw [List.nodup_flatMap]
    refine ⟨fun n _ => List.Nodup.map (fun i j h => by simpa using h) List.nodup_range', ?_⟩
    refine hnd.imp fun {n n'} hne => ?_
    intro x hx hx'
    obtain ⟨i, hi, rfl⟩ := List.mem_map.mp hx
    obtain ⟨j, hj, hsame⟩ := List.mem_map.mp hx'
    have hi := List.mem_range'_1.mp hi
    have hj := List.mem_range'_1.mp hj
    simp only [Option.some.injEq, Prod.mk.injEq] at hsame
    omega
  refine List.Nodup.of_map parseStreamDir ?_
  rw [List.map_map, plan, batches, List.flatMap_append, List.map_append]
  change (_ ++ List.map (fun s : Stream => parseStreamDir s.streamTag) _).Nodup
  rw [levels]
  cases cfg.skipWarmup with
  | true => simpa using nodupLevels
  | false =>
    have warm : ((warmup warmupTs).streams cfg).map (parseStreamDir ∘ fun s : Stream => s.streamTag) =
        [none] := by
      simp [Batch.streams, Batch.streamIds, warmup, ← parseStreamDir_warmup cfg warmupTs 1]
    simp only [Bool.false_eq_true, if_false, List.flatMap_cons, List.flatMap_nil, List.append_nil,
      warm, List.singleton_append, List.nodup_cons]
    refine ⟨fun hmem => ?_, nodupLevels⟩
    obtain ⟨n, -, hmem⟩ := List.mem_flatMap.mp hmem
    obtain ⟨i, -, hi⟩ := List.mem_map.mp hmem
    cases hi

/-! ## The disk -/

/-- No directory of the results root carries the timestamp of the run. -/
structure Fresh (runTs : Str) (before : List (Str × List Lines)) : Prop where
  keys : (before.map Prod.fst).Nodup
  unused : ∀ name ∈ before.map Prod.fst, ∀ n i, parseStreamDir name ≠ some (n, runTs, i)

/-- Each stream of a level has a directory of its own, with its record file in it. -/
structure Filed (runTs : Str) (s : State) : Prop where
  keys : (s.resultsRoot.map Prod.fst).Nodup
  written : ∀ p ∈ s.processes, p.stream.level ≠ none →
    get? s.resultsRoot p.stream.streamTag = some p.log.toList
  own : ∀ name ∈ s.resultsRoot.map Prod.fst, ∀ n i, parseStreamDir name = some (n, runTs, i) →
    ∃ p ∈ s.processes, p.stream.level ≠ none ∧ p.stream.streamTag = name

/-- What is known of the processes of a reachable state. -/
structure Tagged (runTs : Str) (s : State) : Prop where
  tags : (s.processes.map fun p => p.stream.streamTag).Nodup
  named : ∀ p ∈ s.processes, (p.stream.level = none ∧ parseStreamDir p.stream.streamTag = none) ∨
    ∃ n i : Nat, p.stream.level = some (n : Int) ∧
      parseStreamDir p.stream.streamTag = some (n, runTs, i)

theorem reachable_tagged {before : List (Str × List Lines)} (hts : IsStamp runTs)
    (hnd : cfg.nValues.Nodup) {s : State} (h : Reachable (matrix cfg warmupTs runTs before) s) :
    Tagged runTs s := by
  obtain ⟨past, cur, hinv⟩ := reachable_inv h
  have hplan : s.processes.map (·.stream) <+: plan cfg warmupTs runTs := hinv.planned
  refine ⟨?_, fun p hp => mem_plan hts (hplan.subset (List.mem_map_of_mem hp))⟩
  have := (hplan.map (·.streamTag)).sublist.nodup (nodup_tags hts hnd)
  rwa [List.map_map] at this

theorem mem_keys_set {d : List (Str × List Lines)} {k name : Str} {v : List Lines} :
    name ∈ (set d k v).map Prod.fst ↔ name = k ∨ name ∈ d.map Prod.fst := by
  rw [← get?_isSome_iff, ← get?_isSome_iff, get?_set]
  by_cases h : k = name
  · simp [h]
  · simp [h, Ne.symm h]

/-- A launch makes a directory that is empty, unless it is the warm-up's. -/
theorem Filed.launch {s s' : State} {stream : Stream} (h : Filed runTs s)
    (hprocs : s'.processes = s.processes ++ [⟨stream, none, none⟩])
    (hroot : s'.resultsRoot = mkdirP s.resultsRoot stream.streamTag) (ht : Tagged runTs s') :
    Filed runTs s' := by
  have newTag : ∀ p ∈ s.processes, p.stream.streamTag ≠ stream.streamTag := by
    have := ht.tags
    rw [hprocs, List.map_append, List.nodup_append] at this
    intro p hp
    exact this.2.2 _ (List.mem_map_of_mem hp) _ (by simp)
  have named := ht.named ⟨stream, none, none⟩ (by simp [hprocs])
  refine ⟨by rw [hroot]; exact nodup_keys_set h.keys _ _, fun p hp hlevel => ?_, ?_⟩
  · rw [hprocs] at hp
    rw [hroot, mkdirP, get?_set]
    rcases List.mem_append.mp hp with hp | hp
    · rw [if_neg (Ne.symm (newTag p hp))]
      exact h.written p hp hlevel
    · obtain rfl := List.mem_singleton.mp hp
      have absent : get? s.resultsRoot stream.streamTag = none := by
        rw [← Option.not_isSome_iff_eq_none, get?_isSome_iff]
        intro hkey
        rcases named with ⟨hnone, -⟩ | ⟨n, i, -, hparse⟩
        · exact hlevel hnone
        · obtain ⟨p, hp, -, htag⟩ := h.own _ hkey n i hparse
          exact newTag p hp htag
      simp [absent]
  · intro name hname n i hparse
    rw [hroot, mkdirP, mem_keys_set] at hname
    rw [hprocs]
    rcases hname with rfl | hname
    · refine ⟨⟨stream, none, none⟩, by simp, fun hnone => ?_, rfl⟩
      rcases named with ⟨-, hnoparse⟩ | ⟨n', i', hsome, -⟩
      · rw [hparse] at hnoparse
        cases hnoparse
      · rw [hnone] at hsome
        cases hsome
    · obtain ⟨p, hp, hrest⟩ := h.own name hname n i hparse
      exact ⟨p, List.mem_append_left _ hp, hrest⟩

/-- A stream's write changes its own directory only. -/
theorem Filed.acts {s s' : State} {pid : Nat} {p p' : Process} (h : Filed runTs s)
    (ht : Tagged runTs s) (hact : Acts s s' pid p p') : Filed runTs s' := by
  obtain ⟨write, hlog, hroot⟩ := hact.written
  have hpid := (List.getElem?_eq_some_iff.mp hact.found).1
  have hmem : p ∈ s.processes := List.mem_of_getElem? hact.found
  have others : ∀ k q, s.processes[k]? = some q → k ≠ pid →
      q.stream.streamTag ≠ p.stream.streamTag := by
    intro k q hq hne htag
    have hk : k < (s.processes.map fun p => p.stream.streamTag).length := by
      simpa using (List.getElem?_eq_some_iff.mp hq).1
    refine hne ((List.getElem?_inj hk ht.tags).mp ?_)
    rw [List.getElem?_map, List.getElem?_map, hq, hact.found, Option.map_some, Option.map_some, htag]
  refine ⟨by rw [hroot]; exact nodup_keys_set h.keys _ _, fun q hq hlevel => ?_, ?_⟩
  · rw [hact.processes] at hq
    obtain ⟨k, hk⟩ := List.mem_iff_getElem?.mp hq
    rw [hroot, get?_set]
    by_cases hne : k = pid
    · subst hne
      rw [List.getElem?_set_self hpid] at hk
      obtain rfl := Option.some.inj hk
      rw [hact.stream] at hlevel ⊢
      rw [if_pos rfl, h.written p hmem hlevel, hlog]
      rfl
    · rw [List.getElem?_set_ne (Ne.symm hne)] at hk
      rw [if_neg (Ne.symm (others k q hk hne))]
      exact h.written q (List.mem_of_getElem? hk) hlevel
  · intro name hname n i hparse
    have known : name ∈ s.resultsRoot.map Prod.fst ∨ name = p.stream.streamTag := by
      rw [hroot, mem_keys_set] at hname
      exact hname.symm
    have kept : ∀ q ∈ s.processes, q.stream.level ≠ none → q.stream.streamTag = name →
        ∃ q' ∈ s'.processes, q'.stream.level ≠ none ∧ q'.stream.streamTag = name := by
      intro q hq hlevel htag
      have streams : s'.processes.map (·.stream) = s.processes.map (·.stream) := by
        rw [hact.processes]
        exact map_stream_set hact.found hact.stream
      have : q.stream ∈ s'.processes.map (·.stream) := streams ▸ List.mem_map_of_mem hq
      obtain ⟨q', hq', hsame⟩ := List.mem_map.mp this
      exact ⟨q', hq', by rwa [hsame], by rwa [hsame]⟩
    rcases known with hname | rfl
    · obtain ⟨q, hq, hlevel, htag⟩ := h.own name hname n i hparse
      exact kept q hq hlevel htag
    · refine kept p hmem (fun hnone => ?_) rfl
      rcases ht.named p hmem with ⟨-, hnoparse⟩ | ⟨n', i', hsome, -⟩
      · rw [hparse] at hnoparse
        cases hnoparse
      · rw [hnone] at hsome
        cases hsome

/-- The script touches the disk only to launch a stream. -/
theorem advance_files {s s' : State} (h : s.advance cfg = some s') :
    (s'.processes = s.processes ∧ s'.resultsRoot = s.resultsRoot) ∨
      ∃ stream, s'.processes = s.processes ++ [⟨stream, none, none⟩] ∧
        s'.resultsRoot = mkdirP s.resultsRoot stream.streamTag := by
  unfold State.advance at h
  cases hc : s.control with
  | warmupFailed => simp [hc] at h
  | next rest =>
    cases rest with
    | nil => simp [hc] at h
    | cons b rest =>
      simp only [hc, Option.some.injEq] at h
      exact .inl (h ▸ ⟨rfl, rfl⟩)
  | launching b ids rest =>
    cases ids with
    | nil =>
      simp only [hc, Option.some.injEq] at h
      exact .inl (h ▸ ⟨rfl, rfl⟩)
    | cons i ids =>
      simp only [hc, Option.some.injEq] at h
      exact .inr ⟨runStream cfg b i, h ▸ ⟨rfl, rfl⟩⟩
  | waiting b pids rest =>
    cases pids with
    | nil =>
      simp only [hc, Option.some.injEq] at h
      subst h
      unfold State.settle
      split
      · split <;> exact .inl ⟨rfl, rfl⟩
      · exact .inl ⟨rfl, rfl⟩
    | cons pid pids =>
      simp only [hc, Option.map_eq_some_iff] at h
      obtain ⟨code, -, rfl⟩ := h
      exact .inl ⟨rfl, rfl⟩

theorem reachable_filed {before : List (Str × List Lines)} (hts : IsStamp runTs)
    (hnd : cfg.nValues.Nodup) (hfresh : Fresh runTs before) {s : State}
    (h : Reachable (matrix cfg warmupTs runTs before) s) : Filed runTs s := by
  refine h.strengthen (fun s => reachable_tagged hts hnd) ?_ ?_
  · rintro s rfl
    exact ⟨hfresh.keys, nofun, fun name hname n i hparse => absurd hparse (hfresh.unused name hname n i)⟩
  · intro s e s' ht ht' hfiled hstep
    rcases after_cases hstep with hscript | ⟨pid, p, p', hact⟩
    · rcases advance_files hscript with ⟨hprocs, hroot⟩ | ⟨stream, hprocs, hroot⟩
      · exact ⟨hroot ▸ hfiled.keys, by rw [hprocs, hroot]; exact hfiled.written,
          by rw [hprocs, hroot]; exact hfiled.own⟩
      · exact hfiled.launch hprocs hroot ht'
    · exact hfiled.acts ht hact

end

end DeltaForgeBench.ScaleOut.StreamDirs
