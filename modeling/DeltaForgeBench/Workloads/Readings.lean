import DeltaForgeBench.Workloads.Seams

/-! # Where the prefixes are in an output

The same text with prefixes put in front of some of its characters: which ones
they are can be read off the output, since no prefixed name stands right behind a
dot or goes on to one. -/
namespace DeltaForgeBench.Workloads.Readings
open DeltaForgeBench.Base.Text DeltaForgeBench.Workloads.DfCatalog
open DeltaForgeBench.Workloads.SqlGrammar DeltaForgeBench.Workloads.Qualify
open DeltaForgeBench.Workloads.Lossless DeltaForgeBench.Workloads.Positions
open DeltaForgeBench.Workloads.Seams

/-- No character with the prefix stands right behind a dot, and no word with it
goes on to one. -/
def Proper : List (Char × Bool) → Prop
  | [] => True
  | p :: placed =>
    (p.2 = true → isWordChar p.1 = true →
      ((placed.map Prod.fst).dropWhile isWordChar).head? ≠ some '.') ∧
    (p.1 = '.' → ∀ r ∈ placed.head?, r.2 = false) ∧ Proper placed

theorem Proper.drop {placed : List (Char × Bool)} (h : Proper placed) (n : Nat) :
    Proper (placed.drop n) := by
  induction n generalizing placed with
  | zero => exact h
  | succ n ih =>
    cases placed with
    | nil => exact h
    | cons p placed => exact ih h.2.2

theorem Proper.left {a b : List (Char × Bool)} (h : Proper (a ++ b)) : Proper a := by
  induction a with
  | nil => trivial
  | cons p a ih =>
    rw [List.cons_append] at h
    obtain ⟨hword, hdot, hrest⟩ := h
    refine ⟨fun hhit hp hnext => ?_, fun hp r hr => ?_, ih hrest⟩
    · refine hword hhit hp ?_
      rw [List.map_append, List.dropWhile_append]
      cases hleft : (a.map Prod.fst).dropWhile isWordChar with
      | nil => rw [hleft] at hnext; cases hnext
      | cons d ds =>
        rw [hleft] at hnext
        exact hnext
    · refine hdot hp r ?_
      cases a with
      | nil => cases hr
      | cons d a => exact hr

theorem Proper.take {placed : List (Char × Bool)} (h : Proper placed) (n : Nat) :
    Proper (placed.take n) := by
  rw [← List.take_append_drop n placed] at h
  exact h.left

/-- Characters without the prefix, in front of others. -/
theorem Proper.unmarked {x : Str} {placed : List (Char × Bool)} (h : Proper placed)
    (hlast : x.getLast? = some '.' → ∀ r ∈ placed.head?, r.2 = false) :
    Proper (x.map (fun d => (d, false)) ++ placed) := by
  induction x with
  | nil => exact h
  | cons c x ih =>
    refine ⟨nofun, fun hc r hr => ?_, ih fun he => hlast ?_⟩
    · cases x with
      | nil => exact hlast (congrArg some hc) r hr
      | cons d x =>
        obtain rfl := Option.some.inj hr
        rfl
    · cases x with
      | nil => cases he
      | cons d x => rwa [List.getLast?_cons_cons]

/-! ## The readings of a text -/

/-- A quoted text ends in its quote. -/
theorem getLast_stringTail {cs taken rest : Str} (h : stringTail cs = some (taken, rest)) :
    taken.getLast? = some '\'' := by
  induction cs using stringTail.induct generalizing taken rest with
  | case1 => cases h
  | case2 cs t r ht ih =>
    simp only [stringTail, ht, Option.some.injEq, Prod.mk.injEq] at h
    obtain ⟨rfl, -⟩ := h
    have last := ih ht
    cases t with
    | nil => cases last
    | cons d t => rwa [List.getLast?_cons_cons, List.getLast?_cons_cons]
  | case3 cs ht ih =>
    simp only [stringTail, ht, Option.some.injEq, Prod.mk.injEq] at h
    obtain ⟨rfl, -⟩ := h
    rfl
  | case4 cs hne =>
    rw [stringTail] at h
    · obtain ⟨rfl, -⟩ := Prod.mk.inj (Option.some.inj h)
      rfl
    · exact hne
  | case5 c cs h1 h2 ih =>
    rw [stringTail] at h
    · obtain ⟨⟨t, r⟩, ht, heq⟩ := Option.map_eq_some_iff.mp h
      obtain ⟨rfl, -⟩ := Prod.mk.inj heq
      have last := ih ht
      cases t with
      | nil => cases last
      | cons d t => rwa [List.getLast?_cons_cons]
    · exact h1
    · exact h2

/-- A token that ends in a dot is one. -/
theorem nextToken_dot {c : Char} {cs : Str} (h : (nextToken c cs).1.getLast? = some '.') :
    (nextToken c cs).1 = ['.'] := by
  have single : [c].getLast? = some '.' → [c] = ['.'] := fun he => by
    rw [show c = '.' from Option.some.inj he]
  unfold nextToken at h ⊢
  split
  · rename_i hc
    rw [if_pos hc] at h
    split
    · rename_i taken rest hs
      rw [hs] at h
      have quote := getLast_stringTail hs
      rw [List.getLast?_cons, quote] at h
      simp at h
    · rename_i hs
      rw [hs] at h
      exact single h
  · rename_i hc
    rw [if_neg hc] at h
    split
    · rename_i hw
      rw [if_pos hw] at h
      have word : ∀ d ∈ c :: cs.takeWhile isWordChar, isWordChar d = true :=
        List.forall_mem_cons.mpr ⟨by simp [isWordChar, hw], fun d hd => List.mem_takeWhile_imp hd⟩
      exact absurd (word '.' (List.mem_of_getLast? h)) (by decide)
    · rename_i hw
      rw [if_neg hw] at h
      exact single h

/-- A name that begins like a word is one. -/
theorem wordStart_of_name {q : Qualifier} {c : Char} {cs : Str} (h : q.isName (c :: cs) = true)
    (hc : isWordChar c = true) : isWordStart c = true := by
  cases hstart : isWordStart c with
  | true => rfl
  | false =>
    have ascii : c.toNat < 128 := by
      simp only [isWordChar, hstart, Bool.false_or, Bool.and_eq_true, decide_eq_true_eq] at hc
      have digit : c.toNat ≤ '9'.toNat := hc.2
      exact digit.trans_lt (by decide)
    rw [isName_ascii q hstart ascii] at h
    cases h

theorem head_block (m : Str × Bool) (placed : List (Char × Bool)) (h : m.1 ≠ []) :
    ∃ c, (block m ++ placed).head? = some (c, m.2) := by
  obtain ⟨t, hit⟩ := m
  cases t with
  | nil => exact absurd rfl h
  | cons c cs => exact ⟨c, rfl⟩

/-- Behind a dot nothing gets the prefix. -/
theorem unmarked_behind_dot (q : Qualifier) (s : State) (cs : Str) :
    ∀ r ∈ (places (marks q (q.advance s ['.']) (tokens cs))).head?, r.2 = false := by
  cases cs with
  | nil => nofun
  | cons c cs =>
    have dot : q.advance s ['.'] = { s with prevSig := ['.'] } := by
      simp [Qualifier.advance, isName_dot, strip, lstrip, rstrip, isSpace]
    have none : q.rewrites (q.advance s ['.']) (nextToken c cs).1 (tokens (nextToken c cs).2).head? =
        false := by
      rw [dot]
      exact not_rewrites_of_after rfl
    intro r hr
    rw [tokens_cons, marks, places_cons, none] at hr
    obtain ⟨d, hd⟩ := head_block ((nextToken c cs).1, false) _
      (tokens_ne_nil (c :: cs) _ (tokens_cons c cs ▸ List.mem_cons_self))
    rw [hd] at hr
    rw [← Option.some.inj hr]

theorem proper_marks (q : Qualifier) (s : State) (sql : Str) :
    Proper (places (marks q s (tokens sql))) := by
  induction sql using tokens_induction generalizing s with
  | nil => trivial
  | token c cs ih =>
    have rest := ih (q.advance s (nextToken c cs).1)
    have behind : (nextToken c cs).1.getLast? = some '.' → ∀ r ∈ (places (marks q
        (q.advance s (nextToken c cs).1) (tokens (nextToken c cs).2))).head?, r.2 = false := by
      intro hlast
      rw [nextToken_dot hlast]
      exact unmarked_behind_dot q s _
    have head := nextToken_head c cs
    rw [tokens_cons, marks, places_cons]
    cases ht : (nextToken c cs).1 with
    | nil => rw [ht] at head; cases head
    | cons d t =>
      obtain rfl : d = c := by simpa [ht] using head
      rw [ht] at behind rest
      rw [block, List.cons_append]
      have tail : Proper (t.map (fun d => (d, false)) ++
          places (marks q (q.advance s (d :: t)) (tokens (nextToken d cs).2))) :=
        rest.unmarked fun hlast => behind (by cases t <;> simp_all)
      refine ⟨fun hhit hword => ?_, fun hd r hr => ?_, tail⟩
      · -- a word ends where no word goes on, and no dot is there
        have hit := rewrites_iff.mp hhit
        have start : isWordStart d = true := wordStart_of_name hit.name hword
        have text : (t.map (fun d => (d, false)) ++ places (marks q (q.advance s (d :: t))
            (tokens (nextToken d cs).2))).map Prod.fst = t ++ (nextToken d cs).2 := by
          rw [List.map_append, places_text, marks_tokens, tokens_flatten, List.map_map]
          exact congrArg (· ++ _) (List.map_id t)
        have word : ∀ e ∈ t, isWordChar e = true := by
          have all : isWord (nextToken d cs).1 = true := isWord_nextToken start
          rw [ht] at all
          exact List.all_eq_true.mp ((Bool.and_eq_true _ _).mp all).2
        have stops : ∀ x ∈ (nextToken d cs).2.head?, isWordChar x = false := nextToken_stops start
        rw [text, List.dropWhile_append_of_pos word]
        cases hrest : (nextToken d cs).2 with
        | nil => simp
        | cons e es =>
          rw [hrest] at stops hit
          have apart := hit.next
          rw [ne_eq, head_dot] at apart
          rw [List.dropWhile_cons_of_neg (by simp [stops e rfl])]
          exact fun he => apart (Option.some.inj he)
      · cases t with
        | nil => exact behind (congrArg some hd) r hr
        | cons e t =>
          obtain rfl := Option.some.inj hr
          rfl

/-! ## One text, two outputs -/

theorem written_snoc (q : Qualifier) (placed : List (Char × Bool)) (p : Char × Bool) :
    written q (placed ++ [p]) = written q placed ++ ((if p.2 then q.namePrefix else []) ++ [p.1]) := by
  rw [written_append, written, written, List.flatMap_singleton]

theorem getLast_namePrefix (q : Qualifier) : q.namePrefix.getLast? = some '.' := by
  rw [Qualifier.namePrefix, List.getLast?_append]
  rfl

/-- A text in front of a prefix does not end in a dot. -/
theorem Proper.last {placed : List (Char × Bool)} {c : Char} (h : Proper (placed ++ [(c, true)])) :
    (placed.map Prod.fst).getLast? ≠ some '.' := by
  induction placed with
  | nil => nofun
  | cons p placed ih =>
    rw [List.cons_append] at h
    cases placed with
    | nil =>
      intro hlast
      exact absurd (h.2.1 (Option.some.inj hlast) (c, true) rfl) nofun
    | cons r placed => exact ih h.2.2

/-- An output ends in the last character of its text. -/
theorem getLast_written (q : Qualifier) {placed : List (Char × Bool)} (h : placed ≠ []) :
    (written q placed).getLast? = (placed.map Prod.fst).getLast? := by
  rcases List.eq_nil_or_concat placed with hnil | ⟨front, p, rfl⟩
  · exact absurd hnil h
  · rw [List.concat_eq_append, written_snoc, List.map_append, List.getLast?_append,
      List.getLast?_append, List.getLast?_append]
    rfl

/-- From the end on, the prefixes can be told apart, but for one in front of all. -/
theorem written_cases (q : Qualifier) {a b : List (Char × Bool)}
    (htext : a.map Prod.fst = b.map Prod.fst) (ha : Proper a) (hb : Proper b) {x y : Str}
    (h : x ++ written q a = y ++ written q b) : (a = b ∧ x = y) ∨
      (∃ c rest, a = (c, true) :: rest ∧ b = (c, false) :: rest ∧ x ++ q.namePrefix = y) ∨
      (∃ c rest, a = (c, false) :: rest ∧ b = (c, true) :: rest ∧ y ++ q.namePrefix = x) := by
  induction a using List.reverseRecOn generalizing b with
  | nil =>
    obtain rfl : b = [] := List.map_eq_nil_iff.mp htext.symm
    exact .inl ⟨rfl, by simpa [written] using h⟩
  | append_singleton a p ih =>
    obtain ⟨b, r, rfl⟩ : ∃ b' r, b = b' ++ [r] := by
      rcases List.eq_nil_or_concat b with hnil | ⟨b', r, hb'⟩
      · rw [hnil] at htext
        simp at htext
      · exact ⟨b', r, by rw [hb', List.concat_eq_append]⟩
    rw [List.map_append, List.map_append] at htext
    obtain ⟨hfront, hlast⟩ := List.append_inj' htext rfl
    obtain ⟨c, hit⟩ := p
    obtain ⟨d, hit'⟩ := r
    obtain rfl : c = d := (List.cons.inj hlast).1
    -- what stands in front of a prefix that only one of the two has ends in a dot
    have ends : ∀ {front front' : List (Char × Bool)} {u v : Str}, Proper (front' ++ [(c, true)]) →
        front.map Prod.fst = front'.map Prod.fst →
        v ++ (written q front' ++ q.namePrefix) = u ++ written q front →
        front = [] ∧ front' = [] ∧ v ++ q.namePrefix = u := by
      intro front front' u v hproper hsame heq
      by_cases hnil : front = []
      · obtain rfl := hnil
        obtain rfl : front' = [] := List.map_eq_nil_iff.mp hsame.symm
        exact ⟨rfl, rfl, by simpa [written] using heq⟩
      · have last := congrArg List.getLast? heq
        have dot : (v ++ (written q front' ++ q.namePrefix)).getLast? = some '.' := by
          rw [← List.append_assoc, List.getLast?_append, getLast_namePrefix]
          rfl
        have text : (written q front).getLast? = (front'.map Prod.fst).getLast? := by
          rw [getLast_written q hnil, hsame]
        cases hw : (written q front).getLast? with
        | none =>
          rw [text, List.getLast?_eq_none_iff, ← hsame, List.map_eq_nil_iff] at hw
          exact absurd hw hnil
        | some e =>
          rw [dot, List.getLast?_append, hw] at last
          exact absurd (text.symm.trans (hw.trans last.symm)) hproper.last
    rw [written_snoc, written_snoc, ← List.append_assoc, ← List.append_assoc, ← List.append_assoc,
      ← List.append_assoc, List.append_left_inj] at h
    cases hit <;> cases hit' <;> simp only [Bool.false_eq_true, if_false, if_true, List.append_nil,
      List.append_assoc] at h
    · rcases ih hfront ha.left hb.left h with ⟨rfl, rfl⟩ | ⟨e, rest, rfl, rfl, hxy⟩ |
        ⟨e, rest, rfl, rfl, hxy⟩
      · exact .inl ⟨rfl, rfl⟩
      · exact .inr (.inl ⟨e, _, rfl, rfl, hxy⟩)
      · exact .inr (.inr ⟨e, _, rfl, rfl, hxy⟩)
    · obtain ⟨rfl, rfl, hxy⟩ := ends hb hfront h.symm
      exact .inr (.inr ⟨c, [], rfl, rfl, hxy⟩)
    · obtain ⟨rfl, rfl, hxy⟩ := ends ha hfront.symm h
      exact .inr (.inl ⟨c, [], rfl, rfl, hxy⟩)
    · rw [← List.append_assoc, ← List.append_assoc, List.append_left_inj] at h
      rcases ih hfront ha.left hb.left h with ⟨rfl, rfl⟩ | ⟨e, rest, rfl, rfl, hxy⟩ |
        ⟨e, rest, rfl, rfl, hxy⟩
      · exact .inl ⟨rfl, rfl⟩
      · exact .inr (.inl ⟨e, _, rfl, rfl, hxy⟩)
      · exact .inr (.inr ⟨e, _, rfl, rfl, hxy⟩)

theorem written_injective (q : Qualifier) {a b : List (Char × Bool)}
    (htext : a.map Prod.fst = b.map Prod.fst) (ha : Proper a) (hb : Proper b)
    (h : written q a = written q b) : a = b := by
  have hprefix : q.namePrefix ≠ [] := List.ne_nil_of_length_pos (namePrefix_ne_nil q)
  have same : [] ++ written q a = [] ++ written q b := h
  rcases written_cases q htext ha hb same with ⟨hab, -⟩ | ⟨c, rest, -, -, hxy⟩ |
    ⟨c, rest, -, -, hxy⟩
  · exact hab
  · exact absurd hxy hprefix
  · exact absurd hxy hprefix

/-! ## A prefix at the seam -/

section
variable {q : Qualifier}

theorem word_namePrefix (hzone : isWord q.zone = true) (r : Str) :
    (q.namePrefix ++ r).takeWhile isWordChar = q.zone := by
  have word : ∀ c ∈ q.zone, isWordChar c = true := by
    cases hz : q.zone with
    | nil => nofun
    | cons c cs =>
      rw [hz] at hzone
      obtain ⟨hc, hcs⟩ := (Bool.and_eq_true _ _).mp hzone
      exact List.forall_mem_cons.mpr ⟨by simp [isWordChar, hc], List.all_eq_true.mp hcs⟩
  have dot : (['.'] ++ q.schema ++ ['.'] ++ r).takeWhile isWordChar = [] :=
    List.takeWhile_cons_of_neg (by decide)
  have split : q.namePrefix ++ r = q.zone ++ (['.'] ++ q.schema ++ ['.'] ++ r) := by
    simp [Qualifier.namePrefix]
  rw [split, List.takeWhile_append_of_pos word, dot, List.append_nil]

/-- An output that begins with a prefix where its text has a word: the word goes on
to a dot. -/
theorem dot_of_prefix (hzone : isWord q.zone = true) {placed : List (Char × Bool)} {m z r : Str}
    (hm : ∀ c ∈ m, isWordChar c = true) (hne : m ≠ []) (hz : z = [] ∨ z = q.namePrefix)
    (h : q.namePrefix ++ r = m ++ (written q placed ++ z)) :
    ((placed.map Prod.fst).dropWhile isWordChar).head? = some '.' := by
  induction placed generalizing m with
  | nil =>
    have run := congrArg (List.takeWhile isWordChar) h
    rw [word_namePrefix hzone, List.takeWhile_append_of_pos hm] at run
    rcases hz with rfl | rfl
    · obtain rfl : q.zone = m := run.trans (List.append_nil m)
      have long : (q.namePrefix ++ r).length = q.zone.length :=
        (congrArg List.length h).trans (congrArg List.length (List.append_nil q.zone))
      simp only [Qualifier.namePrefix, List.length_append, List.length_singleton] at long
      omega
    · rw [show written q [] = [] from rfl, List.nil_append, ← List.append_nil q.namePrefix,
        word_namePrefix hzone] at run
      exact absurd (List.append_left_eq_self.mp run.symm) hne
  | cons p placed ih =>
    obtain ⟨d, hit⟩ := p
    cases hit with
    | true =>
      have run := congrArg (List.takeWhile isWordChar) h
      have out : written q ((d, true) :: placed) ++ z =
          q.namePrefix ++ (d :: written q placed ++ z) := by
        simp [written]
      rw [out, word_namePrefix hzone, List.takeWhile_append_of_pos hm, word_namePrefix hzone] at run
      exact absurd (List.append_left_eq_self.mp run.symm) hne
    | false =>
      have out : written q ((d, false) :: placed) ++ z = d :: (written q placed ++ z) := by
        simp [written]
      rw [out] at h
      cases hd : isWordChar d with
      | true =>
        have longer : q.namePrefix ++ r = (m ++ [d]) ++ (written q placed ++ z) := by
          rw [h, List.append_assoc, List.singleton_append]
        have word : ∀ c ∈ m ++ [d], isWordChar c = true :=
          List.forall_mem_append.mpr ⟨hm, List.forall_mem_singleton.mpr hd⟩
        rw [List.map_cons, List.dropWhile_cons_of_pos hd]
        exact ih word (by simp) longer
      | false =>
        have run := congrArg (List.takeWhile isWordChar) h
        rw [word_namePrefix hzone, List.takeWhile_append_of_pos hm,
          List.takeWhile_cons_of_neg (by simp [hd]), List.append_nil] at run
        have here : '.' :: (q.schema ++ ['.'] ++ r) = d :: (written q placed ++ z) := by
          rw [← run] at h
          simpa [Qualifier.namePrefix] using h
        rw [List.map_cons, List.dropWhile_cons_of_neg (by simp [hd]), (List.cons.inj here).1]
        rfl

/-- A word with the prefix in one output and without it in the other: they differ. -/
theorem prefix_differs (hzone : isWord q.zone = true) {c : Char} {a b : List (Char × Bool)}
    (ha : Proper ((c, true) :: a)) (htext : a.map Prod.fst = b.map Prod.fst) {z r : Str}
    (hz : z = [] ∨ z = q.namePrefix) : q.namePrefix ++ r ≠ c :: (written q b ++ z) := by
  intro h
  cases hc : isWordChar c with
  | true =>
    have dot := dot_of_prefix hzone (m := [c]) (List.forall_mem_singleton.mpr hc) (by simp) hz h
    exact ha.1 rfl hc (htext ▸ dot)
  | false =>
    have run := congrArg (List.takeWhile isWordChar) h
    rw [word_namePrefix hzone, List.takeWhile_cons_of_neg (by simp [hc])] at run
    rw [run] at hzone
    cases hzone

/-- A prefix at the end of one output is no prefix in the other. -/
theorem written_prefix_ne (hzone : isWord q.zone = true) {a b : List (Char × Bool)}
    (htext : a.map Prod.fst = b.map Prod.fst) (ha : Proper a) (hb : Proper b) :
    written q a ++ q.namePrefix ≠ written q b := by
  induction a generalizing b with
  | nil =>
    obtain rfl : b = [] := List.map_eq_nil_iff.mp htext.symm
    exact List.ne_nil_of_length_pos (namePrefix_ne_nil q)
  | cons p a ih =>
    obtain ⟨r, b, rfl, hpr, hrest⟩ := List.map_eq_cons_iff.mp htext.symm
    obtain ⟨c, hit⟩ := p
    obtain ⟨d, hit'⟩ := r
    obtain rfl : d = c := hpr
    have out : ∀ (hit : Bool) (placed : List (Char × Bool)), written q ((d, hit) :: placed) =
        (if hit then q.namePrefix else []) ++ d :: written q placed := by
      intro hit placed
      simp [written]
    intro h
    rw [out, out] at h
    cases hit <;> cases hit' <;> simp only [Bool.false_eq_true, if_false, if_true, List.nil_append,
      List.append_assoc, List.cons_append] at h
    · exact ih hrest.symm ha.2.2 hb.2.2 (List.cons.inj h).2
    · exact prefix_differs hzone hb hrest (.inr rfl) h.symm
    · refine prefix_differs hzone ha hrest.symm (z := []) (.inl rfl) (r := ?_) ?_
      · exact d :: (written q a ++ q.namePrefix)
      · rw [List.append_nil]
        exact h
    · exact ih hrest.symm ha.2.2 hb.2.2 (List.cons.inj (List.append_cancel_left h)).2

/-- **The outputs of two readings agree exactly when the prefixes do**, also where
the two parts of the text were read apart from each other. -/
theorem written_eq_iff (hzone : isWord q.zone = true) {a a' b b' : List (Char × Bool)}
    (ha : a.map Prod.fst = a'.map Prod.fst) (hb : b.map Prod.fst = b'.map Prod.fst)
    (hpa : Proper a) (hpa' : Proper a') (hpb : Proper b) (hpb' : Proper b') :
    written q (a ++ b) = written q (a' ++ b') ↔ a = a' ∧ b = b' := by
  constructor
  · intro h
    rw [written_append, written_append] at h
    rcases written_cases q hb hpb hpb' h with ⟨rfl, hfront⟩ | ⟨c, rest, -, -, hfront⟩ |
      ⟨c, rest, -, -, hfront⟩
    · exact ⟨written_injective q ha hpa hpa' hfront, rfl⟩
    · exact absurd hfront (written_prefix_ne hzone ha hpa hpa')
    · exact absurd hfront (written_prefix_ne hzone ha.symm hpa' hpa)
  · rintro ⟨rfl, rfl⟩
    rfl

end

end DeltaForgeBench.Workloads.Readings
