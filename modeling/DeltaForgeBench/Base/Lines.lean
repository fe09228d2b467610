import DeltaForgeBench.Base.Text

/-! # Lines and their ends

`splitlines` takes any of ten characters for the end of a line, and joining the
lines again writes a line feed for each of them. -/
namespace DeltaForgeBench.Base.Lines
open DeltaForgeBench.Base.Text

/-- The text with a line feed for every line end. -/
def unify : Str → Str
  | [] => []
  | '\r' :: '\n' :: cs => '\n' :: unify cs
  | c :: cs => (if isLineBreak c then '\n' else c) :: unify cs

/-- Only line feeds and carriage returns end a line. -/
def Plain (t : Str) : Prop := ∀ c ∈ t, isLineBreak c = true → c = '\n' ∨ c = '\r'

/-- The text does not stop at a line end. -/
def Ends (t : Str) : Prop := ∀ c ∈ t.getLast?, isLineBreak c = false

theorem Ends.tail {c : Char} {cs : Str} (h : Ends (c :: cs)) : Ends cs := by
  cases cs with
  | nil => nofun
  | cons d ds => exact fun e he => h e (by rwa [List.getLast?_cons_cons])

/-- A line end is not the last character. -/
theorem Ends.rest_ne_nil {c : Char} {cs : Str} (h : Ends (c :: cs)) (hc : isLineBreak c = true) :
    cs ≠ [] := by
  intro e
  subst e
  rw [h c rfl] at hc
  cases hc

theorem splitlines_pair (cs : Str) : splitlines ('\r' :: '\n' :: cs) = [] :: splitlines cs := rfl

theorem splitlines_break {c : Char} {cs : Str} (hc : isLineBreak c = true)
    (hne : ∀ ds, c = '\r' → cs = '\n' :: ds → False) : splitlines (c :: cs) = [] :: splitlines cs := by
  rw [splitlines]
  · simp [hc]
  · exact hne

theorem splitlines_last {c : Char} (hc : isLineBreak c = false) : splitlines [c] = [[c]] := by
  simp [splitlines, hc]

theorem splitlines_char {c : Char} {cs line : Str} {rest : List Str} (hc : isLineBreak c = false)
    (h : splitlines cs = line :: rest) : splitlines (c :: cs) = (c :: line) :: rest := by
  have hr : c ≠ '\r' := ne_of_test hc rfl
  rw [splitlines]
  · simp [hc, h]
  · exact fun ds e => absurd e hr

/-- Induction along the line ends of a text. -/
theorem splitlines_induction {motive : Str → Prop} (nil : motive [])
    (pair : ∀ cs, motive cs → motive ('\r' :: '\n' :: cs))
    (lineEnd : ∀ c cs, (∀ ds, c = '\r' → cs = '\n' :: ds → False) → isLineBreak c = true →
      motive cs → motive (c :: cs))
    (last : ∀ c, isLineBreak c = false → motive [c])
    (char : ∀ c cs, isLineBreak c = false → cs ≠ [] → motive cs → motive (c :: cs)) (t : Str) :
    motive t := by
  induction h : t.length using Nat.strong_induction_on generalizing t with
  | _ n ih =>
    cases t with
    | nil => exact nil
    | cons c cs =>
      have tail : motive cs := ih _ (by simp [← h]) cs rfl
      by_cases hc : isLineBreak c = true
      · by_cases hpair : ∃ ds, c = '\r' ∧ cs = '\n' :: ds
        · obtain ⟨ds, rfl, rfl⟩ := hpair
          exact pair ds (ih _ (by simp only [← h, List.length_cons]; omega) ds rfl)
        · exact lineEnd c cs (fun ds hr hn => hpair ⟨ds, hr, hn⟩) hc tail
      · have hc : isLineBreak c = false := by simpa using hc
        cases cs with
        | nil => exact last c hc
        | cons d ds => exact char c (d :: ds) hc (List.cons_ne_nil d ds) tail

theorem exists_splitlines {t : Str} (h : t ≠ []) : ∃ line rest, splitlines t = line :: rest := by
  induction t using splitlines_induction with
  | nil => exact absurd rfl h
  | pair cs ih => exact ⟨_, _, splitlines_pair cs⟩
  | lineEnd c cs hpair hc ih => exact ⟨_, _, splitlines_break hc hpair⟩
  | last c hc => exact ⟨_, _, splitlines_last hc⟩
  | char c cs hc hcs ih =>
    obtain ⟨line, rest, hline⟩ := ih hcs
    exact ⟨_, _, splitlines_char hc hline⟩

theorem splitlines_ne_nil {t : Str} (h : t ≠ []) : splitlines t ≠ [] := by
  obtain ⟨line, rest, hline⟩ := exists_splitlines h
  rw [hline]
  exact List.cons_ne_nil line rest

/-- A text without line ends is its own only line. -/
theorem splitlines_single : ∀ {t : Str}, t ≠ [] → (∀ c ∈ t, isLineBreak c = false) →
    splitlines t = [t]
  | [c], _, h => splitlines_last (h c (by simp))
  | c :: d :: ds, _, h => splitlines_char (h c (by simp))
      (splitlines_single (by simp) fun e he => h e (by simp [he]))

/-- The first line of a text. -/
theorem splitlines_line : ∀ {l : Str} (t : Str), (∀ c ∈ l, isLineBreak c = false) →
    splitlines (l ++ '\n' :: t) = l :: splitlines t
  | [], t, _ => splitlines_break rfl nofun
  | c :: cs, t, h => splitlines_char (h c (by simp))
      (splitlines_line t fun d hd => h d (by simp [hd]))

/-- A text that does not stop at a line end keeps its lines. -/
theorem splitlines_append {a : Str} (t : Str) (hne : a ≠ []) (h : Ends a) :
    splitlines (a ++ '\n' :: t) = splitlines a ++ splitlines t := by
  induction a using splitlines_induction with
  | nil => exact absurd rfl hne
  | pair cs ih =>
    have rest : cs ≠ [] := h.tail.rest_ne_nil rfl
    rw [List.cons_append, List.cons_append, splitlines_pair, splitlines_pair, ih rest h.tail.tail,
      List.cons_append]
  | lineEnd c cs hpair hc ih =>
    have rest : cs ≠ [] := h.rest_ne_nil hc
    have pair : ∀ ds, c = '\r' → cs ++ '\n' :: t = '\n' :: ds → False := by
      intro ds hd e
      subst hd
      cases cs with
      | nil => exact rest rfl
      | cons d ds => exact hpair ds rfl (by rw [(List.cons.inj e).1])
    rw [List.cons_append, splitlines_break hc pair, splitlines_break hc hpair, ih rest h.tail]
    rfl
  | last c hc =>
    rw [splitlines_last hc, List.singleton_append]
    exact splitlines_char hc (splitlines_break rfl nofun)
  | char c cs hc hcs ih =>
    obtain ⟨line, rest, hline⟩ := exists_splitlines hcs
    have whole := ih hcs h.tail
    rw [hline, List.cons_append] at whole
    rw [List.cons_append, splitlines_char hc whole, splitlines_char hc hline, List.cons_append]

/-- A line feed ends the lines before it, whatever is behind. -/
theorem splitlines_feed (a t : Str) :
    splitlines (a ++ '\n' :: t) = splitlines (a ++ ['\n']) ++ splitlines t := by
  have feed : ∀ u, splitlines ('\n' :: u) = [] :: splitlines u := fun _ => splitlines_break rfl nofun
  induction a using splitlines_induction with
  | nil => exact feed t
  | pair cs ih =>
    rw [List.cons_append, List.cons_append, List.cons_append, List.cons_append, splitlines_pair,
      splitlines_pair, ih, List.cons_append]
  | lineEnd c cs hpair hc ih =>
    cases cs with
    | nil =>
      by_cases hr : c = '\r'
      · subst hr
        rfl
      · have broken : ∀ u, splitlines (c :: u) = [] :: splitlines u := fun u =>
          splitlines_break hc fun _ h => absurd h hr
        rw [List.singleton_append, List.singleton_append, broken, broken, feed, feed]
        rfl
    | cons d ds =>
      have broken : ∀ u, splitlines (c :: d :: ds ++ u) = [] :: splitlines (d :: ds ++ u) := fun u =>
        splitlines_break hc fun es h e => hpair ds h (by rw [(List.cons.inj e).1])
      rw [broken, broken, ih]
      rfl
  | last c hc =>
    have one : ∀ u, splitlines (c :: '\n' :: u) = [c] :: splitlines u := fun u =>
      splitlines_char hc (feed u)
    rw [List.singleton_append, List.singleton_append, one, one]
    rfl
  | char c cs hc hcs ih =>
    obtain ⟨line, rest, hline⟩ := exists_splitlines (t := cs ++ ['\n']) (by simp)
    rw [hline, List.cons_append] at ih
    rw [List.cons_append, List.cons_append, splitlines_char hc ih, splitlines_char hc hline,
      List.cons_append]

/-- No line holds a line end. -/
theorem line_of_mem_splitlines {t line : Str} (h : line ∈ splitlines t) :
    ∀ c ∈ line, isLineBreak c = false := by
  induction t using splitlines_induction generalizing line with
  | nil => cases h
  | pair cs ih =>
    rw [splitlines_pair] at h
    rcases List.mem_cons.mp h with rfl | h
    · nofun
    · exact ih h
  | lineEnd d cs hpair hd ih =>
    rw [splitlines_break hd hpair] at h
    rcases List.mem_cons.mp h with rfl | h
    · nofun
    · exact ih h
  | last d hd =>
    rw [splitlines_last hd] at h
    obtain rfl := List.mem_singleton.mp h
    simpa using hd
  | char d cs hd hcs ih =>
    obtain ⟨first, rest, hcons⟩ := exists_splitlines hcs
    rw [splitlines_char hd hcons] at h
    rw [hcons] at ih
    rcases List.mem_cons.mp h with rfl | h
    · exact List.forall_mem_cons.mpr ⟨hd, ih List.mem_cons_self⟩
    · exact ih (List.mem_cons_of_mem _ h)

/-- Lines written with line feeds between them are read back. -/
theorem splitlines_join {lines : List Str} (hends : Ends (join ['\n'] lines)) (hne : lines ≠ [[]])
    (h : ∀ line ∈ lines, ∀ c ∈ line, isLineBreak c = false) :
    splitlines (join ['\n'] lines) = lines := by
  induction lines with
  | nil => rfl
  | cons line lines ih =>
    obtain ⟨hline, hrest⟩ := List.forall_mem_cons.mp h
    cases lines with
    | nil =>
      rw [join_singleton]
      exact splitlines_single (fun e => hne (by rw [e])) hline
    | cons next lines =>
      have written : join ['\n'] (line :: next :: lines) = line ++ '\n' :: join ['\n'] (next :: lines) := by
        simp
      rw [written] at hends ⊢
      have filled : join ['\n'] (next :: lines) ≠ [] := fun e => by
        rw [e] at hends
        cases hends '\n' (by simp)
      have tail : Ends (join ['\n'] (next :: lines)) := fun c hc => hends c (by
        rw [List.getLast?_append_cons, List.getLast?_cons, Option.mem_def.mp hc]
        rfl)
      rw [splitlines_line _ hline, ih tail (fun e => filled (by rw [e]; rfl)) hrest]

theorem unify_cons {c : Char} {cs : Str} (hpair : ∀ ds, c = '\r' → cs = '\n' :: ds → False) :
    unify (c :: cs) = (if isLineBreak c then '\n' else c) :: unify cs := by
  rw [unify]
  exact hpair

/-- The lines joined again. -/
theorem join_splitlines {t : Str} (h : Ends t) : join ['\n'] (splitlines t) = unify t := by
  have ended : ∀ {cs : Str}, cs ≠ [] →
      join ['\n'] ([] :: splitlines cs) = '\n' :: join ['\n'] (splitlines cs) := by
    intro cs hne
    cases hl : splitlines cs with
    | nil => exact absurd hl (splitlines_ne_nil hne)
    | cons line rest => simp
  induction t using splitlines_induction with
  | nil => rfl
  | pair cs ih =>
    have rest : cs ≠ [] := h.tail.rest_ne_nil rfl
    rw [splitlines_pair, ended rest, ih h.tail.tail, unify]
  | lineEnd c cs hpair hc ih =>
    have rest : cs ≠ [] := h.rest_ne_nil hc
    rw [splitlines_break hc hpair, ended rest, ih h.tail, unify_cons hpair, if_pos hc]
  | last c hc =>
    have alone : unify [c] = (if isLineBreak c then '\n' else c) :: unify [] := unify_cons nofun
    rw [splitlines_last hc, alone, hc]
    rfl
  | char c cs hc hcs ih =>
    have hr : c ≠ '\r' := ne_of_test hc rfl
    obtain ⟨line, rest, hline⟩ := exists_splitlines hcs
    rw [splitlines_char hc hline, unify_cons (fun ds e => absurd e hr), ← ih h.tail, hline, hc]
    cases rest <;> simp

theorem unify_append {a : Str} {c : Char} (cs : Str) (hc : c ≠ '\n') :
    unify (a ++ c :: cs) = unify a ++ unify (c :: cs) := by
  induction a using unify.induct with
  | case1 => rfl
  | case2 ds ih => simp [unify, ih]
  | case3 d ds hpair ih =>
    have pair : ∀ es, d = '\r' → ds ++ c :: cs = '\n' :: es → False := by
      intro es hd e
      subst hd
      cases ds with
      | nil => exact hc (List.cons.inj e).1
      | cons f fs => exact hpair fs rfl (by rw [(List.cons.inj e).1])
    rw [List.cons_append, unify_cons pair, unify_cons hpair, ih, List.cons_append]

/-- A text is one line, or a line, its end and the rest. -/
theorem splitlines_cases {t : Str} (hne : t ≠ []) (h : Ends t) :
    (splitlines t = [t] ∧ ∀ c ∈ t, isLineBreak c = false) ∨
    ∃ l b u, t = l ++ b ++ u ∧ splitlines t = l :: splitlines u ∧ u ≠ [] ∧ Ends u ∧ b ≠ [] ∧
      (∀ c ∈ l, isLineBreak c = false) ∧ ∀ c ∈ b, isLineBreak c = true := by
  induction t using splitlines_induction with
  | nil => exact absurd rfl hne
  | pair cs ih =>
    have rest : cs ≠ [] := h.tail.rest_ne_nil rfl
    exact .inr ⟨[], ['\r', '\n'], cs, rfl, splitlines_pair cs, rest, h.tail.tail, by simp, nofun,
      by simp [isLineBreak]⟩
  | lineEnd c cs hpair hc ih =>
    have rest : cs ≠ [] := h.rest_ne_nil hc
    exact .inr ⟨[], [c], cs, rfl, splitlines_break hc hpair, rest, h.tail, by simp, nofun,
      by simpa using hc⟩
  | last c hc => exact .inl ⟨splitlines_last hc, by simpa using hc⟩
  | char c cs hc hcs ih =>
    rcases ih hcs h.tail with ⟨hsingle, hfree⟩ | ⟨l, b, u, hcut, hsplit, hu, hends, hb, hfree, hbreaks⟩
    · exact .inl ⟨splitlines_char hc hsingle, List.forall_mem_cons.mpr ⟨hc, hfree⟩⟩
    · exact .inr ⟨c :: l, b, u, by rw [hcut]; rfl, splitlines_char hc hsplit, hu, hends, hb,
        List.forall_mem_cons.mpr ⟨hc, hfree⟩, hbreaks⟩

theorem mem_of_mem_splitlines {t line : Str} {c : Char} (hline : line ∈ splitlines t)
    (hc : c ∈ line) : c ∈ t := by
  induction t using splitlines_induction generalizing line with
  | nil => cases hline
  | pair cs ih =>
    rw [splitlines_pair] at hline
    rcases List.mem_cons.mp hline with rfl | hline
    · cases hc
    · simp [ih hline hc]
  | lineEnd d cs hpair hd ih =>
    rw [splitlines_break hd hpair] at hline
    rcases List.mem_cons.mp hline with rfl | hline
    · cases hc
    · simp [ih hline hc]
  | last d hd =>
    rw [splitlines_last hd] at hline
    obtain rfl := List.mem_singleton.mp hline
    exact hc
  | char d cs hd hcs ih =>
    obtain ⟨first, rest, hcons⟩ := exists_splitlines hcs
    rw [splitlines_char hd hcons] at hline
    rcases List.mem_cons.mp hline with rfl | hline
    · rcases List.mem_cons.mp hc with rfl | hc
      · simp
      · simp [ih (by simp [hcons]) hc]
    · simp [ih (by simp [hcons, hline]) hc]

/-- What is put behind a text that does not stop at a line end continues its
last line, and goes on with lines of its own. -/
theorem splitlines_append_tail {t : Str} (hne : t ≠ []) (h : Ends t) (w : Str) :
    ∃ init last u extra, splitlines t = init ++ [last] ∧
      splitlines (t ++ w) = init ++ (last ++ u) :: extra ∧ (∀ c ∈ u, c ∈ w) ∧
      ∀ line ∈ extra, ∀ c ∈ line, c ∈ w := by
  induction t using splitlines_induction with
  | nil => exact absurd rfl hne
  | pair cs ih =>
    obtain ⟨init, last, u, extra, hcs, hwhole, hu, hextra⟩ :=
      ih (h.tail.rest_ne_nil rfl) h.tail.tail
    exact ⟨[] :: init, last, u, extra, by rw [splitlines_pair, hcs]; rfl,
      by rw [List.cons_append, List.cons_append, splitlines_pair, hwhole]; rfl, hu, hextra⟩
  | lineEnd c cs hpair hc ih =>
    have rest : cs ≠ [] := h.rest_ne_nil hc
    have pair : ∀ ds, c = '\r' → cs ++ w = '\n' :: ds → False := by
      intro ds hd e
      cases cs with
      | nil => exact rest rfl
      | cons d ds => exact hpair ds hd (by rw [(List.cons.inj e).1])
    obtain ⟨init, last, u, extra, hcs, hwhole, hu, hextra⟩ := ih rest h.tail
    exact ⟨[] :: init, last, u, extra, by rw [splitlines_break hc hpair, hcs]; rfl,
      by rw [List.cons_append, splitlines_break hc pair, hwhole]; rfl, hu, hextra⟩
  | last c hc =>
    cases hw : splitlines w with
    | nil =>
      have none : w = [] := by
        by_contra rest
        exact splitlines_ne_nil rest hw
      subst none
      exact ⟨[], [c], [], [], splitlines_last hc, splitlines_last hc, nofun, nofun⟩
    | cons line rest =>
      exact ⟨[], [c], line, rest, splitlines_last hc, splitlines_char hc hw,
        fun d hd => mem_of_mem_splitlines (by rw [hw]; simp) hd,
        fun l hl d hd => mem_of_mem_splitlines (by rw [hw]; simp [hl]) hd⟩
  | char c cs hc rest ih =>
    obtain ⟨init, last, u, extra, hcs, hwhole, hu, hextra⟩ := ih rest h.tail
    cases init with
    | nil => exact ⟨[], c :: last, u, extra, splitlines_char hc hcs, splitlines_char hc hwhole,
        hu, hextra⟩
    | cons first init => exact ⟨(c :: first) :: init, last, u, extra, splitlines_char hc hcs,
        splitlines_char hc hwhole, hu, hextra⟩

/-! ## White space around a text -/

theorem isSpace_of_isLineBreak {c : Char} (h : isLineBreak c = true) : isSpace c = true := by
  simp only [isLineBreak, List.contains_iff_mem, List.mem_cons, List.not_mem_nil, or_false] at h
  unfold isSpace
  rcases h with h | h | h | h | h | h | h | h | h | h <;> rw [h] <;> rfl

theorem ends_strip (t : Str) : Ends (strip t) := by
  intro c hc
  have last : isSpace c = false := by
    rw [strip, rstrip, Option.mem_def, List.getLast?_reverse] at hc
    have hdrop := List.head?_dropWhile_not (p := isSpace) (l := (lstrip t).reverse)
    rw [hc] at hdrop
    simpa using hdrop
  by_contra hbreak
  rw [isSpace_of_isLineBreak (by simpa using hbreak)] at last
  cases last

/-- A blank in front of a text adds a blank line, or blanks to the first one. -/
theorem splitlines_blank_cons {c : Char} (hc : isSpace c = true) {t line : Str}
    (hline : line ∈ splitlines (c :: t)) (hne : strip line ≠ []) :
    ∃ kept ∈ splitlines t, strip kept = strip line := by
  by_cases hbreak : isLineBreak c = true
  · by_cases hpair : ∃ ds, c = '\r' ∧ t = '\n' :: ds
    · obtain ⟨ds, rfl, rfl⟩ := hpair
      rw [splitlines_pair] at hline
      rcases List.mem_cons.mp hline with rfl | hline
      · exact absurd rfl hne
      · have feed : splitlines ('\n' :: ds) = [] :: splitlines ds := splitlines_break rfl nofun
        exact ⟨line, by simp [feed, hline], rfl⟩
    · rw [splitlines_break hbreak fun ds hr hn => hpair ⟨ds, hr, hn⟩] at hline
      rcases List.mem_cons.mp hline with rfl | hline
      · exact absurd rfl hne
      · exact ⟨line, hline, rfl⟩
  · have hbreak : isLineBreak c = false := by simpa using hbreak
    have trimmed : ∀ l : Str, strip (c :: l) = strip l := strip_white_append (w := [c]) (by simpa)
    cases ht : splitlines t with
    | nil =>
      have none : t = [] := by
        by_contra rest
        exact splitlines_ne_nil rest ht
      subst none
      rw [splitlines_single (by simp) (by simpa using hbreak)] at hline
      obtain rfl := List.mem_singleton.mp hline
      exact absurd (trimmed []) hne
    | cons first rest =>
      rw [splitlines_char hbreak ht] at hline
      rcases List.mem_cons.mp hline with rfl | hline
      · exact ⟨first, by simp, (trimmed first).symm⟩
      · exact ⟨line, by simp [hline], rfl⟩

/-- White space in front of a text adds blank lines, and blanks to its first one. -/
theorem splitlines_white_append {w : Str} (hw : ∀ c ∈ w, isSpace c = true) {t line : Str}
    (hline : line ∈ splitlines (w ++ t)) (hne : strip line ≠ []) :
    ∃ kept ∈ splitlines t, strip kept = strip line := by
  induction w generalizing line with
  | nil => exact ⟨line, hline, rfl⟩
  | cons c w ih =>
    obtain ⟨hc, hrest⟩ := List.forall_mem_cons.mp hw
    obtain ⟨next, hnext, hsame⟩ := splitlines_blank_cons hc hline hne
    obtain ⟨kept, hkept, heq⟩ := ih hrest hnext (hsame ▸ hne)
    exact ⟨kept, hkept, heq.trans hsame⟩

/-- White space behind a text adds blanks to its last line, and blank lines. -/
theorem splitlines_append_white {w : Str} (hw : ∀ c ∈ w, isSpace c = true) {t line : Str}
    (hne : t ≠ []) (h : Ends t) (hline : line ∈ splitlines (t ++ w)) (hcode : strip line ≠ []) :
    ∃ kept ∈ splitlines t, strip kept = strip line := by
  obtain ⟨init, last, u, extra, ht, hwhole, hu, hextra⟩ := splitlines_append_tail hne h w
  rw [hwhole] at hline
  rcases List.mem_append.mp hline with hline | hline
  · exact ⟨line, by simp [ht, hline], rfl⟩
  · rcases List.mem_cons.mp hline with rfl | hline
    · exact ⟨last, by simp [ht], (strip_append_white (fun c hc => hw c (hu c hc)) last).symm⟩
    · obtain ⟨c, hc, hspace⟩ := exists_of_strip_ne_nil hcode
      rw [hw c (hextra line hline c hc)] at hspace
      cases hspace

/-- Trimming a text keeps its lines but for the blank ones, and trims them. -/
theorem splitlines_strip {t line : Str} (hline : line ∈ splitlines t) (hne : strip line ≠ []) :
    ∃ kept ∈ splitlines (strip t), strip kept = strip line := by
  obtain ⟨front, back, ht, hfront, hback⟩ := exists_strip t
  rw [ht, List.append_assoc] at hline
  obtain ⟨next, hnext, hsame⟩ := splitlines_white_append hfront hline hne
  have filled : strip t ≠ [] := by
    intro hnil
    rw [hnil, List.nil_append] at hnext
    obtain ⟨c, hc, hspace⟩ := exists_of_strip_ne_nil (hsame ▸ hne)
    rw [hback c (mem_of_mem_splitlines hnext hc)] at hspace
    cases hspace
  obtain ⟨kept, hkept, heq⟩ := splitlines_append_white hback filled (ends_strip t) hnext
    (hsame ▸ hne)
  exact ⟨kept, hkept, heq.trans hsame⟩

/-- The first line end of another kind. -/
theorem exists_of_not_plain {t : Str} (h : ¬ Plain t) : ∃ a c b, t = a ++ c :: b ∧ Plain a ∧
    isLineBreak c = true ∧ c ≠ '\n' ∧ c ≠ '\r' := by
  induction t with
  | nil => exact absurd nofun h
  | cons d ds ih =>
    by_cases hd : isLineBreak d = true → d = '\n' ∨ d = '\r'
    · have rest : ¬ Plain ds := fun hds => h (List.forall_mem_cons.mpr ⟨hd, hds⟩)
      obtain ⟨a, c, b, rfl, ha, hc⟩ := ih rest
      exact ⟨d :: a, c, b, rfl, List.forall_mem_cons.mpr ⟨hd, ha⟩, hc⟩
    · simp only [Classical.not_imp, not_or] at hd
      exact ⟨[], d, ds, rfl, nofun, hd⟩

end DeltaForgeBench.Base.Lines
