import DeltaForgeBench.Base.JsonPretty
import Mathlib.Algebra.Order.Ring.Int

/-! # The payload of the CLI's output

The CLI may print lines before its JSON payload. The whole output is tried as
one document first. Then the payload is taken from the first line that starts
with a brace to the line in which the braces balance, wherever they stand, and
those lines are joined with line feeds. -/
namespace DeltaForgeBench.Engines.CliJson
open DeltaForgeBench.Base.Text DeltaForgeBench.Base.Lines DeltaForgeBench.Base.JsonText
open DeltaForgeBench.Base.JsonPretty

/-! ## `_try_parse_cli_json` -/

/-- The depth behind a line, or none when a brace in it closes the payload. -/
def scanLine : Int → Str → Option Int
  | depth, [] => some depth
  | depth, c :: cs =>
    if c = '{' then scanLine (depth + 1) cs
    else if c = '}' then if depth - 1 = 0 then none else scanLine (depth - 1) cs
    else scanLine depth cs

/-- The lines up to the one that closes the payload. -/
def scanLines : Int → List Str → List Str → Option (List Str)
  | _, _, [] => none
  | depth, buf, line :: lines =>
    match scanLine depth line with
    | none => some (buf ++ [line])
    | some depth => scanLines depth (buf ++ [line]) lines

section Parse
variable {ν : Type} (number : Str → ν)

/-- The fast path: the output is one document, behind white space. -/
def wholeText (stdout : Str) : Option (Json ν) :=
  let s := lstrip stdout
  if s.head? = some '{' then loads number s else none

def scanText (lines : List Str) : Option (Json ν) :=
  match lines.dropWhile fun line => line.head? ≠ some '{' with
  | [] => none
  | line :: rest => (scanLines 0 [] (line :: rest)).bind fun buf => loads number (join ['\n'] buf)

/-- `_try_parse_cli_json`. -/
def tryParseCliJson (stdout : Str) : Option (Json ν) :=
  if stdout = [] then none
  else match wholeText number stdout with
    | some v => some v
    | none => scanText number (splitlines stdout)

end Parse

/-! ## Braces -/

def weight (c : Char) : Int := if c = '{' then 1 else if c = '}' then -1 else 0

def braces (t : Str) : Int := (t.map weight).sum

@[simp] theorem braces_nil : braces [] = 0 := rfl

@[simp] theorem braces_cons (c : Char) (cs : Str) : braces (c :: cs) = weight c + braces cs := by
  simp [braces]

theorem braces_append (t u : Str) : braces (t ++ u) = braces t + braces u := by
  simp [braces]

theorem weight_break {c : Char} (h : isLineBreak c = true) : weight c = 0 := by
  have opening : c ≠ '{' := ne_of_test h rfl
  have closing : c ≠ '}' := ne_of_test h rfl
  rw [weight, if_neg opening, if_neg closing]

theorem braces_breaks {b : Str} (h : ∀ c ∈ b, isLineBreak c = true) : braces b = 0 := by
  induction b with
  | nil => rfl
  | cons c cs ih =>
    obtain ⟨hc, hcs⟩ := List.forall_mem_cons.mp h
    rw [braces_cons, weight_break hc, ih hcs, Int.add_zero]

theorem scanLine_cons {depth : Int} (hd : 0 < depth) (c : Char) (cs : Str) :
    scanLine depth (c :: cs) =
      if depth + weight c = 0 then none else scanLine (depth + weight c) cs := by
  by_cases hopen : c = '{'
  · subst hopen
    rw [if_neg (by simp [weight]; omega)]
    rfl
  · by_cases hclose : c = '}'
    · subst hclose
      rfl
    · simp [scanLine, weight, hopen, hclose, hd.ne']

theorem scanLine_positive {depth : Int} (hd : 0 < depth) (line : Str) :
    (scanLine depth line = none ∧ '}' ∈ line ∧ ∃ u r, line = u ++ r ∧ depth + braces u = 0) ∨
    (scanLine depth line = some (depth + braces line) ∧ 0 < depth + braces line ∧
      ∀ u r, line = u ++ r → depth + braces u ≠ 0) := by
  induction line generalizing depth with
  | nil =>
    refine .inr ⟨by simp [scanLine], by simpa using hd, ?_⟩
    intro u r h
    obtain ⟨rfl, -⟩ := List.append_eq_nil_iff.mp h.symm
    simpa using hd.ne'
  | cons c cs ih =>
    rw [scanLine_cons hd, braces_cons]
    by_cases hzero : depth + weight c = 0
    · have hc : c = '}' := by
        by_contra hclose
        have nonneg : 0 ≤ weight c := by
          rw [weight, if_neg hclose]
          split <;> decide
        omega
      exact .inl ⟨if_pos hzero, by simp [hc], [c], cs, rfl, by simpa using hzero⟩
    · have hpos : 0 < depth + weight c := by
        have low : -1 ≤ weight c := by
          unfold weight
          split <;> [skip; split] <;> omega
        omega
      rw [if_neg hzero]
      rcases ih hpos with ⟨hnone, hmem, u, r, rfl, hu⟩ | ⟨hsome, hpos', hfree⟩
      · refine .inl ⟨hnone, List.mem_cons_of_mem c hmem, c :: u, r, rfl, ?_⟩
        rw [braces_cons]
        omega
      · refine .inr ⟨by rw [hsome, Int.add_assoc], by omega, ?_⟩
        intro u r h
        cases u with
        | nil => simpa using hd.ne'
        | cons d ds =>
          rw [List.cons_append] at h
          obtain ⟨rfl, hcs⟩ := List.cons.inj h
          have := hfree ds r hcs
          rw [braces_cons]
          omega

/-- A depth at which the scan meets a line: none is open on the first one only. -/
def Ready (depth : Int) (line : Str) : Prop := 0 < depth ∨ depth = 0 ∧ line.head? = some '{'

/-- A line closes the payload where the braces balance. -/
theorem scanLine_spec {depth : Int} {line : Str} (h : Ready depth line) :
    (scanLine depth line = none ∧ '}' ∈ line ∧
      ∃ u r, line = u ++ r ∧ u ≠ [] ∧ depth + braces u = 0) ∨
    (scanLine depth line = some (depth + braces line) ∧ 0 < depth + braces line ∧
      ∀ u r, line = u ++ r → u ≠ [] → depth + braces u ≠ 0) := by
  rcases h with hd | ⟨rfl, hbrace⟩
  · rcases scanLine_positive hd line with ⟨hnone, hmem, u, r, hline, hu⟩ | ⟨hsome, hpos, hfree⟩
    · refine .inl ⟨hnone, hmem, u, r, hline, ?_, hu⟩
      intro e
      subst e
      exact hd.ne' (by simpa using hu)
    · exact .inr ⟨hsome, hpos, fun u r hline _ => hfree u r hline⟩
  · obtain ⟨cs, rfl⟩ : ∃ cs, line = '{' :: cs := by
      cases line with
      | nil => cases hbrace
      | cons c cs => exact ⟨cs, by rw [Option.some.inj hbrace]⟩
    have opened : ∀ u, 0 + braces ('{' :: u) = 1 + braces u := fun u => by
      rw [braces_cons, Int.zero_add]
      rfl
    have first : scanLine 0 ('{' :: cs) = scanLine 1 cs := rfl
    rw [first, opened]
    rcases scanLine_positive Int.one_pos cs with ⟨hnone, hmem, u, r, rfl, hu⟩ | ⟨hsome, hpos, hfree⟩
    · exact .inl ⟨hnone, List.mem_cons_of_mem _ hmem, '{' :: u, r, rfl, by simp, by rw [opened, hu]⟩
    · refine .inr ⟨hsome, hpos, fun u r hline hu => ?_⟩
      cases u with
      | nil => exact absurd rfl hu
      | cons d ds =>
        rw [List.cons_append] at hline
        obtain ⟨rfl, hcs⟩ := List.cons.inj hline
        rw [opened]
        exact hfree ds r hcs

/-! ## The closing line -/

/-- The braces of the text balance, from this depth, and only on its last line. -/
def Balances (depth : Int) (t : Str) : Prop :=
  (∃ u r, t = u ++ r ∧ u ≠ [] ∧ depth + braces u = 0) ∧
  ∀ u r, t = u ++ r → u ≠ [] → depth + braces u = 0 → ∀ c ∈ r, isLineBreak c = false

/-- What the scan takes ends with a line that has a closing brace. -/
theorem scanLines_spec {depth : Int} {buf lines out : List Str}
    (hready : ∀ line ∈ lines.head?, Ready depth line) (h : scanLines depth buf lines = some out) :
    ∃ pre line post, lines = pre ++ line :: post ∧ out = buf ++ (pre ++ [line]) ∧ '}' ∈ line := by
  induction lines generalizing depth buf with
  | nil => cases h
  | cons line lines ih =>
    rw [scanLines] at h
    rcases scanLine_spec (hready line rfl) with ⟨hnone, hmem, -⟩ | ⟨hsome, hpos, -⟩
    · rw [hnone] at h
      exact ⟨[], line, lines, rfl, (Option.some.inj h).symm, hmem⟩
    · rw [hsome] at h
      obtain ⟨pre, last, post, rfl, rfl, hmem⟩ := ih (fun _ _ => .inl hpos) h
      exact ⟨line :: pre, last, post, rfl, by simp, hmem⟩

/-- A line without a balance and its end pass their depth on. -/
theorem balances_append {depth : Int} {l b t : Str} (hb : ∀ c ∈ b, isLineBreak c = true)
    (hpos : 0 < depth + braces l)
    (hfree : ∀ u r, l = u ++ r → u ≠ [] → depth + braces u ≠ 0) :
    Balances depth (l ++ b ++ t) ↔ Balances (depth + braces l) t := by
  have whole : ∀ w, depth + braces (l ++ b ++ w) = depth + braces l + braces w := by
    intro w
    rw [braces_append, braces_append, braces_breaks hb]
    omega
  -- a balance of the whole lies beyond the line and its end
  have beyond : ∀ u r, l ++ b ++ t = u ++ r → u ≠ [] → depth + braces u = 0 →
      ∃ w, u = l ++ b ++ w ∧ t = w ++ r ∧ w ≠ [] := by
    intro u r h hu hzero
    rcases List.append_eq_append_iff.mp h with ⟨w, rfl, ht⟩ | ⟨w, hlb, -⟩
    · refine ⟨w, rfl, ht, ?_⟩
      intro e
      subst e
      rw [whole] at hzero
      exact hpos.ne' (by simpa using hzero)
    · rcases List.append_eq_append_iff.mp hlb with ⟨b', rfl, hb'⟩ | ⟨l', hl, -⟩
      · have none_in : braces b' = 0 := braces_breaks fun c hc => hb c (by simp [hb', hc])
        rw [braces_append, none_in, Int.add_zero] at hzero
        exact absurd hzero hpos.ne'
      · exact absurd hzero (hfree u l' hl hu)
  constructor
  · intro h
    obtain ⟨⟨u, r, h, hu, hzero⟩, hlast⟩ := h
    obtain ⟨w, rfl, rfl, hw⟩ := beyond u r h hu hzero
    refine ⟨⟨w, r, rfl, hw, by rwa [whole] at hzero⟩, ?_⟩
    intro w' r' h' hw' hzero'
    exact hlast (l ++ b ++ w') r' (by rw [h', ← List.append_assoc]) (by simp [hw'])
      (by rwa [whole])
  · intro h
    obtain ⟨⟨w, r, rfl, hw, hzero⟩, hlast⟩ := h
    refine ⟨⟨l ++ b ++ w, r, by simp, by simp [hw], by rwa [whole]⟩, ?_⟩
    intro u r' h' hu hzero'
    obtain ⟨w', rfl, ht, hw'⟩ := beyond u r' h' hu hzero'
    exact hlast w' r' ht hw' (by rwa [whole] at hzero')

/-- **The scan takes the lines of a text when its braces balance on the last of
them.** -/
theorem scanLines_iff {depth : Int} {t : Str} (hready : Ready depth t) (hne : t ≠ [])
    (hends : Ends t) (buf rest : List Str) :
    scanLines depth buf (splitlines t ++ rest) = some (buf ++ splitlines t) ↔ Balances depth t := by
  induction hn : t.length using Nat.strong_induction_on generalizing t depth buf with
  | _ n ih =>
    rcases splitlines_cases hne hends with
      ⟨hsingle, hfree⟩ | ⟨l, b, u, rfl, hsplit, hu, huends, hb, hl, hbreaks⟩
    · rw [hsingle]
      rcases scanLine_spec hready with ⟨hnone, -, v, r, rfl, hv, hzero⟩ | ⟨hsome, hpos, hall⟩
      · refine ⟨fun _ => ⟨⟨v, r, rfl, hv, hzero⟩, ?_⟩, fun _ => ?_⟩
        · intro v' r' h' _ _ c hc
          exact hfree c (by simp [h', hc])
        · rw [List.singleton_append, scanLines, hnone]
      · refine ⟨fun h => ?_, fun ⟨⟨v, r, h, hv, hzero⟩, _⟩ => absurd hzero (hall v r h hv)⟩
        rw [List.singleton_append, scanLines, hsome] at h
        obtain ⟨pre, line, post, -, hout, -⟩ := scanLines_spec (fun _ _ => .inl hpos) h
        simp at hout
    · obtain ⟨c, cs, rfl⟩ := List.exists_cons_of_ne_nil hb
      have hc : isLineBreak c = true := hbreaks c (by simp)
      have hreadyl : Ready depth l := by
        refine hready.imp id fun ⟨hzero, hbrace⟩ => ⟨hzero, ?_⟩
        cases l with
        | nil =>
          obtain rfl : c = '{' := Option.some.inj hbrace
          exact absurd hc (by decide)
        | cons d ds => exact hbrace
      rw [hsplit, List.cons_append, scanLines]
      rcases scanLine_spec hreadyl with ⟨hnone, -, v, r, rfl, hv, hzero⟩ | ⟨hsome, hpos, hall⟩
      · rw [hnone]
        refine ⟨fun h => ?_, fun ⟨_, hlast⟩ => ?_⟩
        · have more := splitlines_ne_nil hu
          simp at h
          exact absurd h more
        · have broken := hlast v (r ++ c :: cs ++ u) (by simp) hv hzero c (by simp)
          rw [hc] at broken
          cases broken
      · have shorter : u.length < n := by
          rw [← hn]
          simp
          omega
        have tail := ih u.length shorter (.inl hpos) hu huends (buf ++ [l]) rfl
        rw [hsome, balances_append hbreaks hpos hall, ← tail]
        simp

/-! ## The output -/

/-- A line the CLI prints before the payload. -/
structure InfoLine where
  text : Str
  brace : text.head? ≠ some '{'

/-- What `splitlines` makes of the line: it knows more line ends than the CLI. -/
def InfoLine.pieces (info : InfoLine) : List Str := splitlines (info.text ++ ['\n'])

/-- The line does not fall into pieces of which one begins like a payload. -/
def InfoLine.Quiet (info : InfoLine) : Prop := ∀ piece ∈ info.pieces, piece.head? ≠ some '{'

/-- The first lines that look like a payload: from the first one with a brace in
front to the one in which the braces balance. -/
def FirstBlock (lines block : List Str) : Prop :=
  ∃ before after, lines = before ++ block ++ after ∧
    (∀ line ∈ before, line.head? ≠ some '{') ∧ (∃ line ∈ block.head?, line.head? = some '{') ∧
    Balances 0 (join ['\n'] block)

section Output
variable {ν : Type} {number : Str → ν} {v : Json ν}

/-- A text of the value as the CLI prints it: a document from brace to brace. -/
structure Payload (number : Str → ν) (v : Json ν) where
  text : Str
  reads : loads number text = some v
  opens : text.head? = some '{'
  closes : text.getLast? = some '}'

/-- Every object has a payload. -/
def printed (printer : Printer number) (members : List (Points × Json ν))
    (h : Printable (.obj members)) : Payload number (.obj members) where
  text := pretty printer 0 (.obj members)
  reads := loads_pretty printer h
  opens := by
    cases members <;> rfl
  closes := by
    match members with
    | [] => rfl
    | (k, v) :: ms =>
      rw [pretty]
      exact List.getLast?_concat

def output (infos : List InfoLine) (p : Payload number v) (trailing : List Str) : Str :=
  infos.flatMap (fun info => info.text ++ ['\n']) ++ p.text ++ trailing.flatMap ('\n' :: ·)

theorem Payload.ne_nil (p : Payload number v) : p.text ≠ [] := by
  intro h
  have opens := p.opens
  rw [h] at opens
  cases opens

theorem Payload.ends (p : Payload number v) : Ends p.text := by
  intro c hc
  rw [p.closes] at hc
  obtain rfl := Option.some.inj hc
  rfl

theorem splitlines_output (infos : List InfoLine) (p : Payload number v) (trailing : List Str) :
    ∃ rest, splitlines (output infos p trailing) =
      infos.flatMap InfoLine.pieces ++ (splitlines p.text ++ rest) := by
  induction infos with
  | nil =>
    cases trailing with
    | nil => exact ⟨[], by simp [output]⟩
    | cons t ts =>
      exact ⟨splitlines (t ++ ts.flatMap ('\n' :: ·)), by
        simpa [output] using splitlines_append _ p.ne_nil p.ends⟩
  | cons info infos ih =>
    obtain ⟨rest, hrest⟩ := ih
    refine ⟨rest, ?_⟩
    have first := splitlines_feed info.text (output infos p trailing)
    rw [hrest] at first
    simpa [output, InfoLine.pieces] using first

theorem head_splitlines {t : Str} {c : Char} (h : t.head? = some c) (hc : isLineBreak c = false)
    (hends : Ends t) : ∃ line rest, splitlines t = line :: rest ∧ line.head? = some c := by
  have hne : t ≠ [] := by
    intro e
    subst e
    cases h
  rcases splitlines_cases hne hends with
    ⟨hsingle, -⟩ | ⟨l, b, u, rfl, hsplit, -, -, hb, -, hbreaks⟩
  · exact ⟨t, [], hsingle, h⟩
  · refine ⟨l, _, hsplit, ?_⟩
    cases l with
    | nil =>
      obtain ⟨d, ds, rfl⟩ := List.exists_cons_of_ne_nil hb
      obtain rfl := Option.some.inj h
      rw [hbreaks d (by simp)] at hc
      cases hc
    | cons d ds => exact h

/-- The scan starts at the first line with a brace in front. -/
theorem scanText_from {before lines : List Str} (hbefore : ∀ line ∈ before, line.head? ≠ some '{')
    (hlines : ∃ line ∈ lines.head?, line.head? = some '{') :
    scanText number (before ++ lines) =
      (scanLines 0 [] lines).bind fun buf => loads number (join ['\n'] buf) := by
  have skip : ∀ l ∈ before, decide (l.head? ≠ some '{') = true := fun l hl =>
    decide_eq_true (hbefore l hl)
  obtain ⟨line, hline, hbrace⟩ := hlines
  cases lines with
  | nil => cases hline
  | cons first rest =>
    obtain rfl := Option.some.inj hline
    unfold scanText
    rw [List.dropWhile_append_of_pos skip, List.dropWhile_cons_of_neg (by simp [hbrace])]

/-- The scan starts at the payload's first line. -/
theorem scanText_output {infos : List InfoLine} (hquiet : ∀ info ∈ infos, info.Quiet)
    (p : Payload number v) (rest : List Str) :
    scanText number (infos.flatMap InfoLine.pieces ++ (splitlines p.text ++ rest)) =
      (scanLines 0 [] (splitlines p.text ++ rest)).bind fun buf => loads number (join ['\n'] buf) := by
  refine scanText_from (fun piece hpiece => ?_) ?_
  · obtain ⟨info, hinfo, hmem⟩ := List.mem_flatMap.mp hpiece
    exact hquiet info hinfo piece hmem
  · obtain ⟨line, lines, hlines, hbrace⟩ := head_splitlines p.opens rfl p.ends
    exact ⟨line, by rw [hlines]; rfl, hbrace⟩

/-! ## What the scan takes -/

theorem not_white {t : Str} (h : '}' ∈ t) : t.all isWhite = false := by
  rw [List.all_eq_false]
  exact ⟨'}', h, by decide⟩

theorem Payload.unify_last (p : Payload number v) : (unify p.text).getLast? = some '}' := by
  obtain ⟨a, ha⟩ := List.getLast?_eq_some_iff.mp p.closes
  rw [ha, unify_append [] (by decide), List.getLast?_append]
  rfl

/-- The taken lines are the payload's, or some of them, or go on behind them. -/
theorem taken_cases (p : Payload number v) {rest pre post : List Str} {line : Str}
    (h : splitlines p.text ++ rest = pre ++ line :: post) (hline : '}' ∈ line) :
    let taken := join ['\n'] (pre ++ [line])
    pre ++ [line] = splitlines p.text ∨
    (∃ more, unify p.text = taken ++ '\n' :: more ∧ '}' ∈ more) ∨
    ∃ more, taken = unify p.text ++ '\n' :: more ∧ '}' ∈ more := by
  have lines_ne := splitlines_ne_nil p.ne_nil
  have whole := join_splitlines p.ends
  rw [List.append_cons] at h
  rcases List.append_eq_append_iff.mp h with ⟨behind, hlines, -⟩ | ⟨left, hlines, -⟩
  · cases behind with
    | nil => exact .inl (by simpa using hlines)
    | cons b bs =>
      have last : line ∈ b :: bs := by
        have hlast := congrArg List.getLast? hlines
        rw [List.getLast?_append_of_ne_nil _ (by simp),
          List.getLast?_append_of_ne_nil _ (by simp)] at hlast
        exact List.mem_of_getLast? hlast.symm
      refine .inr (.inr ⟨join ['\n'] (b :: bs), ?_, (infix_join last).subset hline⟩)
      rw [hlines, join_append lines_ne (by simp), whole, List.append_assoc]
      rfl
  · cases left with
    | nil => exact .inl (by simpa using hlines.symm)
    | cons l ls =>
      have joined : unify p.text = join ['\n'] (pre ++ [line]) ++ '\n' :: join ['\n'] (l :: ls) := by
        rw [← whole, hlines, join_append (by simp) (by simp), List.append_assoc]
        rfl
      refine .inr (.inl ⟨_, joined, ?_⟩)
      have hlast := p.unify_last
      rw [joined, List.getLast?_append_cons] at hlast
      cases hmore : join ['\n'] (l :: ls) with
      | nil =>
        rw [hmore] at hlast
        exact absurd (Option.some.inj hlast) (by decide)
      | cons c cs =>
        rw [hmore, List.getLast?_cons_cons] at hlast
        exact List.mem_of_getLast? hlast

/-- The lines of the payload are what the scan decodes, if it decodes to the value. -/
theorem scan_iff (p : Payload number v) (rest : List Str) :
    ((scanLines 0 [] (splitlines p.text ++ rest)).bind fun buf => loads number (join ['\n'] buf)) =
      some v ↔ Plain p.text ∧ Balances 0 p.text := by
  have whole := join_splitlines p.ends
  have takes := scanLines_iff (.inr ⟨rfl, p.opens⟩) p.ne_nil p.ends [] rest
  rw [List.nil_append] at takes
  constructor
  · intro h
    obtain ⟨out, hscan, hload⟩ := Option.bind_eq_some_iff.mp h
    have ready : ∀ line ∈ (splitlines p.text ++ rest).head?, Ready 0 line := by
      obtain ⟨line, lines, hlines, hbrace⟩ := head_splitlines p.opens rfl p.ends
      rw [hlines]
      intro l hl
      obtain rfl := Option.some.inj hl
      exact .inr ⟨rfl, hbrace⟩
    obtain ⟨pre, line, post, hlines, rfl, hline⟩ := scanLines_spec ready hscan
    rw [List.nil_append] at hload hscan
    have cases := taken_cases p hlines hline
    have plain : Plain p.text := by
      by_contra hbad
      obtain ⟨q, r, s, isKey, read, hbroken, hrun, hmode⟩ := unify_breaks p.reads hbad
      have broken : loads number (join ['\n'] (pre ++ [line])) = none := by
        rcases cases with hsame | ⟨more, hmore, -⟩ | ⟨more, hmore, -⟩
        · refine loads_broken hrun hmode (u := []) (r := r ++ ['\n']) ?_
          rw [hsame, whole, hbroken]
          simp
        · exact loads_broken hrun hmode (u := more) (hmore.symm.trans hbroken)
        · refine loads_broken hrun hmode (u := []) (r := r ++ '\n' :: more ++ ['\n']) ?_
          rw [hmore, hbroken]
          simp
      rw [broken] at hload
      cases hload
    refine ⟨plain, ?_⟩
    rcases cases with hsame | ⟨more, hmore, hbrace⟩ | ⟨more, hmore, hbrace⟩
    · rw [hsame] at hscan
      exact takes.mp hscan
    · have reads := p.reads
      rw [loads_eq_some, run_append] at reads
      obtain ⟨s, hs, -⟩ := Option.bind_eq_some_iff.mp reads
      rw [← run_unify plain, hmore] at hs
      rw [loads_beginning hs (not_white hbrace)] at hload
      cases hload
    · have reads := p.reads
      rw [← loads_unify plain] at reads
      rw [hmore, loads_extended reads (not_white hbrace)] at hload
      cases hload
  · intro h
    obtain ⟨plain, balances⟩ := h
    rw [takes.mpr balances]
    exact (congrArg (loads number) whole).trans ((loads_unify plain).trans p.reads)

/-- A text whose braces balance on its last line stops there. -/
theorem Balances.ends {t : Str} (h : Balances 0 t) (hopen : t.head? = some '{') : Ends t := by
  intro c hc
  by_contra hbreak
  have hbreak : isLineBreak c = true := by simpa using hbreak
  obtain ⟨⟨u, r, hsplit, hu, hzero⟩, hlast⟩ := h
  obtain ⟨s, hs⟩ := List.getLast?_eq_some_iff.mp hc
  cases r using List.reverseRecOn with
  | nil =>
    -- the balance is already there in front of the line end
    have filled : s ≠ [] := by
      intro e
      subst e
      rw [hs] at hopen
      obtain rfl : c = '{' := Option.some.inj hopen
      cases hbreak
    have before : 0 + braces s = 0 := by
      rw [List.append_nil, hs] at hsplit
      rwa [← hsplit, braces_append, braces_breaks (b := [c]) (by simpa using hbreak), Int.add_zero]
        at hzero
    have free := hlast s [c] hs filled before c (by simp)
    rw [hbreak] at free
    cases free
  | append_singleton r d =>
    obtain rfl : c = d := by
      rw [hsplit, ← List.append_assoc, Option.mem_def, List.getLast?_concat] at hc
      exact (Option.some.inj hc).symm
    have free := hlast u (r ++ [c]) hsplit hu hzero c (by simp)
    rw [hbreak] at free
    cases free

theorem head_join {line : Str} {lines : List Str} (h : line.head? = some '{') :
    (join ['\n'] (line :: lines)).head? = some '{' := by
  cases line with
  | nil => cases h
  | cons c cs => cases lines <;> simpa using h

/-- A block of lines that has a balance is taken as a whole. -/
theorem scanLines_block {t : Str} {before block after : List Str}
    (hsplit : splitlines t = before ++ block ++ after)
    (hopen : ∃ line ∈ block.head?, line.head? = some '{') (hends : Ends (join ['\n'] block)) :
    scanLines 0 [] (block ++ after) = some block ↔ Balances 0 (join ['\n'] block) := by
  obtain ⟨line, hline, hbrace⟩ := hopen
  obtain ⟨block', rfl⟩ : ∃ rest, block = line :: rest := by
    cases block with
    | nil => cases hline
    | cons first rest => exact ⟨rest, by rw [Option.some.inj hline]⟩
  have opened : (join ['\n'] (line :: block')).head? = some '{' := head_join hbrace
  have filled : join ['\n'] (line :: block') ≠ [] := by
    intro e
    rw [e] at opened
    cases opened
  have read : splitlines (join ['\n'] (line :: block')) = line :: block' := by
    refine splitlines_join hends (fun e => filled (by rw [e]; rfl)) fun l hl =>
      line_of_mem_splitlines (t := t) ?_
    rw [hsplit]
    exact List.mem_append_left _ (List.mem_append_right _ hl)
  have takes := scanLines_iff (.inr ⟨rfl, opened⟩) filled hends [] after
  rwa [read, List.nil_append] at takes

/-- Whatever the text is, the scan decodes its first block. -/
theorem scanText_iff (t : Str) :
    scanText number (splitlines t) = some v ↔
      ∃ block, FirstBlock (splitlines t) block ∧ loads number (join ['\n'] block) = some v := by
  constructor
  · intro h
    generalize hlines : splitlines t = lines at h
    obtain ⟨before, first, rest, rfl, hbefore, hbrace⟩ :
        ∃ before first rest, lines = before ++ first :: rest ∧
          (∀ line ∈ before, line.head? ≠ some '{') ∧ first.head? = some '{' := by
      unfold scanText at h
      cases hdrop : lines.dropWhile (fun line => line.head? ≠ some '{') with
      | nil =>
        rw [hdrop] at h
        cases h
      | cons first rest =>
        refine ⟨lines.takeWhile (fun line => line.head? ≠ some '{'), first, rest, ?_, ?_, ?_⟩
        · rw [← hdrop, List.takeWhile_append_dropWhile]
        · intro line hline
          simpa using List.mem_takeWhile_imp hline
        · have stop := List.head?_dropWhile_not (p := fun line : Str => line.head? ≠ some '{') (l := lines)
          rw [hdrop] at stop
          simpa using stop
    rw [scanText_from hbefore ⟨first, rfl, hbrace⟩] at h
    obtain ⟨block, hscan, hload⟩ := Option.bind_eq_some_iff.mp h
    have ready : ∀ line ∈ (first :: rest).head?, Ready 0 line := fun line hline => by
      obtain rfl := Option.some.inj hline
      exact .inr ⟨rfl, hbrace⟩
    obtain ⟨pre, last, after, hsplit, rfl, hlast⟩ := scanLines_spec ready hscan
    rw [List.nil_append] at hscan hload
    have hsplit : first :: rest = pre ++ [last] ++ after := by rw [hsplit, List.append_assoc]; rfl
    have hopen : ∃ line ∈ (pre ++ [last]).head?, line.head? = some '{' := by
      refine ⟨first, ?_, hbrace⟩
      have head := congrArg List.head? hsplit
      rw [List.head?_append_of_ne_nil _ (by simp)] at head
      exact head.symm
    have hends : Ends (join ['\n'] (pre ++ [last])) := by
      have line : ∀ c ∈ last, isLineBreak c = false :=
        line_of_mem_splitlines (t := t) (by rw [hlines, hsplit]; simp)
      have filled : last ≠ [] := List.ne_nil_of_mem hlast
      intro c hc
      refine line c (List.mem_of_getLast? ?_)
      cases pre with
      | nil => simpa using hc
      | cons first rest =>
        rwa [join_append (by simp) (by simp), join_singleton, Option.mem_def,
          List.getLast?_append_of_ne_nil _ filled] at hc
    rw [hsplit] at hscan
    rw [hsplit, ← List.append_assoc] at hlines ⊢
    refine ⟨pre ++ [last], ⟨before, after, rfl, hbefore, hopen, ?_⟩, hload⟩
    exact (scanLines_block hlines hopen hends).mp hscan
  · rintro ⟨block, ⟨before, after, hsplit, hbefore, hopen, hbal⟩, hload⟩
    have hends : Ends (join ['\n'] block) := hbal.ends (by
      obtain ⟨line, hline, hbrace⟩ := hopen
      cases block with
      | nil => cases hline
      | cons first rest =>
        obtain rfl := Option.some.inj hline
        exact head_join hbrace)
    have scan := (scanLines_block hsplit hopen hends).mpr hbal
    rw [hsplit, List.append_assoc, scanText_from hbefore, scan]
    · exact hload
    · obtain ⟨line, hline, hbrace⟩ := hopen
      cases block with
      | nil => cases hline
      | cons first rest => exact ⟨line, hline, hbrace⟩

/-- **The value comes back when the whole output is one document of it; and
otherwise when the whole is no document, no line of the payload ends but with a
line feed or a carriage return, and its braces balance on its last line only.**
A brace behind another line end in an informational line moves the scan there:
the value comes back when the first block of the output happens to be one of it. -/
theorem tryParseCliJson_iff (infos : List InfoLine) (p : Payload number v) (trailing : List Str) :
    tryParseCliJson number (output infos p trailing) = some v ↔
      wholeText number (output infos p trailing) = some v ∨
      (wholeText number (output infos p trailing) = none ∧
        ((∀ info ∈ infos, info.Quiet) ∧ Plain p.text ∧ Balances 0 p.text ∨
          (∃ info ∈ infos, ¬ info.Quiet) ∧
            ∃ block, FirstBlock (splitlines (output infos p trailing)) block ∧
              loads number (join ['\n'] block) = some v)) := by
  have nonempty : output infos p trailing ≠ [] := by
    simp [output, p.ne_nil]
  rw [tryParseCliJson, if_neg nonempty]
  cases hw : wholeText number (output infos p trailing) with
  | some w => simp
  | none =>
    by_cases hquiet : ∀ info ∈ infos, info.Quiet
    · obtain ⟨rest, hlines⟩ := splitlines_output infos p trailing
      have loud : ¬ ∃ info ∈ infos, ¬ info.Quiet := fun ⟨info, hinfo, hloud⟩ =>
        hloud (hquiet info hinfo)
      simp only [hlines, scanText_output hquiet, scan_iff, loud, false_and, or_false]
      exact ⟨fun h => .inr ⟨trivial, hquiet, h⟩, fun h => h.elim nofun (·.2.2)⟩
    · have loud : ∃ info ∈ infos, ¬ info.Quiet := by simpa using hquiet
      simp [scanText_iff, hquiet, loud]

end Output

/-! ## Three outputs that are not read -/

def nodeLine : InfoLine where
  text := "Node: bench".toList
  brace := by decide

def cutLine : InfoLine where
  text := "Node: a\u2028\x7bb".toList
  brace := by decide

/-- An object whose only value is the given character. -/
def single (c : Char) : Json Str :=
  .obj [("x".toList.map Char.toNat, .str [c.toNat])]

def bracePayload : Payload (fun token : Str => token) (single '}') where
  text := "\x7b\n  \"x\": \"\x7d\"\n\x7d".toList
  reads := by rfl
  opens := rfl
  closes := rfl

def separatorPayload : Payload (fun token : Str => token) (single '\u2028') where
  text := "\x7b\n  \"x\": \"\u2028\"\n\x7d".toList
  reads := by rfl
  opens := rfl
  closes := rfl

def plainPayload : Payload (fun token : Str => token) (single 'a') where
  text := "\x7b\n  \"x\": \"a\"\n\x7d".toList
  reads := by rfl
  opens := rfl
  closes := rfl

/-- A brace in a string closes the payload early; a line separator in one is
read as a line feed; and one in front of a brace opens a payload too soon. -/
theorem tryParseCliJson_loses_value :
    tryParseCliJson (fun token : Str => token) (output [nodeLine] bracePayload []) = none ∧
    tryParseCliJson (fun token : Str => token) (output [nodeLine] separatorPayload []) = none ∧
    tryParseCliJson (fun token : Str => token) (output [cutLine] plainPayload []) = none :=
  ⟨rfl, rfl, rfl⟩

end DeltaForgeBench.Engines.CliJson
