import Dossier.Proofs.Lexicon.PythonSteps

/-!
# The blanks around a Python text

The tokens of a Python text that stands elsewhere are the same tokens elsewhere
(`Dossier.Lexicon.Python.tokens_behind`), and blanks in front of a text only move them
(`Dossier.Lexicon.Python.tokens_plain_append`): before the first line of code, nothing depends on
how far the text is indented.

At the other end it is not as plain as in the other languages. The blanks behind a text end its last
line and close its blocks, as the end of the text does; and a string that is still open goes on in
them, but then the text has no outline (`Dossier.Lexicon.Python.tokens_append`).
-/

namespace Dossier.Lexicon.Python

variable {s : Scan} {p q : Position} {cs rest blanks : List Char} {c : Char} {n : Nat}
  {k : TokenKind} {frames outer : List Frame} {a : Action} {ts : List Token}

/-! ### A text that stands elsewhere -/

/-- What is known at a place of a text that stands behind a place. -/
def Scan.behind (q : Position) (s : Scan) : Scan :=
  { s with anchor := q.behind s.anchor }

theorem Action.tokens_behind (q : Position) (a : Action) :
    a.tokens (s.behind q) (q.behind p) cs = (a.tokens s p cs).map (Token.behind q) := by
  cases a with
  | cut k n frames =>
    simp only [tokens, Token.behind, Position.behind_advance, List.map_cons, List.map_nil]
  | _ => rfl

theorem Action.after_behind (q : Position) (a : Action) :
    a.after (s.behind q) (q.behind p) cs = (a.after s p cs).behind q := by
  cases a with
  | pass n => simp only [after, Scan.behind, Position.behind_advance]
  | cut k n frames => simp only [after, Scan.behind, Position.behind_advance]
  | _ => rfl

theorem atEnd_behind (q : Position) (s : Scan) (p : Position) :
    atEnd (s.behind q) (q.behind p) = (atEnd s p).map (Token.behind q) := by
  have hframes : (s.behind q).frames = s.frames := rfl
  unfold atEnd
  rw [hframes]
  split
  · have hbetween : (s.behind q).between = s.between := rfl
    rw [hbetween, List.map_append, List.map_map]
    split <;> rfl
  · rfl
  · rfl

/-- **Nothing that is done depends on where a text stands.** -/
theorem Cuts.behind (h : Cuts s p cs ts) (q : Position) :
    Cuts (s.behind q) (q.behind p) cs (ts.map (Token.behind q)) := by
  induction h with
  | atEnd s p => exact atEnd_behind q s p ▸ .atEnd _ _
  | @step s p c cs a ts h _ ih =>
    rw [List.map_append, ← a.tokens_behind]
    refine .step h ?_
    rw [a.after_behind, ← Position.behind_advance]
    exact ih

/-- **A text that stands elsewhere** has the same tokens elsewhere. -/
theorem tokens_behind (q p : Position) (cs : List Char) :
    tokens (q.behind p) cs = (tokens p cs).map (Token.behind q) :=
  (cuts_tokens _ cs).unique ((cuts_tokens p cs).behind q)

/-! ### Blanks in front of a text -/

/-- What begins a logical line is cut. -/
theorem exists_cut_codeStep (hcs : cs ≠ []) : ∃ k n frames, codeStep s cs = .cut k n frames := by
  obtain ⟨c, rest, rfl⟩ := List.exists_cons_of_ne_nil hcs
  unfold codeStep markStep
  dsimp only
  repeat' split
  all_goals exact ⟨_, _, _, rfl⟩

/-- Where a logical line begins, the next step cuts a token. -/
theorem OpensLine.exists_cut (h : OpensLine cs) (hs : s.between = false) (hframes : s.frames = []) :
    ∃ k n frames, step s cs = .cut k n frames := by
  obtain ⟨c, rest, rfl⟩ := List.exists_cons_of_ne_nil h.nonempty
  obtain ⟨hgap, hline⟩ := Bool.or_eq_false_iff.mp (show isGapOrLine c = false from h.gap)
  have hcomment : (c == '#') = false :=
    beq_false_of_ne fun hc => h.comment (by rw [hc, List.head?_cons])
  obtain ⟨k, n, frames, hcut⟩ := exists_cut_codeStep (s := s) h.nonempty
  refine ⟨k, n, frames, ?_⟩
  simp only [step, lineStep, hs, hframes, h.continues, hline, hcomment, hgap, hcut,
    Bool.false_eq_true, if_false]

/-- What is done before the first line of code. -/
inductive Preliminary (cs : List Char) : Action → Prop
  | skip (n : Nat) : Preliminary cs (.skip n)
  | pass (n : Nat) : Preliminary cs (.pass n)
  | lineStart {n : Nat} (opens : OpensLine (cs.drop n)) : Preliminary cs (.lineStart n)

theorem preliminary_step (hcs : cs ≠ []) (p : Position) :
    Preliminary cs (step (.initial p) cs) := by
  have heffect := effect_step (s := .initial p) hcs
  generalize step (.initial p) cs = a at heffect
  cases heffect with
  | skip pos fits => exact .skip _
  | pass pos fits => exact .pass _
  | cut inside => exact (inside.elim nofun (· rfl)).elim
  | lineStart between fits opens => exact .lineStart opens
  | lineEnd between => cases between
  | indent between => cases between
  | dedent between opened => exact absurd rfl opened

/-- Where a logical line begins, what came last does not matter. -/
theorem Cuts.of_opensLine (h : Cuts s q cs ts) (hopens : OpensLine cs) (hs : s.between = false)
    (hframes : s.frames = []) (anchor : Position) : Cuts { s with anchor := anchor } q cs ts := by
  cases h with
  | atEnd => exact absurd rfl hopens.nonempty
  | step hstep rest =>
    obtain ⟨k, n, frames, hcut⟩ := hopens.exists_cut hs hframes
    obtain rfl := hstep.trans hcut
    exact .step (s := { s with anchor := anchor }) hstep rest

/-- **Before the first line of code** it does not matter what came last. -/
theorem Cuts.initial (h : Cuts (.initial p) q cs ts) (p' : Position) :
    Cuts (.initial p') q cs ts := by
  generalize hs : Scan.initial p = s at h
  induction h with
  | atEnd s q =>
    subst hs
    exact .atEnd (.initial p') q
  | step hstep rest ih =>
    subst hs
    have hpreliminary := hstep ▸ preliminary_step (List.cons_ne_nil _ _) p
    cases hpreliminary with
    | skip n => exact .step (s := .initial p') hstep (ih rfl)
    | pass n => exact .step (s := .initial p') hstep rest
    | lineStart opens =>
      exact .step (s := .initial p') hstep (rest.of_opensLine opens rfl rfl p')

/-- What is done with one more blank in front. -/
def Action.further : Action → Action
  | skip n => skip (n + 1)
  | pass n => pass (n + 1)
  | lineStart n => lineStart (n + 1)
  | a => a

theorem step_initial_cons (hc : isGapOrLine c = true) (cs : List Char) (p : Position) :
    step (.initial p) (c :: cs) = (step (.initial p) cs).further := by
  have hgap : Text.runLength isGapOrLine (c :: cs) = Text.runLength isGapOrLine cs + 1 := by
    rw [Text.runLength, List.takeWhile_cons_of_pos hc]
    rfl
  show betweenStep (.initial p) (c :: cs) = (betweenStep (.initial p) cs).further
  unfold betweenStep
  simp only [Scan.initial, ne_eq, not_true_eq_false, decide_false, Bool.false_and,
    Bool.false_eq_true, if_false, hgap, List.drop_succ_cons]
  split
  · exact congrArg Action.skip (by omega)
  split
  · split
    · exact congrArg Action.pass (by omega)
    · rfl
  · rfl

/-- **Blanks before the first line of code** are no part of it. -/
theorem Cuts.initial_cons (hc : isGapOrLine c = true) (h : Cuts (.initial p) (q.next c) cs ts) :
    Cuts (.initial p) q (c :: cs) ts := by
  have hstep := step_initial_cons hc cs p
  rcases cs with _ | ⟨d, cs⟩
  · cases h
    exact .step (s := .initial p) hstep.symm (.atEnd (.initial p) (q.next c))
  · cases h with
    | @step _ _ _ _ a ts ha rest =>
      have hpreliminary := ha ▸ preliminary_step (List.cons_ne_nil d cs) p
      rw [← ha] at hstep
      cases hpreliminary with
      | skip n => exact .step (s := .initial p) hstep.symm rest
      | pass n => exact .step (s := .initial p) hstep.symm rest
      | lineStart opens => exact .step (s := .initial p) hstep.symm rest

theorem isGapOrLine_of_isPlain (h : isPlain c = true) : isGapOrLine c = true := by
  have hall : ∀ c ∈ [' ', '\t', '\n', '\r', '\x0c'], isGapOrLine c = true := by decide
  exact hall c (List.contains_iff_mem.mp h)

theorem Cuts.initial_append (h : Cuts (.initial p) (q.advance blanks) cs ts)
    (hplain : Plain blanks) : Cuts (.initial p) q (blanks ++ cs) ts := by
  induction blanks generalizing q with
  | nil => exact h
  | cons b blanks ih =>
    obtain ⟨hb, hblanks⟩ := hplain.of_cons
    exact (ih h hblanks).initial_cons (isGapOrLine_of_isPlain hb)

/-- **Blanks in front of a text** have no tokens in them. -/
theorem tokens_plain_append (p : Position) (h : Plain blanks) (cs : List Char) :
    tokens p (blanks ++ cs) = tokens (p.advance blanks) cs :=
  (cuts_tokens p _).unique (((cuts_tokens _ cs).initial p).initial_append h)

/-! ### Blanks behind a text -/

theorem lookAhead_blanks (h : Plain blanks) (comment : Option Nat) (width : Nat) (inside : Bool) :
    lookAhead comment width inside blanks = (comment, 0) := by
  induction blanks generalizing width inside with
  | nil => rw [lookAhead]
  | cons b blanks ih =>
    obtain ⟨hb, hblanks⟩ := h.of_cons
    have hall : ∀ b ∈ [' ', '\t', '\n', '\r', '\x0c'],
        (b == '\n' || b == '\r' || b == '\x0c') = true ∨
        (b == ' ') = true ∨ (b == '\t') = true := by decide
    have ih := ih hblanks
    rw [lookAhead.eq_def]
    dsimp only
    cases inside
    · rw [if_neg Bool.false_ne_true]
      rcases hall b (List.contains_iff_mem.mp hb) with h | h | h
      · rw [if_pos h, ih]
      · split <;> exact ih _ _
      · repeat' split
        all_goals exact ih _ _
    · rw [if_pos rfl, ih, ih, ite_self]

/-- **What comes next on the lines ahead** does not depend on the blanks behind the text. -/
theorem lookAhead_append (h : Closed .python cs blanks) (comment : Option Nat) (width : Nat)
    (inside : Bool) :
    lookAhead comment width inside (cs ++ blanks) = lookAhead comment width inside cs := by
  rcases blanks with _ | ⟨b, blanks⟩
  · rw [List.append_nil]
  induction hn : cs.length using Nat.strong_induction_on generalizing cs comment width inside with
  | _ n ih =>
    have hless : ∀ {rest : List Char}, Closed .python rest (b :: blanks) → rest.length < n →
        ∀ comment width inside, lookAhead comment width inside (rest ++ b :: blanks) =
          lookAhead comment width inside rest :=
      fun hrest hlt comment width inside => ih _ hlt comment width inside hrest rfl
    -- A backslash may take two characters more.
    rcases cs with _ | ⟨c, _ | ⟨d, _ | ⟨e, rest⟩⟩⟩
    · rw [List.nil_append, lookAhead_blanks h.plain, lookAhead]
    · have hnil := hless h.of_cons (by rw [← hn]; simp)
      rw [lookAhead.eq_def, lookAhead.eq_def _ _ _ [c]]
      simp only [List.cons_append, List.nil_append] at hnil ⊢
      simp only [hnil, h.slash_ne, Bool.false_eq_true, if_false]
    · have hone := hless h.of_cons (by rw [← hn]; simp)
      have hnil := hless h.of_cons.of_cons (by rw [← hn]; simp)
      rw [lookAhead.eq_def, lookAhead.eq_def _ _ _ [c, d]]
      simp only [List.cons_append, List.nil_append] at hone hnil ⊢
      simp only [hone, hnil, h.of_cons.return_ne, Bool.false_and, Bool.false_eq_true, if_false]
    · have hone := hless h.of_cons (by rw [← hn]; simp)
      have htwo := hless h.of_cons.of_cons (by rw [← hn]; simp)
      have hthree := hless h.of_cons.of_cons.of_cons
        (by rw [← hn]; simp only [List.length_cons]; omega)
      rw [lookAhead.eq_def, lookAhead.eq_def _ _ _ (c :: d :: e :: rest)]
      simp only [List.cons_append] at hone htwo hthree ⊢
      simp only [hone, htwo, hthree]

theorem continuation?_append (h : Closed .python cs blanks) :
    continuation? (cs ++ blanks) = continuation? cs := by
  have hplain := h.plain
  rcases cs with _ | ⟨c, _ | ⟨d, rest⟩⟩
  · rcases blanks with _ | ⟨b, _ | ⟨b', blanks⟩⟩
    · rfl
    · rfl
    · have hb : (b == '\\') = false := (solid_beq (by decide)) b hplain.of_cons.1
      simp only [List.nil_append, continuation?, hb, Bool.false_and, Bool.false_eq_true, if_false]
  · rcases blanks with _ | ⟨b, blanks⟩
    · rfl
    · simp only [List.singleton_append, continuation?, h.slash_ne, Bool.false_and,
        Bool.false_eq_true, if_false]
  · rcases rest with _ | ⟨e, rest⟩
    · simp only [List.cons_append, List.nil_append, continuation?, h.of_cons.return_ne,
        Bool.and_false, Bool.false_and]
    · rfl

theorem textStep_append {quote : Char} {triple formatted : Bool}
    (h : Closed .python (c :: cs) blanks) (hquote : isPlain quote = false) :
    textStep s (c :: cs ++ blanks) outer quote triple formatted =
      textStep s (c :: cs) outer quote triple formatted := by
  have hplain := h.plain
  have hclosing : ∀ d ∈ closing quote triple, isPlain d = false := by
    cases triple <;> simp [closing, hquote]
  have hopen := hplain.any_head? (solid_beq (by decide : isPlain '\x7b' = false))
  have hclose := hplain.any_head? (solid_beq (by decide : isPlain '\x7d' = false))
  unfold textStep
  rw [startsWith_blanks hplain hclosing]
  rcases cs with _ | ⟨d, _ | ⟨e, rest⟩⟩
  · simp only [List.cons_append, hopen, hclose, h.slash_ne, Bool.false_eq_true, if_false]
  · simp only [List.cons_append, List.nil_append, h.of_cons.return_ne, Bool.false_and,
      List.head?_cons]
    rfl
  · rfl

theorem markStep_append (h : Plain blanks) :
    markStep s (c :: cs ++ blanks) = markStep s (c :: cs) := by
  have hletter := h.any_head? (by decide : Solid fun d => 'a' ≤ d && d ≤ 'z') cs
  have hmark := (confined_markLength? solid_marks).same h (c :: cs)
  rw [List.cons_append] at hmark ⊢
  simp only [markStep, hletter, hmark]

theorem opening?_append (h : Plain blanks) (cs : List Char) :
    opening? (cs ++ blanks) = opening? cs := by
  have hrun : Confined (Text.runLength isStringLetter) := confined_runLength (by decide)
  unfold opening?
  dsimp only
  rw [hrun.same h, List.take_append_of_le_length (hrun.fits cs),
    List.drop_append_of_le_length (hrun.fits cs)]
  rcases cs.drop (Text.runLength isStringLetter cs) with _ | ⟨q, rest⟩
  · rcases blanks with _ | ⟨b, blanks⟩
    · rfl
    · have hb : isQuote b = false := (by decide : Solid isQuote) b h.of_cons.1
      simp only [List.nil_append, hb, Bool.false_eq_true, if_false]
  · rw [List.cons_append]
    dsimp only
    split
    · next hq =>
      have hsolid : ∀ d ∈ [q, q], isPlain d = false := by simp [isPlain_of_isQuote hq]
      rw [startsWith_blanks h hsolid]
    · rfl

theorem codeStep_append (h : Plain blanks) :
    codeStep s (c :: cs ++ blanks) = codeStep s (c :: cs) := by
  have hword : Confined (Text.runLength Text.isIdContinue) := confined_runLength (by decide)
  have hfits : 1 + Text.runLength Text.isIdContinue cs ≤ (c :: cs).length := by
    have := hword.fits cs
    rw [List.length_cons]
    omega
  have hdigit := h.any_head? (by decide : Solid Text.isAsciiDigit) cs
  have htake : (c :: cs ++ blanks).take (1 + Text.runLength Text.isIdContinue cs) =
      (c :: cs).take (1 + Text.runLength Text.isIdContinue cs) :=
    List.take_append_of_le_length hfits
  have hnumber := confined_numberLength.same h (c :: cs)
  have hmark : markStep s (c :: cs ++ blanks) = markStep s (c :: cs) := markStep_append h
  unfold codeStep
  rw [opening?_append h]
  simp only [List.cons_append] at htake hnumber hmark ⊢
  simp only [hword.same h, hdigit, htake, hnumber, hmark]

theorem endLine_append (h : Closed .python cs blanks) :
    endLine s (cs ++ blanks) = endLine s cs := by
  rw [endLine, endLine, lookAhead_append h]

theorem lineStep_append (h : Closed .python (c :: cs) blanks) :
    lineStep s (c :: cs ++ blanks) = lineStep s (c :: cs) := by
  have hcontinues := continuation?_append h
  have hend := endLine_append (s := s) h
  have hcode : codeStep s (c :: cs ++ blanks) = codeStep s (c :: cs) := codeStep_append h.plain
  have hcomment : c = '#' → restOfLine (cs ++ blanks) = restOfLine cs := fun hc =>
    (show Closed .python (['#'] ++ cs) blanks from hc ▸ h).restOfLine List.mem_cons_self
  unfold lineStep
  rw [hcontinues]
  split
  · rfl
  simp only [List.cons_append] at hend hcode ⊢
  rw [hend, hcode]
  split
  · rfl
  · split
    · next hc => rw [hcomment (beq_iff_eq.mp hc)]
    · rfl

/-- Between two lines, blanks behind a text of gaps are taken with them. -/
theorem betweenStep_append (h : Closed .python cs blanks) :
    betweenStep s (cs ++ blanks) = betweenStep s cs ∨
      betweenStep s (cs ++ blanks) = .skip (cs ++ blanks).length ∧
        betweenStep s cs = .skip cs.length := by
  unfold betweenStep
  rw [lookAhead_append h]
  dsimp only
  split
  · exact Or.inl rfl
  have hfits := Text.runLength_le isGapOrLine cs
  rcases hfits.lt_or_eq with hlt | hall
  · -- The gap ends in the text, and what stands there decides.
    left
    rw [Text.runLength_append_of_lt hlt, List.drop_append_of_le_length hfits]
    have hrest := h.drop (Text.runLength isGapOrLine cs)
    rw [continuation?_append hrest]
    split
    · rfl
    rcases hdrop : cs.drop (Text.runLength isGapOrLine cs) with _ | ⟨c, rest⟩
    · have hlength := congrArg List.length hdrop
      rw [List.length_drop, List.length_nil] at hlength
      omega
    · rw [List.cons_append]
      dsimp only
      split
      · next hc =>
        rw [hdrop, beq_iff_eq.mp hc] at hrest
        have hline : restOfLine (rest ++ blanks) = restOfLine rest :=
          (show Closed .python (['#'] ++ rest) blanks from hrest).restOfLine List.mem_cons_self
        rw [hline]
      · rfl
  · -- The text is all gap, and so are the blanks.
    right
    have hgap : ∀ d ∈ cs ++ blanks, isGapOrLine d = true := by
      refine List.forall_mem_append.mpr ⟨?_, fun b hb => isGapOrLine_of_isPlain (h.plain b hb)⟩
      exact List.takeWhile_eq_self_iff.mp ((List.takeWhile_prefix _).eq_of_length hall)
    rw [Text.runLength_of_forall hgap, hall, List.drop_length, List.drop_length]
    exact ⟨rfl, rfl⟩

/-- **What one step does is not changed by the blanks behind a text**, unless the text ends in gaps
between two lines. -/
theorem step_append (hs : s.Sound) (h : Closed .python (c :: cs) blanks) :
    step s (c :: cs ++ blanks) = step s (c :: cs) ∨
      step s (c :: cs ++ blanks) = .skip (c :: cs ++ blanks).length ∧
        step s (c :: cs) = .skip (c :: cs).length := by
  unfold step
  split
  · next quote triple formatted outer hframes =>
    have hsolid : (Frame.text quote triple formatted).Solid :=
      hs.frames _ (hframes ▸ List.mem_cons_self)
    exact Or.inl (textStep_append h hsolid)
  · exact Or.inl rfl
  · exact Or.inl rfl
  · split
    · exact betweenStep_append h
    · exact Or.inl (lineStep_append h)

/-- What is left of a string that does not end before the blanks. -/
theorem textStep_blanks {quote : Char} {triple formatted : Bool} (h : Plain (c :: cs))
    (hquote : isPlain quote = false) :
    textStep s (c :: cs) outer quote triple formatted = .skip 1 ∨
      textStep s (c :: cs) outer quote triple formatted = .cut .stray 1 outer := by
  have hclosing : ∀ d ∈ closing quote triple, isPlain d = false := by
    cases triple <;> simp [closing, hquote]
  have hstarts : Text.startsWith (closing quote triple) (c :: cs) = false := by
    rw [← List.nil_append (c :: cs), startsWith_blanks h hclosing]
    cases triple <;> rfl
  have hslash : (c == '\\') = false := (solid_beq (by decide)) c h.of_cons.1
  have hopen : (c == '\x7b') = false := (solid_beq (by decide)) c h.of_cons.1
  have hclose : (c == '\x7d') = false := (solid_beq (by decide)) c h.of_cons.1
  simp only [textStep, hstarts, hslash, hopen, hclose, Bool.and_false, Bool.false_eq_true, if_false]
  split
  · exact Or.inr rfl
  · exact Or.inl rfl

theorem layoutStep_blanks (h : Plain (c :: cs)) : layoutStep s (c :: cs) outer = .skip 1 := by
  have hopen : (c == '\x7b') = false := (solid_beq (by decide)) c h.of_cons.1
  have hclose : (c == '\x7d') = false := (solid_beq (by decide)) c h.of_cons.1
  simp only [layoutStep, hopen, hclose, Bool.false_eq_true, if_false]

theorem continuation?_blanks (h : Plain cs) : continuation? cs = none := by
  rcases cs with _ | ⟨c, _ | ⟨d, cs⟩⟩
  · rfl
  · rfl
  · have hslash : (c == '\\') = false := (solid_beq (by decide)) c h.of_cons.1
    simp only [continuation?, hslash, Bool.false_and, Bool.false_eq_true, if_false]

/-- **What a step does in the blanks behind a text.** -/
inductive Concluding (s : Scan) : Action → Prop
  | skip (n : Nat) : Concluding s (.skip n)
  | stray (n : Nat) (frames : List Frame) : Concluding s (.cut .stray n frames)
  | lineEnd (between : s.between = false) (hframes : s.frames = []) : Concluding s .lineEnd
  | dedent (between : s.between = true) (hframes : s.frames = []) (opened : s.indents ≠ []) :
      Concluding s .dedent

theorem concluding_betweenStep (h : Plain cs) (hs : s.between = true) (hframes : s.frames = []) :
    Concluding s (betweenStep s cs) := by
  have hgap : ∀ d ∈ cs, isGapOrLine d = true := fun d hd => isGapOrLine_of_isPlain (h d hd)
  unfold betweenStep
  rw [lookAhead_blanks h, Text.runLength_of_forall hgap]
  dsimp only
  rw [List.drop_length]
  split
  · next hcloses =>
    have hopened := (Bool.and_eq_true_iff.mp (Bool.and_eq_true_iff.mp hcloses).1).1
    exact .dedent hs hframes (of_decide_eq_true hopened)
  · exact .skip _

theorem concluding_lineStep (h : Plain (c :: cs)) (hs : s.between = false) :
    Concluding s (lineStep s (c :: cs)) := by
  have hcomment : (c == '#') = false := (solid_beq (by decide)) c h.of_cons.1
  unfold lineStep
  rw [continuation?_blanks h]
  dsimp only
  split
  · split
    · exact .skip 1
    · next hframes =>
      rw [endLine, lookAhead_blanks h]
      dsimp only
      rw [decide_eq_false (Nat.not_lt_zero _), Bool.and_false, if_neg Bool.false_ne_true]
      exact .lineEnd hs (by simpa [Scan.inBracket] using hframes)
  · next hline =>
    have hgap := isGapOrLine_of_isPlain h.of_cons.1
    rw [isGapOrLine, Bool.eq_false_iff.mpr hline, Bool.or_false] at hgap
    rw [hcomment, if_neg Bool.false_ne_true, if_pos hgap]
    exact .skip 1

theorem concluding_step (hs : s.Sound) (h : Plain (c :: cs)) :
    Concluding s (step s (c :: cs)) := by
  unfold step
  split
  · next quote triple formatted outer hframes =>
    have hsolid : (Frame.text quote triple formatted).Solid :=
      hs.frames _ (hframes ▸ List.mem_cons_self)
    have hstep : textStep s (c :: cs) outer quote triple formatted = .skip 1 ∨
        textStep s (c :: cs) outer quote triple formatted = .cut .stray 1 outer :=
      textStep_blanks h hsolid
    rcases hstep with hstep | hstep
    · rw [hstep]
      exact .skip 1
    · rw [hstep]
      exact .stray 1 outer
  · rw [layoutStep_blanks h]
    exact .skip 1
  · rw [layoutStep_blanks h]
    exact .skip 1
  · split
    · next hbetween => exact concluding_betweenStep h hbetween (hs.between hbetween)
    · next hbetween => exact concluding_lineStep h (Bool.eq_false_iff.mpr hbetween)

/-- What the end of a text brings does not depend on where it is, unless a string is open. -/
theorem atEnd_of_noStray (h : ∀ t ∈ atEnd s p, t.kind ≠ .stray) (p' : Position) :
    atEnd s p = atEnd s p' := by
  unfold atEnd at h ⊢
  split
  · rfl
  · next hframes => simp [hframes] at h
  · rfl

theorem Concluding.atEnd (h : Concluding s a) (hstray : ∀ t ∈ a.tokens s p cs, t.kind ≠ .stray)
    (p' : Position) : a.tokens s p cs ++ Python.atEnd (a.after s p cs) p' = Python.atEnd s p' := by
  cases h with
  | skip n => rfl
  | stray n frames => exact absurd rfl (hstray _ List.mem_cons_self)
  | lineEnd between hframes =>
    simp only [Action.tokens, Action.after, Python.atEnd, between, hframes]
    rfl
  | dedent between hframes opened =>
    obtain ⟨width, indents, hindents⟩ := List.exists_cons_of_ne_nil opened
    simp only [Action.tokens, Action.after, Python.atEnd, between, hframes, hindents]
    rfl

/-- **The blanks behind a text bring what its end brings.** -/
theorem Cuts.of_plain (h : Cuts s p cs ts) (hplain : Plain cs) (hs : s.Sound)
    (hstray : ∀ t ∈ ts, t.kind ≠ .stray) (p' : Position) : ts = Python.atEnd s p' := by
  induction h with
  | atEnd s p => exact atEnd_of_noStray hstray p'
  | @step s p c cs a ts ha _ ih =>
    obtain ⟨htokens, hrest⟩ := List.forall_mem_append.mp hstray
    have hconcluding : Concluding s a := ha ▸ concluding_step hs hplain
    have hsound := (ha ▸ effect_step (List.cons_ne_nil c cs) : Effect s _ a).sound hs p
    rw [ih (hplain.drop _) hsound hrest, hconcluding.atEnd htokens]

theorem Action.tokens_append (ha : a.taken ≤ cs.length) :
    a.tokens s p (cs ++ blanks) = a.tokens s p cs := by
  cases a with
  | cut k n frames =>
    rw [taken] at ha
    rw [tokens, tokens, List.take_append_of_le_length ha]
  | _ => rfl

theorem Action.after_append (ha : a.taken ≤ cs.length) :
    a.after s p (cs ++ blanks) = a.after s p cs := by
  cases a with
  | pass n =>
    rw [taken] at ha
    rw [after, after, List.take_append_of_le_length ha]
  | cut k n frames =>
    rw [taken] at ha
    rw [after, after, List.take_append_of_le_length ha]
  | _ => rfl

/-- **A text is cut alike without the blanks behind it.** -/
theorem Cuts.of_append (h : Cuts s p (cs ++ blanks) ts) (hclosed : Closed .python cs blanks)
    (hs : s.Sound) (hstray : ∀ t ∈ ts, t.kind ≠ .stray) : Cuts s p cs ts := by
  generalize hall : cs ++ blanks = all at h
  induction h generalizing cs with
  | atEnd s p =>
    obtain ⟨rfl, -⟩ := List.append_eq_nil_iff.mp hall
    exact .atEnd s p
  | @step s p c all a ts ha rest ih =>
    -- Of the blanks alone nothing is cut but what ends the text.
    rcases cs with _ | ⟨d, cs⟩
    · rw [List.nil_append] at hall
      have hend := (Cuts.step ha rest).of_plain (hall ▸ hclosed.plain) hs hstray p
      rw [hend]
      exact .atEnd s p
    rw [List.cons_append] at hall
    obtain ⟨rfl, rfl⟩ := List.cons.inj hall
    obtain ⟨-, hrest⟩ := List.forall_mem_append.mp hstray
    rw [← List.cons_append] at ha rest ih ⊢
    rcases step_append hs hclosed with hstep | ⟨hskip, hskip'⟩
    · have heffect : Effect s (d :: cs) a :=
        (ha.trans hstep).symm ▸ effect_step (List.cons_ne_nil d cs)
      rw [a.tokens_append heffect.fits]
      refine .step (ha.trans hstep) ?_
      rw [a.after_append heffect.fits, List.take_append_of_le_length heffect.fits,
        List.drop_append_of_le_length heffect.fits] at ih
      exact ih (hclosed.drop _) (heffect.sound hs p) hrest rfl
    · -- All that is left are gaps between two lines.
      obtain rfl := ha.trans hskip
      rw [Action.taken, List.drop_length] at rest
      have hend : ts = Python.atEnd s (p.advance ((d :: cs).take (d :: cs).length)) :=
        rest.of_plain (fun _ h => absurd h List.not_mem_nil) hs hrest _
      rw [hend]
      refine .step hskip'.symm ?_
      rw [Action.taken, List.drop_length]
      exact .atEnd s _

/-- **Blanks behind a text** do not change its tokens, if all of them are tokens of the language. -/
theorem tokens_append (p : Position) (h : Closed .python cs blanks)
    (hstray : ∀ t ∈ tokens p (cs ++ blanks), t.kind ≠ .stray) :
    tokens p (cs ++ blanks) = tokens p cs :=
  ((cuts_tokens p _).of_append h (Scan.sound_initial p) hstray).unique (cuts_tokens p cs)

end Dossier.Lexicon.Python
