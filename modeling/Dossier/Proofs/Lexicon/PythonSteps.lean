import Dossier.Lexicon.Python
import Dossier.Proofs.Lexicon.Blanks

/-!
# What the steps over a Python text do

Whatever a step finds, it does one of six things (`Dossier.Lexicon.Python.Effect`): it goes over
characters without a token, with or without a comment, cuts a token out of them, begins a logical
line, ends one, or closes a block. That is all that is needed to see that the steps end with the
text (`Dossier.Lexicon.Python.cuts_tokens`), that the frames and indentations are always such as
only steps can leave them, and that tokens stand at places of the text.

Each step leaves less to do: a step over characters takes some, and between two characters a line
ends and begins only once, and every block closes only once.
-/

namespace Dossier.Lexicon.Python

variable {s : Scan} {p : Position} {cs : List Char} {c : Char} {n : Nat} {k : TokenKind}
  {frames outer : List Frame} {a : Action}

/-! ### Effects -/

/-- Whether a frame is none of a string that is quoted with a blank. -/
def Frame.Solid : Frame → Prop
  | .text quote _ _ => isPlain quote = false
  | _ => True

/-- Whether a place is inside a logical line. -/
def Scan.Inside (s : Scan) : Prop :=
  s.between = false ∨ s.frames ≠ []

/-- Whether a logical line begins with what is no gap, no comment and no line that goes on. -/
structure OpensLine (cs : List Char) : Prop where
  nonempty : cs ≠ []
  gap : cs.head?.any isGapOrLine = false
  comment : cs.head? ≠ some '#'
  continues : continuation? cs = none

/-- **What a step can do** to a text that is not at its end. -/
inductive Effect (s : Scan) (cs : List Char) : Action → Prop
  | skip {n : Nat} (pos : 0 < n) (fits : n ≤ cs.length) : Effect s cs (.skip n)
  | pass {n : Nat} (pos : 0 < n) (fits : n ≤ cs.length) : Effect s cs (.pass n)
  | cut {k : TokenKind} {n : Nat} {frames : List Frame} (inside : s.Inside) (pos : 0 < n)
      (fits : n ≤ cs.length) (hframes : ∀ f ∈ frames, f ∈ s.frames ∨ f.Solid) :
      Effect s cs (.cut k n frames)
  | lineStart {n : Nat} (between : s.between = true) (fits : n ≤ cs.length)
      (opens : OpensLine (cs.drop n)) : Effect s cs (.lineStart n)
  | lineEnd (between : s.between = false) (hframes : s.frames = [])
      (line : cs.head? = some '\n') : Effect s cs .lineEnd
  | indent {width : Nat} (between : s.between = false) (hframes : s.frames = [])
      (line : cs.head? = some '\n') (pos : 0 < width) : Effect s cs (.indent width)
  | dedent (between : s.between = true) (opened : s.indents ≠ []) : Effect s cs .dedent

/-- A token that opens no frame and closes none. -/
theorem effect_cut (hs : s.Inside) (pos : 0 < n) (fits : n ≤ cs.length) :
    Effect s cs (.cut k n s.frames) :=
  .cut hs pos fits fun _ h => Or.inl h

/-- A token that opens a frame. -/
theorem effect_push {f : Frame} (hs : s.Inside) (hf : f.Solid) (pos : 0 < n)
    (fits : n ≤ cs.length) : Effect s cs (.cut k n (f :: s.frames)) :=
  .cut hs pos fits (List.forall_mem_cons.mpr ⟨Or.inr hf, fun _ h => Or.inl h⟩)

theorem length_pos_of_any_head? {q : Char → Bool} (h : cs.head?.any q = true) : 0 < cs.length := by
  rcases cs with _ | ⟨c, cs⟩
  · cases h
  · exact Nat.succ_pos _

theorem length_closing_pos (quote : Char) (triple : Bool) : 0 < (closing quote triple).length := by
  cases triple <;> exact Nat.succ_pos _

theorem effect_textStep {quote : Char} {triple formatted : Bool} (hcs : cs ≠ [])
    (hs : s.Inside) (houter : ∀ f ∈ outer, f ∈ s.frames) :
    Effect s cs (textStep s cs outer quote triple formatted) := by
  have hpop : ∀ f ∈ outer, f ∈ s.frames ∨ f.Solid := fun f hf => Or.inl (houter f hf)
  unfold textStep
  -- A text is closed, or goes on with an escape, a line, a bracket or any other character.
  split
  · next hclose =>
    exact .cut hs (length_closing_pos quote triple) (Text.length_le_of_startsWith hclose) hpop
  split
  · next c rest _ =>
    have htwo : ∀ {q : Char → Bool}, rest.head?.any q = true → 2 ≤ (c :: rest).length := fun h => by
      have hrest := length_pos_of_any_head? h
      rw [List.length_cons]
      omega
    split
    · split
      · next d more _ _ =>
        split
        · exact .skip (by simp) (by simp)
        split
        · next hline =>
          have hmore := length_pos_of_any_head? (Bool.and_eq_true_iff.mp hline).2
          refine .skip (by simp) ?_
          rw [List.length_cons, List.length_cons]
          omega
        · exact .skip (by simp) (by simp)
      · exact .skip (by simp) (by simp)
    split
    · exact .cut hs (by simp) (by simp) hpop
    split
    · split
      · next hnext => exact .skip (by simp) (htwo hnext)
      · exact effect_push hs trivial (by simp) (by simp)
    split
    · split
      · next hnext => exact .skip (by simp) (htwo hnext)
      · exact effect_cut hs (by simp) (by simp)
    · exact .skip (by simp) (by simp)
  · exact absurd rfl hcs

theorem effect_layoutStep (hcs : cs ≠ []) (hs : s.Inside) (houter : ∀ f ∈ outer, f ∈ s.frames) :
    Effect s cs (layoutStep s cs outer) := by
  unfold layoutStep
  split
  · split
    · exact effect_push hs trivial (by simp) (by simp)
    split
    · exact .cut hs (by simp) (by simp) fun f hf => Or.inl (houter f hf)
    · exact .skip (by simp) (by simp)
  · exact absurd rfl hcs

theorem pos_of_markLength? (h : markLength? marks cs = some n) : 0 < n := by
  have hmarks : ∀ m ∈ marks, 0 < m.length := by decide
  obtain ⟨m, hm, rfl⟩ := Option.map_eq_some_iff.mp h
  exact hmarks m (List.mem_of_find?_eq_some hm)

theorem solid_marks : ∀ m ∈ marks, ∀ c ∈ m, isPlain c = false := by
  decide

theorem effect_markStep (hcs : cs ≠ []) (hs : s.Inside) : Effect s cs (markStep s cs) := by
  have hpop : ∀ f ∈ s.frames.tail, f ∈ s.frames ∨ f.Solid := fun f hf =>
    Or.inl (List.mem_of_mem_tail hf)
  unfold markStep
  dsimp only
  split
  · next c rest _ =>
    split
    · exact .cut hs (by simp) (by simp) hpop
    split
    · exact effect_push hs trivial (by simp) (by simp)
    split
    · next hletter =>
      have hrest := length_pos_of_any_head? (Bool.and_eq_true_iff.mp hletter).2
      refine effect_cut hs (by simp) ?_
      rw [List.length_cons]
      omega
    split
    · next n hn =>
      have hpos := pos_of_markLength? hn
      have hfits := (confined_markLength? solid_marks).fits hn
      split
      · exact effect_push hs trivial hpos hfits
      split
      · exact .cut hs hpos hfits hpop
      · exact effect_cut hs hpos hfits
    · exact effect_cut hs (by simp) (by simp)
  · exact absurd rfl hcs

theorem isPlain_of_isQuote (h : isQuote c = true) : isPlain c = false := by
  simp only [isQuote, Bool.or_eq_true, beq_iff_eq] at h
  rcases h with (rfl | rfl) | h
  · decide
  · decide
  · have hgrave : c = Char.ofNat 0x60 := Char.toNat_inj.mp h
    rw [hgrave]
    decide

theorem solid_of_opening? {f : Frame} (h : opening? cs = some (n, f)) : f.Solid := by
  unfold opening? at h
  dsimp only at h
  split at h
  · next q rest _ =>
    split at h
    · next hq =>
      split at h
      · obtain ⟨-, rfl⟩ := Prod.mk.inj (Option.some.inj h)
        exact isPlain_of_isQuote hq
      · obtain ⟨-, rfl⟩ := Prod.mk.inj (Option.some.inj h)
        exact isPlain_of_isQuote hq
    · cases h
  · cases h

theorem length_opening? {f : Frame} (h : opening? cs = some (n, f)) : 0 < n ∧ n ≤ cs.length := by
  unfold opening? at h
  dsimp only at h
  split at h
  · next q rest heq =>
    have hlength := congrArg List.length heq
    rw [List.length_drop, List.length_cons] at hlength
    split at h
    · split at h
      · next hthree =>
        obtain ⟨rfl, -⟩ := Prod.mk.inj (Option.some.inj h)
        have hrest := Text.length_le_of_startsWith (Bool.and_eq_true_iff.mp hthree).1
        simp only [List.length_cons, List.length_nil] at hrest
        omega
      · obtain ⟨rfl, -⟩ := Prod.mk.inj (Option.some.inj h)
        omega
    · cases h
  · cases h

theorem decimalLength_pos (h : Text.isAsciiDigit c = true ∨ c = '.') :
    0 < decimalLength (c :: cs) := by
  have hnumber : 0 < followed (digitRun Text.isAsciiDigit) (fractionLength Text.isAsciiDigit)
      (c :: cs) := by
    by_cases hdigit : (Text.isAsciiDigit c || c == '_') = true
    · have hrun : digitRun Text.isAsciiDigit (c :: cs) = digitRun Text.isAsciiDigit cs + 1 := by
        simp [digitRun, Text.runLength, hdigit]
      rw [followed, hrun]
      omega
    · have hrun : digitRun Text.isAsciiDigit (c :: cs) = 0 := by
        simp [digitRun, Text.runLength, hdigit]
      obtain rfl : c = '.' := h.resolve_left fun hc => hdigit (by rw [hc, Bool.true_or])
      rw [followed, hrun, List.drop_zero, fractionLength]
      omega
  exact Nat.lt_of_lt_of_le hnumber (Nat.le_add_right _ _)

theorem numberLength_pos (h : Text.isAsciiDigit c = true ∨ c = '.') :
    0 < numberLength (c :: cs) := by
  have hopen : 0 < openNumber (c :: cs) := by
    have hdecimal : 0 < decimalLength (c :: cs) := decimalLength_pos h
    unfold openNumber
    split
    · split
      · omega
      split
      · omega
      · exact hdecimal
    · exact hdecimal
  exact Nat.lt_of_lt_of_le hopen (Nat.le_add_right _ _)

theorem confined_openNumber : Confined openNumber := by
  have hhex : Confined (digitRun isHexDigit) := confined_digitRun (by decide)
  have hdigits : Confined (digitRun Text.isAsciiDigit) := confined_digitRun (by decide)
  constructor
  · intro blanks h cs
    have hdecimal := confined_decimalLength.same h cs
    unfold openNumber
    split
    · next x rest heq =>
      rcases h.eq_cons_append (by decide) heq with ⟨rfl, hx⟩ | ⟨rest, rfl, rfl⟩
      · -- What follows is a blank, and no letter of a base.
        have hhexLetter : (x == 'x' || x == 'X') = false :=
          (by decide : Solid fun x => x == 'x' || x == 'X') x hx
        have hletter : (x == 'o' || x == 'O' || x == 'b' || x == 'B') = false :=
          (by decide : Solid fun x => x == 'o' || x == 'O' || x == 'b' || x == 'B') x hx
        rw [hhexLetter, hletter, if_neg Bool.false_ne_true, if_neg Bool.false_ne_true, hdecimal]
        rfl
      · dsimp only [List.cons_append] at hdecimal ⊢
        rw [hhex.same h, hdigits.same h, hdecimal]
        rfl
    · next hno =>
      split
      · exact absurd rfl (hno _ _)
      · exact hdecimal
  · intro cs
    have hdecimal := confined_decimalLength.fits cs
    unfold openNumber
    split
    · next x rest =>
      have hhexFits := hhex.fits rest
      have hdigitFits := hdigits.fits rest
      rw [List.length_cons, List.length_cons]
      split
      · omega
      split
      · omega
      · exact hdecimal
    · exact hdecimal

theorem confined_numberLength : Confined numberLength :=
  confined_openNumber.followed (confined_letterLength (by decide))

theorem effect_codeStep (hcs : cs ≠ []) (hs : s.Inside) : Effect s cs (codeStep s cs) := by
  unfold codeStep
  split
  · next n f hopening =>
    obtain ⟨hpos, hfits⟩ := length_opening? hopening
    exact effect_push hs (solid_of_opening? hopening) hpos hfits
  split
  · next c rest _ =>
    split
    · have hrun := Text.runLength_le Text.isIdContinue rest
      refine effect_cut hs (by omega) ?_
      rw [List.length_cons]
      omega
    split
    · next hnumber =>
      refine effect_cut hs (numberLength_pos ?_) (confined_numberLength.fits _)
      rcases Bool.or_eq_true_iff.mp hnumber with h | h
      · exact Or.inl h
      · exact Or.inr (beq_iff_eq.mp (Bool.and_eq_true_iff.mp h).1)
    · exact effect_markStep hcs hs
  · exact absurd rfl hcs

theorem effect_endLine (hs : s.between = false) (hframes : s.frames = [])
    (hline : cs.head? = some '\n') : Effect s cs (endLine s cs) := by
  unfold endLine
  dsimp only
  split
  · next hopens =>
    have hdepth := of_decide_eq_true (Bool.and_eq_true_iff.mp hopens).2
    exact .indent hs hframes hline (by omega)
  · exact .lineEnd hs hframes hline

/-- A line that goes on, at the head of a text. -/
theorem length_continuation? (h : continuation? cs = some n) : 0 < n ∧ n ≤ cs.length := by
  unfold continuation? at h
  split at h
  · next c d rest =>
    split at h
    · obtain rfl := Option.some.inj h
      simp
    split at h
    · next hline =>
      obtain rfl := Option.some.inj h
      have hrest := length_pos_of_any_head? (Bool.and_eq_true_iff.mp hline).2
      rw [List.length_cons, List.length_cons]
      omega
    · cases h
  · cases h

theorem effect_betweenStep (hcs : cs ≠ []) (hs : s.between = true) :
    Effect s cs (betweenStep s cs) := by
  have hlength := List.length_drop (l := cs) (i := Text.runLength isGapOrLine cs)
  have hgap := Text.runLength_le isGapOrLine cs
  have hpos := List.length_pos_iff.mpr hcs
  unfold betweenStep
  dsimp only
  -- A deeper indentation is closed first; then come continuations, comments and the next line.
  split
  · next hcloses =>
    have hopened := (Bool.and_eq_true_iff.mp (Bool.and_eq_true_iff.mp hcloses).1).1
    exact .dedent hs (of_decide_eq_true hopened)
  split
  · next n hn =>
    obtain ⟨hn, hfits⟩ := length_continuation? hn
    exact .skip (by omega) (by omega)
  split
  · next c rest heq =>
    rw [heq, List.length_cons] at hlength
    split
    · have hline := restOfLine_le rest
      exact .pass (by omega) (by omega)
    · next hcontinues _ hcomment =>
      rw [beq_iff_eq] at hcomment
      refine .lineStart hs hgap ⟨by simp [heq], Text.any_head?_drop_runLength _ cs, ?_, hcontinues⟩
      rw [heq, List.head?_cons]
      exact fun h => hcomment (Option.some.inj h)
  · next heq =>
    rw [heq, List.length_nil] at hlength
    exact .skip (by omega) hgap

theorem effect_lineStep (hcs : cs ≠ []) (hs : s.between = false) :
    Effect s cs (lineStep s cs) := by
  unfold lineStep
  split
  · next n hn =>
    obtain ⟨hpos, hfits⟩ := length_continuation? hn
    exact .skip hpos hfits
  split
  · next c rest _ =>
    split
    · next hline =>
      split
      · exact .skip (by simp) (by simp)
      · next hframes =>
        refine effect_endLine hs (by simpa [Scan.inBracket] using hframes) ?_
        rw [beq_iff_eq.mp hline, List.head?_cons]
    split
    · have hline := restOfLine_le rest
      refine .pass (by omega) ?_
      rw [List.length_cons]
      omega
    split
    · exact .skip (by simp) (by simp)
    · exact effect_codeStep hcs (Or.inl hs)
  · exact absurd rfl hcs

/-- **What one step does.** -/
theorem effect_step (hcs : cs ≠ []) : Effect s cs (step s cs) := by
  unfold step
  split
  · next outer hs =>
    exact effect_textStep hcs (Or.inr (by simp [hs])) fun f hf => hs ▸ List.mem_cons_of_mem _ hf
  · next outer hs =>
    exact effect_layoutStep hcs (Or.inr (by simp [hs])) fun f hf =>
      hs ▸ List.mem_cons_of_mem _ (List.mem_cons_of_mem _ hf)
  · next outer _ hs =>
    exact effect_layoutStep hcs (Or.inr (by simp [hs])) fun f hf =>
      hs ▸ List.mem_cons_of_mem _ hf
  split
  · next hbetween => exact effect_betweenStep hcs hbetween
  · next hbetween => exact effect_lineStep hcs (Bool.eq_false_iff.mpr hbetween)

theorem Effect.fits (h : Effect s cs a) : a.taken ≤ cs.length := by
  cases h with
  | skip pos fits => exact fits
  | pass pos fits => exact fits
  | cut inside pos fits => exact fits
  | lineStart between fits opens => exact fits
  | lineEnd | indent | dedent => exact Nat.zero_le _

/-! ### Runs -/

/-- **The tokens of a text from a place on**, however many steps it takes to cut them. -/
inductive Cuts : Scan → Position → List Char → List Token → Prop
  | atEnd (s : Scan) (p : Position) : Cuts s p [] (atEnd s p)
  | step {s : Scan} {p : Position} {c : Char} {cs : List Char} {a : Action} {ts : List Token}
      (h : a = step s (c :: cs))
      (rest : Cuts (a.after s p (c :: cs)) (p.advance ((c :: cs).take a.taken))
        ((c :: cs).drop a.taken) ts) :
      Cuts s p (c :: cs) (a.tokens s p (c :: cs) ++ ts)

/-- The same text is not cut in two ways. -/
theorem Cuts.unique {ts ts' : List Token} (h : Cuts s p cs ts) (h' : Cuts s p cs ts') :
    ts = ts' := by
  induction h generalizing ts' with
  | atEnd s p =>
    cases h'
    rfl
  | step h _ ih =>
    cases h' with
    | step h' rest =>
      obtain rfl := h.trans h'.symm
      rw [ih rest]

/-- What is still to do: four for each character, and what can be done between two characters. A
line that has ended begins anew at the next character that is no gap, which may be the one at hand.
-/
def Scan.work (s : Scan) (cs : List Char) : Nat :=
  4 * cs.length + s.indents.length +
    if s.between then if cs.head?.any isGapOrLine then 0 else 3 else 2

theorem Scan.work_lt (s : Scan) (cs : List Char) :
    s.work cs < 4 * cs.length + s.indents.length + 4 := by
  unfold Scan.work
  split
  · split <;> omega
  · omega

theorem Scan.le_work (s : Scan) (cs : List Char) :
    4 * cs.length + s.indents.length ≤ s.work cs :=
  Nat.le_add_right _ _

/-- **Every step leaves less to do.** -/
theorem Effect.work_lt (h : Effect s cs a) (p : Position) :
    (a.after s p cs).work (cs.drop a.taken) < s.work cs := by
  have hless : ∀ {n : Nat} {s' : Scan}, 0 < n → n ≤ cs.length → s'.indents = s.indents →
      s'.work (cs.drop n) < s.work cs := by
    intro n s' pos fits hindents
    have hafter := s'.work_lt (cs.drop n)
    have hbefore := s.le_work cs
    rw [List.length_drop, hindents] at hafter
    omega
  have hgap : isGapOrLine '\n' = true := by decide
  -- Only the starts of lines and what is indented take nothing; they are counted apart.
  cases h with
  | skip pos fits => exact hless pos fits rfl
  | pass pos fits => exact hless pos fits rfl
  | cut inside pos fits => exact hless pos fits rfl
  | @lineStart n between fits opens =>
    rcases Nat.eq_zero_or_pos n with rfl | pos
    · have hhead := opens.gap
      rw [List.drop_zero] at hhead
      simp [Action.after, Action.taken, Scan.work, between, hhead]
    · exact hless pos fits rfl
  | lineEnd between hframes line =>
    simp [Action.after, Action.taken, Scan.work, between, line, hgap]
  | indent between hframes line pos =>
    simp [Action.after, Action.taken, Scan.work, between, line, hgap]
    omega
  | dedent between opened =>
    have hpos := List.length_pos_iff.mpr opened
    simp only [Action.after, Action.taken, Scan.work, List.drop_zero, List.length_tail]
    omega

/-- Steps enough cut the whole text. -/
theorem cuts_tokensFrom (h : s.work cs < n) : Cuts s p cs (tokensFrom n s p cs) := by
  induction n generalizing s p cs with
  | zero => exact absurd h (Nat.not_lt_zero _)
  | succ n ih =>
    rcases cs with _ | ⟨c, cs⟩
    · exact .atEnd s p
    · have hless := (effect_step (s := s) (List.cons_ne_nil c cs)).work_lt p
      exact .step rfl (ih (by omega))

/-- **The tokens of a text** are those that its steps cut. -/
theorem cuts_tokens (p : Position) (cs : List Char) :
    Cuts (.initial p) p cs (tokens p cs) :=
  cuts_tokensFrom (Scan.work_lt _ _)

/-! ### What steps keep -/

/-- **What holds of all that is known at a place of a text**: blocks are indented, frames are open
only inside a logical line, and strings are quoted with no blank. -/
structure Scan.Sound (s : Scan) : Prop where
  indents : ∀ width ∈ s.indents, 0 < width
  between : s.between = true → s.frames = []
  frames : ∀ f ∈ s.frames, f.Solid

theorem Scan.sound_initial (anchor : Position) : (Scan.initial anchor).Sound where
  indents _ h := absurd h List.not_mem_nil
  between _ := rfl
  frames _ h := absurd h List.not_mem_nil

/-- **A step keeps it.** -/
theorem Effect.sound (h : Effect s cs a) (hs : s.Sound) (p : Position) :
    (a.after s p cs).Sound := by
  cases h with
  | skip pos fits => exact hs
  | pass pos fits => exact ⟨hs.indents, hs.between, hs.frames⟩
  | cut inside pos fits hframes =>
    have hcode : s.between = true → False := fun hbetween =>
      inside.elim (fun h => by rw [h] at hbetween; cases hbetween) (· (hs.between hbetween))
    exact ⟨hs.indents, fun h => (hcode h).elim, fun f hf => (hframes f hf).elim (hs.frames f) id⟩
  | lineStart between fits opens => exact ⟨hs.indents, nofun, hs.frames⟩
  | lineEnd between hframes line => exact ⟨hs.indents, fun _ => hframes, hs.frames⟩
  | indent between hframes line pos =>
    exact ⟨List.forall_mem_cons.mpr ⟨pos, hs.indents⟩, fun _ => hframes, hs.frames⟩
  | dedent between opened =>
    exact ⟨fun width h => hs.indents width (List.mem_of_mem_tail h), hs.between, hs.frames⟩

/-! ### Where tokens stand -/

variable {start : Position} {read rest : List Char}

/-- A token of no width stands at one place. -/
theorem Token.within_widthless {P : Position → Prop} (h : P s.anchor) :
    (s.widthless k).Within P where
  start := h
  stop := h
  inside pre hpre := by
    obtain rfl : pre = [] := List.prefix_nil.mp hpre
    exact h

/-- **What a step cuts stands at places of the text**, and so does what came last. -/
theorem Action.within (a : Action) (hcs : cs = read ++ rest) (hs : start.Of cs s.anchor) :
    (∀ t ∈ a.tokens s (start.advance read) rest, t.Within (start.Of cs)) ∧
      start.Of cs (a.after s (start.advance read) rest).anchor := by
  have hread : ∀ n, start.Of cs ((start.advance read).advance (rest.take n)) := fun n =>
    ⟨read ++ rest.take n, by
      rw [hcs]
      exact (List.prefix_append_right_inj _).mpr (List.take_prefix n rest),
      (Position.advance_append _ _ _).symm⟩
  have hpiece : ∀ n, cs = read ++ rest.take n ++ rest.drop n := fun n => by
    rw [List.append_assoc, List.take_append_drop, hcs]
  cases a with
  | skip | lineStart => exact ⟨fun _ ht => absurd ht List.not_mem_nil, hs⟩
  | pass n => exact ⟨fun _ ht => absurd ht List.not_mem_nil, hread n⟩
  | cut k n frames =>
    exact ⟨List.forall_mem_singleton.mpr (Token.within_of_read (hpiece n) rfl rfl rfl), hread n⟩
  | lineEnd | indent | dedent =>
    exact ⟨List.forall_mem_singleton.mpr (Token.within_widthless hs), hs⟩

theorem within_atEnd {P : Position → Prop} (hs : P s.anchor) (hp : P p) :
    ∀ t ∈ atEnd s p, t.Within P := by
  unfold atEnd
  split
  · refine List.forall_mem_append.mpr ⟨?_, List.forall_mem_map.mpr fun _ _ =>
      Token.within_widthless hs⟩
    split
    · exact fun _ ht => absurd ht List.not_mem_nil
    · exact List.forall_mem_singleton.mpr (Token.within_widthless hs)
  · refine List.forall_mem_singleton.mpr ⟨hp, hp, fun pre hpre => ?_⟩
    obtain rfl : pre = [] := List.prefix_nil.mp hpre
    exact hp
  · exact fun _ ht => absurd ht List.not_mem_nil

theorem Cuts.within {ts : List Token} (h : Cuts s p rest ts) (hp : p = start.advance read)
    (hcs : cs = read ++ rest) (hs : start.Of cs s.anchor) : ∀ t ∈ ts, t.Within (start.Of cs) := by
  induction h generalizing read with
  | atEnd s p => exact within_atEnd hs ⟨read, hcs ▸ List.prefix_append _ _, hp⟩
  | @step s p c rest a ts _ _ ih =>
    subst hp
    obtain ⟨htokens, hafter⟩ := a.within hcs hs
    refine List.forall_mem_append.mpr
      ⟨htokens, ih (Position.advance_append start read _).symm ?_ hafter⟩
    rw [List.append_assoc, List.take_append_drop, hcs]

/-- **The tokens of a text** stand at places of the text. -/
theorem within_tokens (p : Position) (cs : List Char) : ∀ t ∈ tokens p cs, t.Within (p.Of cs) :=
  (cuts_tokens p cs).within (show p = p.advance [] from rfl) rfl ⟨[], List.nil_prefix, rfl⟩

end Dossier.Lexicon.Python
