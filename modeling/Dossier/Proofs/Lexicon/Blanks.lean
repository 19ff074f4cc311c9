import Dossier.Proofs.Lexicon.Confined
import Dossier.Proofs.Syntax.Behind
import Dossier.Proofs.Syntax.Places
import Dossier.Source.Language

/-!
# The blanks around a text

The blanks at the ends of a text have no tokens in them. Those behind the text do not change its
tokens, unless something that counts begins in the text and goes on in them
(`Dossier.Lexicon.Confines.tokens_append`): a comment to the end of a line does go on in them, and
in most languages that changes nothing. Those in front of it move the tokens, and nothing else:
a text that stands elsewhere has the same tokens elsewhere (`Dossier.Lexicon.tokens_behind`). And a
token of a text stands where its characters do (`Dossier.Lexicon.within_tokens`).
-/

namespace Dossier

/-- **The places of a text** that begins at a place. -/
def Position.Of (start : Position) (cs : List Char) (p : Position) : Prop :=
  ∃ read, read <+: cs ∧ p = start.advance read

/-- A token that is made of characters of a text stands at places of the text. -/
theorem Token.within_of_read {start : Position} {cs read piece rest : List Char} {t : Token}
    (h : cs = read ++ piece ++ rest) (hstart : t.start = start.advance read)
    (hstop : t.stop = t.start.advance piece) (htext : t.text = String.ofList piece) :
    t.Within (start.Of cs) where
  start := ⟨read, h ▸ List.append_assoc .. ▸ List.prefix_append _ _, hstart⟩
  stop := ⟨read ++ piece, h ▸ List.prefix_append _ _, by
    rw [hstop, hstart, Position.advance_append]⟩
  inside s hs := by
    rw [htext, String.toList_ofList] at hs
    refine ⟨read ++ s, ?_, by rw [hstart, Position.advance_append]⟩
    rw [h, List.append_assoc]
    exact (List.prefix_append_right_inj _).mpr (hs.trans (List.prefix_append _ _))

/-- Tokens that stand in a text stand at places of it. -/
theorem Token.Sequence.within {start : Position} {cs read : List Char} {ts : List Token}
    (h : Token.Sequence start cs read ts) : ∀ t ∈ ts, t.Within (start.Of cs) := by
  induction h with
  | nil => exact fun _ ht => absurd ht List.not_mem_nil
  | cons gap inText start_eq stop_eq _ ih =>
    obtain ⟨rest, hrest⟩ := inText
    exact List.forall_mem_cons.mpr
      ⟨Token.within_of_read hrest.symm start_eq stop_eq String.ofList_toList.symm, ih⟩

/-- The number of characters that a piece takes. -/
def Piece.length : Piece → Nat
  | .blank n => n
  | .token _ n => n

/-- **What the piece at the head of a text is with blanks behind the text**: the same piece, or, if
it is a comment up to the end of the text, one that goes on in the blanks. -/
inductive Piece.Goes (cs : List Char) (piece : Piece) : Piece → Prop
  | same : Goes cs piece piece
  | on (k : Nat) (comment : piece = .blank cs.length) : Goes cs piece (.blank (cs.length + k))

/-- **The openings of the comments that count**: a function of Python may end where its last comment
does, and a line of documentation is part of a program in Rust. -/
def Language.remarks : Language → List (List Char)
  | .python => [['#']]
  | .rust => [['/', '/', '/'], ['/', '/', '!']]
  | .go | .java => []

namespace Lexicon

/-- **Whether nothing that counts goes on in the blanks behind a text.** The text does not end with
a blank or, in Python, with a backslash, which joins a line to the next. And where a comment that
counts may stand in its last line, the blanks begin with the end of the line. -/
structure Closed (l : Language) (cs blanks : List Char) : Prop where
  plain : Plain blanks
  notBlank : ∀ c ∈ cs.getLast?, Text.isBlank c = false
  notSlash : l = .python → ∀ c ∈ cs.getLast?, c ≠ '\\'
  comment : ∀ before mark rest, cs = before ++ mark ++ rest → mark ∈ l.remarks → '\n' ∉ rest →
    ∀ b ∈ blanks.head?, b = '\n'

variable {l : Language} {cs rest blanks before mark : List Char} {start p q : Position}
  {lx : Lexicon}

theorem isBlank_of_isPlain {c : Char} (h : isPlain c = true) : Text.isBlank c = true := by
  have hall : ∀ c ∈ [' ', '\t', '\n', '\r', '\x0c'], Text.isBlank c = true := by decide
  exact hall c (List.contains_iff_mem.mp h)

/-! ### Comments to the end of a line -/

/-- A comment whose line ends in the text does not go on behind it. -/
theorem restOfLine_append_of_mem (h : '\n' ∈ rest) (blanks : List Char) :
    restOfLine (rest ++ blanks) = restOfLine rest := by
  refine Text.runLength_append_of_lt (Nat.lt_of_le_of_ne (Text.runLength_le _ _) fun hall => ?_) _
  have heq : rest.takeWhile (· != '\n') = rest := (List.takeWhile_prefix _).eq_of_length hall
  rw [← heq] at h
  simpa using List.mem_takeWhile_imp h

/-- A comment whose line does not end in the text goes on behind it. -/
theorem restOfLine_append_of_notMem (h : '\n' ∉ rest) (blanks : List Char) :
    restOfLine (rest ++ blanks) = rest.length + restOfLine blanks := by
  have hall : ∀ c ∈ rest, (c != '\n') = true := fun c hc =>
    bne_iff_ne.mpr fun heq => h (heq ▸ hc)
  rw [restOfLine, Text.runLength, List.takeWhile_append_of_pos hall, List.length_append]
  rfl

theorem restOfLine_of_notMem (h : '\n' ∉ rest) : restOfLine rest = rest.length := by
  have happend := restOfLine_append_of_notMem h []
  rwa [List.append_nil] at happend

/-- A comment ends with its line, or it takes the text to the end and goes on in what is behind. -/
theorem restOfLine_append (rest blanks : List Char) :
    restOfLine (rest ++ blanks) = restOfLine rest ∨
      ∃ k, restOfLine rest = rest.length ∧ restOfLine (rest ++ blanks) = rest.length + k := by
  by_cases hline : '\n' ∈ rest
  · exact .inl (restOfLine_append_of_mem hline blanks)
  · exact .inr ⟨_, restOfLine_of_notMem hline, restOfLine_append_of_notMem hline blanks⟩

namespace Closed

/-- The rest of a text is closed where the text is. -/
theorem of_append (h : Closed l (before ++ cs) blanks) : Closed l cs blanks where
  plain := h.plain
  notBlank c hc := h.notBlank c (by rw [List.getLast?_append, Option.mem_def.mp hc]; rfl)
  notSlash hl c hc := h.notSlash hl c (by rw [List.getLast?_append, Option.mem_def.mp hc]; rfl)
  comment before' mark rest hcs := h.comment (before ++ before') mark rest (by
    rw [hcs, List.append_assoc, List.append_assoc, List.append_assoc])

theorem of_cons {c : Char} (h : Closed l (c :: cs) blanks) : Closed l cs blanks :=
  of_append (show Closed l ([c] ++ cs) blanks from h)

theorem drop (h : Closed l cs blanks) (n : Nat) : Closed l (cs.drop n) blanks :=
  of_append (show Closed l (cs.take n ++ cs.drop n) blanks by rwa [List.take_append_drop])

/-- A backslash takes what comes next with it, so it is not the last character. -/
theorem slash_ne {c : Char} (h : Closed .python [c] blanks) : (c == '\\') = false :=
  beq_false_of_ne (h.notSlash rfl c rfl)

/-- What ends a line with a carriage return stands in the text with both its characters. -/
theorem return_ne {c : Char} (h : Closed l [c] blanks) : (c == '\r') = false := by
  refine beq_false_of_ne ?_
  rintro rfl
  exact absurd (h.notBlank '\r' rfl) (by decide)

/-- A comment that counts does not go on in the blanks. -/
theorem restOfLine (h : Closed l (mark ++ rest) blanks) (hmark : mark ∈ l.remarks) :
    restOfLine (rest ++ blanks) = restOfLine rest := by
  by_cases hline : '\n' ∈ rest
  · exact restOfLine_append_of_mem hline blanks
  · -- Without a line feed in it, the comment ends where the text does.
    have hblanks : Lexicon.restOfLine blanks = 0 := by
      rcases blanks with _ | ⟨b, blanks⟩
      · rfl
      · rw [h.comment [] mark rest rfl hmark hline b rfl]
        rfl
    rw [restOfLine_append_of_notMem hline, hblanks, restOfLine_of_notMem hline, Nat.add_zero]

end Closed

/-- **Whether the pieces of a lexicon are confined** to a text behind which nothing that counts goes
on. -/
structure Confines (l : Language) (lx : Lexicon) : Prop where
  goes : ∀ {c cs blanks}, Closed l (c :: cs) blanks →
    (lx (c :: cs)).Goes (c :: cs) (lx (c :: cs ++ blanks))
  fits : ∀ c cs, (lx (c :: cs)).length ≤ cs.length + 1
  plain : ∀ {c}, isPlain c = true → ∀ cs, lx (c :: cs) = .blank 1

/-! ### Blanks behind a text -/

theorem tokensFrom_blanks (hlx : lx.Confines l) (h : Plain blanks) (n : Nat) (fresh : Bool)
    (p : Position) : lx.tokensFrom n fresh p blanks = [] := by
  induction n generalizing fresh p blanks with
  | zero => rfl
  | succ n ih =>
    rcases blanks with _ | ⟨b, blanks⟩
    · rfl
    · obtain ⟨hb, hrest⟩ := h.of_cons
      rw [tokensFrom, hlx.plain hb]
      exact ih hrest _ _

theorem Confines.tokensFrom_append (hlx : lx.Confines l) {n m : Nat} (fresh : Bool)
    (p : Position) (h : Closed l cs blanks) (hn : (cs ++ blanks).length ≤ n)
    (hm : cs.length ≤ m) :
    lx.tokensFrom n fresh p (cs ++ blanks) = lx.tokensFrom m fresh p cs := by
  induction n generalizing m fresh p cs with
  | zero =>
    obtain ⟨rfl, rfl⟩ := List.append_eq_nil_iff.mp (List.length_eq_zero_iff.mp (Nat.le_zero.mp hn))
    cases m <;> rfl
  | succ n ih =>
    rcases cs with _ | ⟨c, cs⟩
    · rw [List.nil_append, tokensFrom_blanks hlx h.plain]
      cases m <;> rfl
    obtain ⟨m, rfl⟩ : ∃ m', m = m' + 1 := ⟨m - 1, by rw [List.length_cons] at hm; omega⟩
    have hgoes := hlx.goes h
    have hfits := hlx.fits c cs
    simp only [List.cons_append, List.length_cons, List.length_append] at hn hm hgoes
    rw [List.cons_append, tokensFrom, tokensFrom]
    generalize lx (c :: (cs ++ blanks)) = piece at hgoes ⊢
    rcases hgoes with _ | ⟨k, hcomment⟩
    case on =>
      -- Behind the comment there are no characters of the text, and only blanks of the others.
      have hdrop : (cs ++ blanks).drop (cs.length + 1 + k - 1) = blanks.drop k := by
        rw [List.drop_append, List.drop_of_length_le (by omega), List.nil_append]
        congr 1
        omega
      rw [List.length_cons] at hcomment
      simp only [hcomment, List.length_cons]
      rw [hdrop, tokensFrom_blanks hlx (h.plain.drop k), Nat.add_sub_cancel, List.drop_length]
      cases m <;> rfl
    case same =>
      -- The piece that stands here leaves the same blanks behind the rest of the text.
      have hrest : ∀ k ≤ cs.length + 1, ∀ fresh p,
          lx.tokensFrom n fresh p ((cs ++ blanks).drop (k - 1)) =
            lx.tokensFrom m fresh p (cs.drop (k - 1)) := by
        intro k hk fresh p
        rw [List.drop_append_of_le_length (by omega)]
        refine ih fresh p (h.of_cons.drop _) ?_ ?_ <;>
          simp only [List.length_append, List.length_drop] <;> omega
      rcases hcut : lx (c :: cs) with k | ⟨kind, k⟩
      · rw [hcut, Piece.length] at hfits
        simp only [List.take_append_of_le_length (show k - 1 ≤ cs.length by omega), hrest k hfits]
      · rw [hcut, Piece.length] at hfits
        simp only [List.take_append_of_le_length (show k - 1 ≤ cs.length by omega), hrest k hfits]

/-- **Blanks behind a text do not change its tokens.** -/
theorem Confines.tokens_append (hlx : lx.Confines l) (p : Position)
    (h : Closed l cs blanks) :
    lx.tokens p (cs ++ blanks) = lx.tokens p cs :=
  hlx.tokensFrom_append true p h (Nat.le_refl _) (Nat.le_refl _)

/-! ### Blanks in front of a text -/

/-- **Blanks in front of a text** have no tokens in them. -/
theorem Confines.tokens_plain_append (hlx : lx.Confines l) (p : Position) (h : Plain blanks)
    (cs : List Char) : lx.tokens p (blanks ++ cs) = lx.tokens (p.advance blanks) cs := by
  induction blanks generalizing p with
  | nil => rfl
  | cons b blanks ih =>
    obtain ⟨hb, hrest⟩ := h.of_cons
    rw [tokens, List.cons_append, List.length_cons, tokensFrom, hlx.plain hb]
    exact ih (p.next b) hrest

theorem tokensFrom_behind (n : Nat) (fresh : Bool) (q p : Position) (cs : List Char) :
    lx.tokensFrom n fresh (q.behind p) cs =
      (lx.tokensFrom n fresh p cs).map (Token.behind q) := by
  induction n generalizing fresh p cs with
  | zero => rfl
  | succ n ih =>
    rcases cs with _ | ⟨c, cs⟩
    · rfl
    rw [tokensFrom, tokensFrom]
    rcases lx (c :: cs) with k | ⟨kind, k⟩
    · simp only [← Position.behind_advance, ih]
    · simp only [← Position.behind_advance, ih, List.map_cons, Token.behind]

/-- **A text that stands elsewhere** has the same tokens elsewhere. -/
theorem tokens_behind (q p : Position) (cs : List Char) :
    lx.tokens (q.behind p) cs = (lx.tokens p cs).map (Token.behind q) :=
  tokensFrom_behind _ _ q p cs

/-! ### Where tokens stand -/

/-- The tokens of what comes after the blanks behind what has been read. -/
theorem sequence_tokensFrom (read gap : List Char) (n : Nat) (fresh : Bool)
    (h : cs = read ++ gap ++ rest) :
    Token.Sequence start cs read (lx.tokensFrom n fresh (start.advance (read ++ gap)) rest) := by
  induction n generalizing fresh read gap rest with
  | zero => exact .nil
  | succ n ih =>
    rcases rest with _ | ⟨c, rest⟩
    · exact .nil
    have hpiece : ∀ k, cs = read ++ gap ++ (c :: rest.take (k - 1)) ++ rest.drop (k - 1) :=
      fun k => by rw [h, List.append_assoc _ (c :: _), List.cons_append, List.take_append_drop]
    rw [tokensFrom]
    rcases lx (c :: rest) with k | ⟨kind, k⟩
    · -- What is skipped is one more piece of the gap.
      dsimp only
      rw [← Position.advance_append, List.append_assoc]
      exact ih _ _ _ (by rw [← List.append_assoc]; exact hpiece k)
    · -- A token ends the gap, and the next one begins right behind it.
      dsimp only
      refine .cons gap ?_ rfl ?_ ?_
      · rw [String.toList_ofList]
        exact hpiece k ▸ List.prefix_append _ _
      · rw [String.toList_ofList]
      · have hwhole : cs =
            read ++ gap ++ (c :: rest.take (k - 1)) ++ [] ++ rest.drop (k - 1) := by
          rw [List.append_nil (_ ++ c :: _)]
          exact hpiece k
        have hrest := ih _ [] false hwhole
        rw [List.append_nil, Position.advance_append] at hrest
        rwa [String.toList_ofList]

/-- **The tokens of a text** stand in it one after the other. -/
theorem sequence_tokens (p : Position) (cs : List Char) :
    Token.Sequence p cs [] (lx.tokens p cs) :=
  sequence_tokensFrom [] [] _ _ rfl

/-- **The tokens of a text** stand at places of the text. -/
theorem within_tokens (p : Position) (cs : List Char) :
    ∀ t ∈ lx.tokens p cs, t.Within (p.Of cs) :=
  (sequence_tokens p cs).within

end Lexicon

end Dossier
