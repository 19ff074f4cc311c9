import Dossier.Lexicon.Go
import Dossier.Lexicon.Java
import Dossier.Lexicon.Python
import Dossier.Lexicon.Rust
import Dossier.Proofs.Source.QualifiedName
import Dossier.Proofs.Syntax.Grammar
import Dossier.Proofs.Text.Slice

/-!
# Words are segments

The names of functions are joined with points and colons, and no word of any of the languages holds
one: the letters, digits and marks that words are made of are others. So a word is a segment of a
name (`Dossier.Lexicon.Go.goodWords_tokens` and its like).

Two facts are put together for it. The tokens are cut off the text one after another, so that a
token covers the characters that it was made of (`Dossier.Position.Before`); and only the part of a
lexicon that reads words makes words (`Dossier.Lexicon.CutsSegments`). Python is cut in steps that
know what they stand in, but of all its steps only one makes words, too.
-/

namespace Dossier

open QualifiedName

/-- **Whether what stands between two places of a text is a segment of a name.** -/
def Position.Segment (source : String) (a b : Position) : Prop :=
  IsSegment (Text.slice a.offset b.offset source)

namespace Position

variable {source : String} {p : Position} {as rest : List Char}

theorem segment_self (p : Position) : Segment source p p := by
  rw [Segment, Text.slice_self]
  exact fun c h => absurd h List.not_mem_nil

/-- Characters that are read on the way make a segment if they are no separators. -/
theorem Before.segment (h : p.Before source (as ++ rest))
    (has : ∀ c ∈ as, isSeparator c = false) : Segment source p (p.advance as) := by
  rw [Segment, h.slice_eq, IsSegment, String.toList_ofList]
  exact has

end Position

namespace Lexicon

/-- **Whether the words of a lexicon are segments.** -/
def CutsSegments (lx : Lexicon) : Prop :=
  ∀ (c : Char) (cs : List Char) (k : TokenKind) (n : Nat), lx (c :: cs) = .token k n →
    k.isWord = true → ∀ d ∈ c :: cs.take (n - 1), isSeparator d = false

variable {source : String} {p : Position} {cs : List Char} {lx : Lexicon}

/-- The words of a text are segments when those of the lexicon are. -/
theorem goodWords_tokensFrom (hlx : lx.CutsSegments) (n : Nat) (fresh : Bool)
    (h : p.Before source cs) :
    Grammar.GoodWords (Position.Segment source) (lx.tokensFrom n fresh p cs) := by
  induction n generalizing fresh p cs with
  | zero => exact Grammar.goodWords_nil
  | succ n ih =>
    rcases cs with _ | ⟨c, cs⟩
    · exact Grammar.goodWords_nil
    have hpiece : ∀ k, p.Before source ((c :: cs.take (k - 1)) ++ cs.drop (k - 1)) := fun k => by
      rwa [List.cons_append, List.take_append_drop]
    rw [tokensFrom]
    split
    · exact ih _ (hpiece _).advance
    · next kind k hcut =>
      intro t ht hword
      rcases List.mem_cons.mp ht with rfl | ht
      · exact (hpiece k).segment (hlx c cs kind k hcut hword)
      · exact ih _ (hpiece k).advance t ht hword

theorem goodWords_tokens (hlx : lx.CutsSegments) (h : p.Before source cs) :
    Grammar.GoodWords (Position.Segment source) (lx.tokens p cs) :=
  goodWords_tokensFrom hlx _ _ h

/-- A run of characters of a class without separators has none. -/
theorem isSeparator_of_mem_run {p : Char → Bool} (hp : NoSeparator p) :
    ∀ d ∈ cs.take (Text.runLength p cs), isSeparator d = false := by
  intro d hd
  rw [Text.runLength, ← List.prefix_iff_eq_take.mp (List.takeWhile_prefix p)] at hd
  exact hp d (List.mem_takeWhile_imp hd)

/-- A word that goes on with a run of characters. -/
theorem isSeparator_of_mem_word {c : Char} {first rest : Char → Bool} (hfirst : NoSeparator first)
    (hrest : NoSeparator rest) (hc : first c = true) :
    ∀ d ∈ c :: cs.take (1 + Text.runLength rest cs - 1), isSeparator d = false := by
  rw [Nat.add_sub_cancel_left]
  exact List.forall_mem_cons.mpr ⟨hfirst c hc, isSeparator_of_mem_run hrest⟩

theorem noSeparator_wordStart : NoSeparator fun c => Text.isIdStart c || c == '_' :=
  noSeparator_of (by decide) (by decide)

theorem noSeparator_isIdContinue : NoSeparator Text.isIdContinue :=
  noSeparator_of (by decide) (by decide)

/-! ### Words, numbers and marks -/

/-- Whether only words are words in a spelling, and are segments. -/
structure Spelling.KeepsWords (s : Spelling) : Prop where
  literal : ∀ cs k n, s.literal? cs = some (k, n) → k.isWord = false
  start : NoSeparator s.wordStart
  rest : NoSeparator s.wordRest

theorem cutsSegments_ofSpelling {s : Spelling} (h : s.KeepsWords) :
    (ofSpelling s).CutsSegments := by
  intro c cs k n hcut hword
  unfold ofSpelling at hcut
  dsimp only at hcut
  -- Only the branch of words cuts words, since no literal of the spelling is one.
  split at hcut
  · cases hcut
  split at hcut
  · cases hcut
  split at hcut
  · next hliteral =>
    obtain ⟨rfl, rfl⟩ := Piece.token.inj hcut
    rw [h.literal _ _ _ hliteral] at hword
    cases hword
  split at hcut
  · next hstart =>
    obtain ⟨-, rfl⟩ := Piece.token.inj hcut
    exact isSeparator_of_mem_word h.start h.rest hstart
  split at hcut
  · obtain ⟨rfl, -⟩ := Piece.token.inj hcut
    cases hword
  split at hcut <;>
  · obtain ⟨rfl, -⟩ := Piece.token.inj hcut
    cases hword

theorem kind_of_lineText? {k : TokenKind} {n : Nat} (h : lineText? cs = some (k, n)) :
    k = .text := by
  unfold lineText? at h
  split at h
  · obtain ⟨m, -, heq⟩ := Option.map_eq_some_iff.mp h
    exact (Prod.mk.inj heq).1.symm
  · cases h

namespace Go

theorem kind_of_closed? {k : TokenKind} {m n : Nat} (h : closed? cs m = some (k, n)) :
    k = .letter := by
  unfold closed? at h
  split at h
  · exact (Prod.mk.inj (Option.some.inj h)).1.symm
  · cases h

theorem kind_of_rune? {k : TokenKind} {n : Nat} (h : rune? cs = some (k, n)) :
    k = .letter := by
  unfold rune? at h
  split at h
  · obtain ⟨m, -, h⟩ := Option.bind_eq_some_iff.mp h
    exact kind_of_closed? h
  · split at h
    · cases h
    · exact kind_of_closed? h
  · cases h

theorem keepsWords_spelling : spelling.KeepsWords where
  literal cs k n h := by
    change literal? cs = some (k, n) at h
    unfold literal? at h
    split at h
    · split at h
      · obtain ⟨m, -, heq⟩ := Option.map_eq_some_iff.mp h
        obtain ⟨rfl, -⟩ := Prod.mk.inj heq
        rfl
      · rcases Option.or_eq_some_iff.mp h with h | ⟨-, h⟩
        · rw [kind_of_lineText? h]
          rfl
        · rw [kind_of_rune? h]
          rfl
    · cases h
  start := noSeparator_of (by decide) (by decide)
  rest := noSeparator_of (by decide) (by decide)

/-- **The words of a Go text are segments.** -/
theorem goodWords_tokens (h : p.Before source cs) :
    Grammar.GoodWords (Position.Segment source) (tokens p cs) :=
  Lexicon.goodWords_tokens (cutsSegments_ofSpelling keepsWords_spelling) h

end Go

namespace Java

theorem keepsWords_spelling : spelling.KeepsWords where
  literal cs k n h := by
    change literal? cs = some (k, n) at h
    unfold literal? at h
    split at h
    · obtain ⟨m, -, heq⟩ := Option.map_eq_some_iff.mp h
      obtain ⟨rfl, -⟩ := Prod.mk.inj heq
      rfl
    · rcases Option.or_eq_some_iff.mp h with h | ⟨-, h⟩
      · rw [kind_of_lineText? h]
        rfl
      · unfold letter? at h
        split at h
        · cases h
        · obtain ⟨m, -, heq⟩ := Option.map_eq_some_iff.mp h
          obtain ⟨rfl, -⟩ := Prod.mk.inj heq
          rfl
        · cases h
  start := noSeparator_of (by decide) (by decide)
  rest := noSeparator_of (by decide) (by decide)

/-- **The words of a Java text are segments.** -/
theorem goodWords_tokens (h : p.Before source cs) :
    Grammar.GoodWords (Position.Segment source) (tokens p cs) :=
  Lexicon.goodWords_tokens (cutsSegments_ofSpelling keepsWords_spelling) h

end Java

namespace Rust

theorem isWord_of_remark {mark : Char} {undoing : List Char} {k : TokenKind} {m n : Nat}
    (h : remark mark undoing m cs = .token k n) : k.isWord = false := by
  unfold remark at h
  split at h
  · obtain ⟨rfl, -⟩ := Piece.token.inj h
    rfl
  · split at h
    · obtain ⟨rfl, -⟩ := Piece.token.inj h
      rfl
    · cases h
  · cases h

theorem isWord_of_comment? {k : TokenKind} {n : Nat} (h : comment? cs = some (.token k n)) :
    k.isWord = false := by
  unfold comment? at h
  split at h
  · exact isWord_of_remark (Option.some.inj h)
  · obtain ⟨m, -, h⟩ := Option.map_eq_some_iff.mp h
    exact isWord_of_remark h
  · cases h

theorem kind_of_suffixed {kind k : TokenKind} {opening n : Nat} {tail : Option Nat}
    (h : suffixed kind opening cs tail = some (k, n)) : k = kind := by
  obtain ⟨m, -, heq⟩ := Option.map_eq_some_iff.mp h
  exact (Prod.mk.inj heq).1.symm

theorem isWord_of_literal? {k : TokenKind} {n : Nat} (h : literal? cs = some (k, n)) :
    k.isWord = false := by
  have hsuffixed : ∀ {kind : TokenKind} {opening : Nat} {tail : Option Nat}, kind.isWord = false →
      suffixed kind opening cs tail = some (k, n) → k.isWord = false := by
    intro kind opening tail hkind h
    rwa [kind_of_suffixed h]
  unfold literal? at h
  split at h
  all_goals try exact hsuffixed rfl h
  · rcases Option.or_eq_some_iff.mp h with h | ⟨-, h⟩
    · exact hsuffixed rfl h
    · unfold lifetime? at h
      split at h
      · split at h
        · obtain ⟨rfl, -⟩ := Prod.mk.inj (Option.some.inj h)
          rfl
        · cases h
      · cases h
  · cases h

theorem cutsSegments_lexicon : lexicon.CutsSegments := by
  intro c cs k n hcut hword
  unfold lexicon at hcut
  dsimp only at hcut
  split at hcut
  · cases hcut
  split at hcut
  · next hcomment =>
    rw [hcut] at hcomment
    rw [isWord_of_comment? hcomment] at hword
    cases hword
  split at hcut
  · next hliteral =>
    obtain ⟨rfl, rfl⟩ := Piece.token.inj hcut
    rw [isWord_of_literal? hliteral] at hword
    cases hword
  split at hcut
  · next hraw =>
    -- A raw word, with its prefix.
    obtain ⟨-, rfl⟩ := Piece.token.inj hcut
    obtain ⟨more, hcs⟩ : ∃ more, c :: cs = 'r' :: '#' :: more := by
      unfold opensRawWord at hraw
      split at hraw
      · next more heq => exact ⟨more, heq⟩
      · cases hraw
    obtain ⟨rfl, rfl⟩ := List.cons.inj hcs
    rw [show ∀ m, 2 + m - 1 = m + 1 by omega, List.take_succ_cons, List.drop_one, List.tail_cons]
    exact List.forall_mem_cons.mpr ⟨by decide, List.forall_mem_cons.mpr
      ⟨by decide, isSeparator_of_mem_run noSeparator_isIdContinue⟩⟩
  split at hcut
  · next hstart =>
    obtain ⟨-, rfl⟩ := Piece.token.inj hcut
    exact isSeparator_of_mem_word noSeparator_wordStart noSeparator_isIdContinue hstart
  split at hcut
  · obtain ⟨rfl, -⟩ := Piece.token.inj hcut
    cases hword
  split at hcut
  · obtain ⟨rfl, -⟩ := Piece.token.inj hcut
    cases hword
  split at hcut <;>
  · obtain ⟨rfl, -⟩ := Piece.token.inj hcut
    cases hword

/-- **The words of a Rust text are segments.** -/
theorem goodWords_tokens (h : p.Before source cs) :
    Grammar.GoodWords (Position.Segment source) (tokens p cs) := by
  unfold tokens
  dsimp only
  have hrest : (p.advance (cs.take (interpreterLength cs))).Before source
      (cs.drop (interpreterLength cs)) := h.advance_take _
  split
  · next c rest heq =>
    rw [heq] at hrest
    split
    · exact Lexicon.goodWords_tokens cutsSegments_lexicon (hrest.advance_take 1)
    · exact Lexicon.goodWords_tokens cutsSegments_lexicon hrest
  · exact Grammar.goodWords_nil

end Rust

/-! ### Python -/

namespace Python

/-- **Whether the words that are cut are segments.** -/
def Action.CutsSegments (cs : List Char) : Action → Prop
  | .cut kind n _ => kind.isWord = true → ∀ d ∈ cs.take n, isSeparator d = false
  | _ => True

variable {s : Scan} {k : TokenKind} {n : Nat} {frames outer : List Frame}

/-- A token that is no word. -/
theorem cutsSegments_cut (hk : k.isWord = false) : (Action.cut k n frames).CutsSegments cs :=
  fun hword => Bool.noConfusion (hk.symm.trans hword)

theorem cutsSegments_textStep {quote : Char} {triple formatted : Bool} :
    (textStep s cs outer quote triple formatted).CutsSegments cs := by
  unfold textStep
  repeat' split
  all_goals first | exact trivial | exact cutsSegments_cut rfl

theorem cutsSegments_layoutStep : (layoutStep s cs outer).CutsSegments cs := by
  unfold layoutStep
  repeat' split
  all_goals first | exact trivial | exact cutsSegments_cut rfl

theorem cutsSegments_markStep : (markStep s cs).CutsSegments cs := by
  unfold markStep
  dsimp only
  repeat' split
  all_goals first | exact trivial | exact cutsSegments_cut rfl

theorem cutsSegments_codeStep : (codeStep s cs).CutsSegments cs := by
  unfold codeStep
  split
  · exact cutsSegments_cut rfl
  rcases cs with _ | ⟨c, rest⟩
  · trivial
  dsimp only
  split
  · next hstart =>
    -- The only step that cuts a word.
    intro _
    have hword : ∀ d ∈ c :: rest.take (1 + Text.runLength Text.isIdContinue rest - 1),
        isSeparator d = false :=
      isSeparator_of_mem_word noSeparator_wordStart noSeparator_isIdContinue hstart
    rw [Nat.add_sub_cancel_left] at hword
    rwa [Nat.add_comm, List.take_succ_cons]
  split
  · exact cutsSegments_cut rfl
  · exact cutsSegments_markStep

theorem cutsSegments_endLine : (endLine s cs).CutsSegments cs := by
  unfold endLine
  dsimp only
  split <;> trivial

theorem cutsSegments_betweenStep : (betweenStep s cs).CutsSegments cs := by
  unfold betweenStep
  dsimp only
  repeat' split
  all_goals exact trivial

theorem cutsSegments_lineStep : (lineStep s cs).CutsSegments cs := by
  unfold lineStep
  split
  · trivial
  split
  · split
    · split
      · trivial
      · exact cutsSegments_endLine
    split
    · trivial
    split
    · trivial
    · exact cutsSegments_codeStep
  · trivial

theorem cutsSegments_step : (step s cs).CutsSegments cs := by
  unfold step
  split
  · exact cutsSegments_textStep
  · exact cutsSegments_layoutStep
  · exact cutsSegments_layoutStep
  split
  · exact cutsSegments_betweenStep
  · exact cutsSegments_lineStep

/-- **What one step cuts.** -/
theorem Action.goodWords_tokens {a : Action} (ha : a.CutsSegments cs) (h : p.Before source cs) :
    Grammar.GoodWords (Position.Segment source) (a.tokens s p cs) := by
  cases a with
  | skip | pass | lineStart => exact Grammar.goodWords_nil
  | lineEnd | indent | dedent => exact List.forall_mem_singleton.mpr nofun
  | cut k n frames =>
    refine List.forall_mem_singleton.mpr fun hword => ?_
    rw [← List.take_append_drop n cs] at h
    exact h.segment (ha hword)

theorem good_atEnd : Grammar.GoodWords (Position.Segment source) (atEnd s p) := by
  unfold atEnd
  split
  · refine List.forall_mem_append.mpr ⟨?_, List.forall_mem_map.mpr fun _ _ => nofun⟩
    split
    · exact Grammar.goodWords_nil
    · exact List.forall_mem_singleton.mpr nofun
  · exact List.forall_mem_singleton.mpr nofun
  · exact Grammar.goodWords_nil

/-- **The words of a Python text are segments.** -/
theorem goodWords_tokens (h : p.Before source cs) :
    Grammar.GoodWords (Position.Segment source) (tokens p cs) := by
  have hfrom : ∀ (n : Nat) {s : Scan} {p : Position} {cs : List Char}, p.Before source cs →
      Grammar.GoodWords (Position.Segment source) (tokensFrom n s p cs) := by
    intro n
    induction n with
    | zero => exact fun _ => Grammar.goodWords_nil
    | succ n ih =>
      intro s p cs h
      rcases cs with _ | ⟨c, cs⟩
      · exact good_atEnd
      · exact List.forall_mem_append.mpr
          ⟨Action.goodWords_tokens cutsSegments_step h, ih (h.advance_take _)⟩
  exact hfrom _ h

end Python

end Lexicon

end Dossier
