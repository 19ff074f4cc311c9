import Dossier.Lexicon.Go
import Dossier.Lexicon.Java
import Dossier.Proofs.Lexicon.Blanks

/-!
# The pieces of Go and Java are confined

Words, numbers, literals and marks end with the text they stand in. A comment may go on in the
blanks behind the text, and as it is no token, the blanks behind a text in Go or in Java do not
change its tokens.
-/

namespace Dossier.Lexicon

variable {cs rest blanks : List Char}

theorem ConfinedIf.or {α : Type} {length : α → Nat} {f g : List Char → Option α}
    (hf : ConfinedIf length f) (hg : ConfinedIf length g) :
    ConfinedIf length fun cs => (f cs).or (g cs) where
  same h cs := by rw [hf.same h, hg.same h]
  fits h := by
    rcases Option.or_eq_some_iff.mp h with h | ⟨-, h⟩
    · exact hf.fits h
    · exact hg.fits h

/-! ### Comments -/

/-- A comment ends with the text it stands in, or it goes on in the blanks. -/
theorem comment?_append (h : Plain blanks) (cs : List Char) :
    comment? (cs ++ blanks) = comment? cs ∨
      ∃ k, comment? cs = some cs.length ∧ comment? (cs ++ blanks) = some (cs.length + k) := by
  have hclose : ConfinedIf id (through? ['*', '/']) := confined_through? (by decide) (by decide)
  unfold comment?
  split
  · next rest heq =>
    obtain ⟨rest, rfl, rfl⟩ := h.eq_append (p := ['/', '/']) (by decide) heq
    simp only [List.cons_append, List.nil_append, List.length_cons]
    rcases restOfLine_append rest blanks with hsame | ⟨k, hall, hon⟩
    · exact .inl (by rw [hsame])
    · exact .inr ⟨k, by rw [hall, Nat.add_comm], by rw [hon, ← Nat.add_assoc, Nat.add_comm 2]⟩
  · next rest heq =>
    obtain ⟨rest, rfl, rfl⟩ := h.eq_append (p := ['/', '*']) (by decide) heq
    simp only [List.cons_append, List.nil_append, hclose.same h, true_or]
  · next hline hblock =>
    left
    split
    · exact absurd rfl (hline _)
    · exact absurd rfl (hblock _)
    · rfl

theorem length_comment? {n : Nat} (h : comment? cs = some n) : n ≤ cs.length := by
  unfold comment? at h
  split at h
  · next rest =>
    obtain rfl := Option.some.inj h
    have hline := restOfLine_le rest
    simp only [List.length_cons]
    omega
  · next rest =>
    obtain ⟨m, hm, rfl⟩ := Option.map_eq_some_iff.mp h
    have hclose : ConfinedIf id (through? ['*', '/']) := confined_through? (by decide) (by decide)
    have hfits := hclose.fits hm
    rw [id] at hfits
    simp only [List.length_cons]
    omega
  · cases h

/-! ### Numbers and literals -/

theorem startsNumber_blanks (h : Plain blanks) (cs : List Char) :
    startsNumber (cs ++ blanks) = startsNumber cs := by
  have hdigit : Solid Text.isAsciiDigit := by decide
  -- A digit is asked for at the head, or behind a point.
  rcases cs with _ | ⟨c, _ | ⟨d, cs⟩⟩
  · rcases blanks with _ | ⟨b, blanks⟩
    · rfl
    · have hb := h.of_cons.1
      rw [List.nil_append, startsNumber, hdigit b hb]
      · rfl
      · exact fun _ _ heq _ => ne_of_isPlain hb (by decide) heq
  · rcases blanks with _ | ⟨b, blanks⟩
    · rfl
    · by_cases hc : c = '.'
      · rw [hc]
        exact hdigit b h.of_cons.1
      · rw [List.singleton_append, startsNumber, startsNumber]
        · exact fun _ _ heq _ => hc heq
        · exact fun _ _ heq _ => hc heq
  · by_cases hc : c = '.'
    · rw [hc]
      rfl
    · rw [List.cons_append, List.cons_append, startsNumber, startsNumber]
      · exact fun _ _ heq _ => hc heq
      · exact fun _ _ heq _ => hc heq

theorem confined_openNumber (bases : List Char) (hbases : Solid bases.contains) :
    Confined (openNumber bases) := by
  have hbased : ∀ x : Char, Confined (followed (followed (digitRun isHexDigit)
      (if x == 'x' || x == 'X' then fractionLength isHexDigit else fun _ => 0))
        (exponentLength ['p', 'P'])) := by
    intro x
    refine (Confined.followed (confined_digitRun (by decide)) ?_).followed
      (confined_exponentLength (by decide))
    split
    · exact confined_fractionLength (by decide)
    · exact confined_zero
  constructor
  · intro blanks h cs
    have hdecimal := confined_decimalLength.same h cs
    unfold openNumber
    split
    · next x rest heq =>
      rcases h.eq_cons_append (by decide) heq with ⟨rfl, hx⟩ | ⟨rest, rfl, rfl⟩
      · -- What follows is a blank, and no letter of a base.
        rw [hbases x hx, if_neg Bool.false_ne_true, hdecimal]
        rfl
      · dsimp only [List.cons_append] at hdecimal ⊢
        rw [(hbased x).same h, hdecimal]
        rfl
    · next hno =>
      split
      · exact absurd rfl (hno _ _)
      · exact hdecimal
  · intro cs
    have hdecimal := confined_decimalLength.fits cs
    unfold openNumber
    split
    · next x rest =>
      split
      · have := (hbased x).fits rest
        simp only [List.length_cons]
        omega
      · exact hdecimal
    · exact hdecimal

theorem confined_quotedLine : ConfinedIf id (quoted? '"' false) :=
  confined_quoted? (by decide) false

theorem confined_lineText? : ConfinedIf Prod.snd lineText? where
  same {blanks} h cs := by
    unfold lineText?
    split
    · next rest heq =>
      obtain ⟨rest, rfl, rfl⟩ := h.eq_append (p := ['"']) (by decide) heq
      simp only [List.cons_append, List.nil_append, confined_quotedLine.same h]
    · next hno =>
      split
      · exact absurd rfl (hno _)
      · rfl
  fits {cs a} h := by
    unfold lineText? at h
    split at h
    · obtain ⟨m, hm, rfl⟩ := Option.map_eq_some_iff.mp h
      have hfits := confined_quotedLine.fits hm
      rw [id] at hfits
      simp only [List.length_cons]
      omega
    · cases h

/-! ### Spellings -/

/-- **Whether what is particular to a language is confined.** -/
structure Spelling.Confined (s : Spelling) : Prop where
  word : Solid s.wordRest
  marks : ∀ m ∈ s.marks, ∀ c ∈ m, isPlain c = false
  number : Lexicon.Confined s.number
  literal : ConfinedIf Prod.snd s.literal?

/-- **The lexicon of a confined spelling** is confined. -/
theorem confines_ofSpelling {s : Spelling} (hs : s.Confined) (l : Language) :
    (ofSpelling s).Confines l where
  goes {c cs blanks} h := by
    have hplain := h.plain
    rcases comment?_append hplain (c :: cs) with hsame | ⟨k, hcomment, hon⟩
    · have hword := (confined_runLength hs.word).fits cs
      have hword' : 1 + Text.runLength s.wordRest cs ≤ (c :: cs).length := by
        rw [List.length_cons]
        omega
      have heq : ofSpelling s (c :: cs ++ blanks) = ofSpelling s (c :: cs) := by
        simp only [ofSpelling, List.cons_append, List.drop_succ_cons, List.drop_zero,
          (confined_runLength hs.word).same hplain]
        simp only [← List.cons_append, hsame, hs.literal.same hplain, startsNumber_blanks hplain,
          hs.number.same hplain, (confined_markLength? hs.marks).same hplain,
          wordPiece_blanks hword']
      rw [heq]
      exact .same
    · rw [List.cons_append] at hon ⊢
      simp only [ofSpelling, hcomment, hon]
      split
      · exact .same
      · exact .on k rfl
  fits c cs := by
    unfold ofSpelling
    dsimp only
    split
    · simp [Piece.length]
    split
    · next n hn => exact length_comment? hn
    split
    · next k n hn => exact hs.literal.fits hn
    split
    · have := (confined_runLength hs.word).fits cs
      simp only [wordPiece, Piece.length, List.drop_succ_cons, List.drop_zero]
      omega
    split
    · exact hs.number.fits (c :: cs)
    split
    · next n hn => exact (confined_markLength? hs.marks).fits hn
    · simp [Piece.length]
  plain {c} hc cs := by
    have hspace : isSpace c = true := by
      have hall : ∀ c ∈ [' ', '\t', '\n', '\r', '\x0c'], isSpace c = true := by decide
      exact hall c (List.contains_iff_mem.mp hc)
    rw [ofSpelling, if_pos hspace]

/-! ### Go -/

namespace Go

theorem coded_blanks {n : Nat} {digit : Char → Bool} (hdigit : Solid digit) (h : Plain blanks)
    (cs : List Char) : coded n digit (cs ++ blanks) = coded n digit cs := by
  rw [coded, coded]
  by_cases hn : n ≤ cs.length
  · rw [List.take_append_of_le_length hn]
  · -- Too few characters are left, and the blanks make none of them a digit.
    have hshort : ((cs.take n).length == n) = false := by
      rw [List.length_take]
      exact beq_false_of_ne (by omega)
    rw [hshort, Bool.false_and, Bool.and_eq_false_iff]
    rcases blanks with _ | ⟨b, blanks⟩
    · rw [List.append_nil]
      exact Or.inl hshort
    · right
      rw [List.all_eq_false]
      refine ⟨b, ?_, by rw [hdigit b h.of_cons.1]; exact Bool.false_ne_true⟩
      rw [List.take_append, List.mem_append]
      obtain ⟨m, hm⟩ : ∃ m, n - cs.length = m + 1 := ⟨n - cs.length - 1, by omega⟩
      rw [hm, List.take_succ_cons]
      exact Or.inr List.mem_cons_self

theorem length_of_coded {n : Nat} {digit : Char → Bool} (h : coded n digit cs = true) :
    n ≤ cs.length := by
  have hn := (Bool.and_eq_true_iff.mp h).1
  rw [beq_iff_eq, List.length_take] at hn
  omega

theorem confined_escapeLength? : ConfinedIf id escapeLength? where
  same {blanks} h cs := by
    have hhex : Solid isHexDigit := by decide
    have hoctal : Solid fun d => '0' ≤ d && d ≤ '7' := by decide
    have hescapes : Solid "abfnrtv\\'\"".toList.contains := by decide
    have hcoded := coded_blanks (n := 3) hoctal h cs
    unfold escapeLength?
    split
    · next rest heq =>
      obtain ⟨rest, rfl, rfl⟩ := h.eq_append (p := ['x']) (by decide) heq
      simp only [List.cons_append, List.nil_append, coded_blanks hhex h]
    · next rest heq =>
      obtain ⟨rest, rfl, rfl⟩ := h.eq_append (p := ['u']) (by decide) heq
      simp only [List.cons_append, List.nil_append, coded_blanks hhex h]
    · next rest heq =>
      obtain ⟨rest, rfl, rfl⟩ := h.eq_append (p := ['U']) (by decide) heq
      simp only [List.cons_append, List.nil_append, coded_blanks hhex h]
    · next c rest hx hu hU heq =>
      rw [hcoded]
      rcases cs with _ | ⟨d, cs⟩
      · rw [List.nil_append] at heq
        rw [hescapes c (h c (heq ▸ List.mem_cons_self))]
        rfl
      · -- The character stands in the text, so that the same branch is taken without the blanks.
        obtain ⟨rfl, rfl⟩ := List.cons.inj heq
        symm
        split
        · next heq' => exact (hx (List.cons.inj heq').1).elim
        · next heq' => exact (hu (List.cons.inj heq').1).elim
        · next heq' => exact (hU (List.cons.inj heq').1).elim
        · next heq' =>
          obtain ⟨rfl, -⟩ := List.cons.inj heq'
          rfl
        · next heq' => cases heq'
    · next heq =>
      obtain ⟨rfl, -⟩ := List.append_eq_nil_iff.mp heq
      rfl
  fits {cs n} h := by
    have hfits : ∀ {m : Nat} {digit : Char → Bool} {rest : List Char},
        (if coded m digit rest then some (m + 1) else none) = some n → n ≤ rest.length + 1 := by
      intro m digit rest h
      split at h
      · next hcoded =>
        obtain rfl := Option.some.inj h
        exact Nat.succ_le_succ (length_of_coded hcoded)
      · cases h
    unfold escapeLength? at h
    split at h
    · exact hfits h
    · exact hfits h
    · exact hfits h
    · split at h
      · obtain rfl := Option.some.inj h
        simp
      · split at h
        · next hcoded =>
          obtain rfl := Option.some.inj h
          exact length_of_coded hcoded
        · cases h
    · cases h

theorem closed?_blanks (h : Plain blanks) {n : Nat} (hn : n ≤ cs.length) :
    closed? (cs ++ blanks) n = closed? cs n := by
  have hquote := h.any_head? (solid_beq (by decide : isPlain '\'' = false)) (cs.drop n)
  have hhead : ∀ o : Option Char, (o == some '\'') = o.any (· == '\'') := by
    intro o
    cases o <;> rfl
  rw [closed?, closed?, List.drop_append_of_le_length hn, hhead, hhead, hquote]

theorem length_closed? {n : Nat} {a : TokenKind × Nat} (h : closed? cs n = some a) :
    a.2 ≤ cs.length := by
  unfold closed? at h
  split at h
  · next hhead =>
    obtain rfl := Option.some.inj h
    have hlt : n < cs.length := by
      by_contra hle
      rw [List.drop_eq_nil_of_le (by omega)] at hhead
      cases hhead
    exact hlt
  · cases h

theorem rune?_of_ne {c : Char} (hc : c ≠ '\'') (cs : List Char) : rune? (c :: cs) = none := by
  rw [rune?]
  · exact fun _ heq => hc (List.cons.inj heq).1
  · exact fun _ _ heq => hc (List.cons.inj heq).1

theorem rune?_quote {c : Char} (hc : c ≠ '\\') (cs : List Char) :
    rune? ('\'' :: c :: cs) = if c == '\'' then none else closed? ('\'' :: c :: cs) 2 := by
  rw [rune?]
  exact hc

theorem confined_rune? : ConfinedIf Prod.snd rune? where
  same {blanks} h cs := by
    rcases cs with _ | ⟨c, cs⟩
    · rcases blanks with _ | ⟨b, blanks⟩
      · rfl
      · exact rune?_of_ne (ne_of_isPlain h.of_cons.1 (by decide)) blanks
    by_cases hc : c = '\''
    · subst hc
      rcases cs with _ | ⟨d, cs⟩
      · -- Only blanks follow the quote, and none of them closes it.
        rcases blanks with _ | ⟨b, blanks⟩
        · rfl
        · have hquote : (b == '\'') = false :=
            beq_false_of_ne (ne_of_isPlain h.of_cons.1 (by decide))
          have hclosed : closed? ('\'' :: b :: blanks) 2 = none := by
            rcases blanks with _ | ⟨b', blanks⟩
            · rfl
            · have hne : b' ≠ '\'' := ne_of_isPlain h.of_cons.2.of_cons.1 (by decide)
              simp [closed?, hne]
          rw [List.singleton_append, rune?_quote (ne_of_isPlain h.of_cons.1 (by decide)), hquote,
            if_neg Bool.false_ne_true, hclosed]
          rfl
      -- An escape is read on; any other character is closed at once.
      by_cases hd : d = '\\'
      · subst hd
        rw [List.cons_append, List.cons_append, rune?, rune?, confined_escapeLength?.same h]
        rcases hn : escapeLength? cs with _ | n
        · rfl
        · have hfits := confined_escapeLength?.fits hn
          rw [id] at hfits
          exact closed?_blanks h (show n + 2 ≤ ('\'' :: '\\' :: cs).length by simpa using hfits)
      · have hclosed : closed? ('\'' :: d :: cs ++ blanks) 2 = closed? ('\'' :: d :: cs) 2 :=
          closed?_blanks h (by simp)
        rw [List.cons_append, List.cons_append, rune?_quote hd, rune?_quote hd, ← List.cons_append,
          ← List.cons_append, hclosed]
    · rw [List.cons_append, rune?_of_ne hc, rune?_of_ne hc]
  fits {cs a} h := by
    unfold rune? at h
    split at h
    · obtain ⟨n, -, hn⟩ := Option.bind_eq_some_iff.mp h
      exact length_closed? hn
    · split at h
      · cases h
      · exact length_closed? h
    · cases h

theorem confined_literal? : ConfinedIf Prod.snd literal? where
  same {blanks} h cs := by
    have hor := (confined_lineText?.or confined_rune?).same h
    rcases cs with _ | ⟨c, cs⟩
    · rcases blanks with _ | ⟨b, blanks⟩
      · rfl
      · have hgrave : (b.toNat == 0x60) = false :=
          (by decide : Solid fun c => c.toNat == 0x60) b h.of_cons.1
        have hnone := hor []
        rw [List.nil_append] at hnone
        rw [List.nil_append, literal?, hgrave, if_neg Bool.false_ne_true, hnone]
        rfl
    rw [List.cons_append, literal?, literal?, ← List.cons_append, hor]
    split
    · next hc =>
      have hgrave : c = Char.ofNat 0x60 := Char.toNat_inj.mp (beq_iff_eq.mp hc)
      have hclose : ConfinedIf id (through? [c]) :=
        confined_through? (by rw [hgrave]; decide) (List.cons_ne_nil _ _)
      rw [hclose.same h]
    · rfl
  fits {cs a} h := by
    unfold literal? at h
    split at h
    · next c rest =>
      split at h
      · next hc =>
        have hgrave : c = Char.ofNat 0x60 := Char.toNat_inj.mp (beq_iff_eq.mp hc)
        have hclose : ConfinedIf id (through? [c]) :=
          confined_through? (by rw [hgrave]; decide) (List.cons_ne_nil _ _)
        obtain ⟨n, hn, rfl⟩ := Option.map_eq_some_iff.mp h
        have hfits := hclose.fits hn
        rw [id] at hfits
        simp only [List.length_cons]
        omega
      · exact (confined_lineText?.or confined_rune?).fits h
    · cases h

theorem confined_spelling : spelling.Confined where
  word := by decide
  marks := by decide
  number := (confined_openNumber _ (by decide)).followed (confined_letterLength (by decide))
  literal := confined_literal?

end Go

/-! ### Java -/

namespace Java

/-- The quotes that close a block are not found in the blanks. -/
theorem blockTail?_blanks (h : Plain blanks) : blockTail? blanks = none := by
  induction blanks with
  | nil => rfl
  | cons b blanks ih =>
    obtain ⟨hb, hrest⟩ := h.of_cons
    rw [blockTail?, ih hrest]
    · rfl
    · exact fun _ heq _ => ne_of_isPlain hb (by decide) heq
    · exact fun _ _ heq _ => ne_of_isPlain hb (by decide) heq

theorem confined_blockTail? : ConfinedIf id blockTail? where
  same {blanks} h cs := by
    induction cs using blockTail?.induct with
    | case1 cs => rfl
    | case2 c cs ih => rw [List.cons_append, List.cons_append, blockTail?, blockTail?, ih]
    | case3 c cs hquotes hpair ih =>
      -- A backslash at the end of the text would take a blank with it.
      by_cases hlast : c = '\\' ∧ cs = []
      · obtain ⟨rfl, rfl⟩ := hlast
        rcases blanks with _ | ⟨b, blanks⟩
        · rfl
        · rw [List.singleton_append, blockTail?, blockTail?_blanks h.of_cons.2]
          rfl
      rw [List.cons_append, blockTail?, blockTail?, ih]
      · exact hquotes
      · exact hpair
      · intro tail hc heq
        obtain ⟨rest, rfl, -⟩ := h.eq_append (p := ['"', '"']) (by decide) heq
        exact hquotes rest hc rfl
      · intro d tail hc heq
        rcases cs with _ | ⟨d', cs⟩
        · exact hlast ⟨hc, rfl⟩
        · exact hpair d' cs hc rfl
    | case4 => exact blockTail?_blanks h
  fits {cs n} h := by
    induction cs using blockTail?.induct generalizing n with
    | case1 cs =>
      obtain rfl := Option.some.inj h
      simp
    | case2 c cs ih =>
      rw [blockTail?] at h
      obtain ⟨m, hm, rfl⟩ := Option.map_eq_some_iff.mp h
      simpa using ih hm
    | case3 c cs hquotes hpair ih =>
      rw [blockTail?] at h
      · obtain ⟨m, hm, rfl⟩ := Option.map_eq_some_iff.mp h
        simpa using ih hm
      · exact hquotes
      · exact hpair
    | case4 => cases h

theorem confined_quotedLetter : ConfinedIf id (quoted? '\'' false) :=
  confined_quoted? (by decide) false

theorem letter?_of_ne {c : Char} (hc : c ≠ '\'') (cs : List Char) : letter? (c :: cs) = none := by
  rw [letter?]
  · exact fun _ heq => hc (List.cons.inj heq).1
  · exact fun _ heq => hc (List.cons.inj heq).1

theorem letter?_quote (h : ∀ c ∈ cs.head?, c ≠ '\'') :
    letter? ('\'' :: cs) = (quoted? '\'' false cs).map fun n => (.letter, n + 1) := by
  rw [letter?]
  rintro tail rfl
  exact h _ rfl rfl

theorem confined_letter? : ConfinedIf Prod.snd letter? where
  same {blanks} h cs := by
    rcases cs with _ | ⟨c, cs⟩
    · rcases blanks with _ | ⟨b, blanks⟩
      · rfl
      · exact letter?_of_ne (ne_of_isPlain h.of_cons.1 (by decide)) blanks
    by_cases hc : c = '\''
    · subst hc
      rcases cs with _ | ⟨d, cs⟩
      · rw [List.singleton_append, letter?_quote, letter?_quote, ← confined_quotedLetter.same h []]
        · rfl
        · exact fun _ hd => absurd hd (Option.not_mem_none _)
        · exact fun b hb => ne_of_isPlain (h b (List.mem_of_mem_head? hb)) (by decide)
      -- Two quotes are no letter, with blanks behind them or without.
      by_cases hd : d = '\''
      · subst hd
        rfl
      · rw [List.cons_append, letter?_quote, letter?_quote, confined_quotedLetter.same h]
        · exact fun _ heq => Option.some.inj heq ▸ hd
        · exact fun _ heq => Option.some.inj heq ▸ hd
    · rw [List.cons_append, letter?_of_ne hc, letter?_of_ne hc]
  fits {cs a} h := by
    unfold letter? at h
    split at h
    · cases h
    · obtain ⟨n, hn, rfl⟩ := Option.map_eq_some_iff.mp h
      have hfits := confined_quotedLetter.fits hn
      rw [id] at hfits
      simp only [List.length_cons]
      omega
    · cases h

theorem confined_literal? : ConfinedIf Prod.snd literal? where
  same {blanks} h cs := by
    have hor := (confined_lineText?.or confined_letter?).same h cs
    unfold literal?
    split
    · next rest heq =>
      obtain ⟨rest, rfl, rfl⟩ := h.eq_append (p := ['"', '"', '"']) (by decide) heq
      simp only [List.cons_append, List.nil_append, confined_blockTail?.same h]
    · next hno =>
      split
      · exact absurd rfl (hno _)
      · exact hor
  fits {cs a} h := by
    unfold literal? at h
    split at h
    · obtain ⟨n, hn, rfl⟩ := Option.map_eq_some_iff.mp h
      have hfits := confined_blockTail?.fits hn
      rw [id] at hfits
      simp only [List.length_cons]
      omega
    · exact (confined_lineText?.or confined_letter?).fits h

theorem confined_spelling : spelling.Confined where
  word := by decide
  marks := by decide
  number := (confined_openNumber _ (by decide)).followed (confined_letterLength (by decide))
  literal := confined_literal?

end Java

end Dossier.Lexicon
