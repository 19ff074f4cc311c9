import Dossier.Lexicon.Rust
import Dossier.Proofs.Lexicon.Blanks

/-!
# The pieces of Rust are confined

Documentation, literals, lifetimes, words, numbers and marks end with the text they stand in, unless
a line of documentation goes on in the blanks behind it, and what goes on in them besides is no
token. So blanks behind a text do not change its tokens (`Dossier.Lexicon.Rust.tokens_append`), and
blanks in front of it only move them, unless it opens with what has a meaning only at the beginning
of a file (`Dossier.Lexicon.Rust.tokens_plain_append`).
-/

namespace Dossier.Lexicon.Rust

variable {cs rest blanks : List Char} {c : Char}

/-! ### Comments -/

/-- What is read inside a block comment where none closes and none opens. -/
theorem blockTail?_cons {depth : Nat} (hclose : ∀ rest, c = '*' → cs = '/' :: rest → False)
    (hopen : ∀ rest, c = '/' → cs = '*' :: rest → False) :
    blockTail? depth (c :: cs) = (blockTail? depth cs).map (· + 1) := by
  rw [blockTail?]
  · exact hclose
  · exact hopen

theorem blockTail?_blanks (h : Plain blanks) (depth : Nat) : blockTail? depth blanks = none := by
  induction blanks with
  | nil => rw [blockTail?]
  | cons b blanks ih =>
    obtain ⟨hb, hrest⟩ := h.of_cons
    rw [blockTail?_cons (fun _ heq => absurd heq (ne_of_isPlain hb (by decide)))
      (fun _ heq => absurd heq (ne_of_isPlain hb (by decide))), ih hrest]
    rfl

theorem confined_blockTail? (depth : Nat) : ConfinedIf id (blockTail? depth) where
  same {blanks} h cs := by
    induction depth, cs using blockTail?.induct with
    | case1 depth => rw [List.nil_append, blockTail?_blanks h, blockTail?]
    | case2 cs => rfl
    | case3 cs => rfl
    | case4 cs d ih => rw [List.cons_append, List.cons_append, blockTail?, blockTail?, ih]
    | case5 depth cs ih => rw [List.cons_append, List.cons_append, blockTail?, blockTail?, ih]
    | case6 depth c cs hclose hopen ih =>
      -- What would close or open a comment here is solid, and stands in the text.
      have hclose' : ∀ rest, c = '*' → cs ++ blanks = '/' :: rest → False := by
        intro rest hc heq
        obtain ⟨rest', hcs, -⟩ := h.eq_append (p := ['/']) (by decide) heq
        exact hclose rest' hc hcs
      have hopen' : ∀ rest, c = '/' → cs ++ blanks = '*' :: rest → False := by
        intro rest hc heq
        obtain ⟨rest', hcs, -⟩ := h.eq_append (p := ['*']) (by decide) heq
        exact hopen rest' hc hcs
      rw [List.cons_append, blockTail?_cons hclose' hopen', blockTail?_cons hclose hopen, ih]
  fits {cs n} h := by
    induction depth, cs using blockTail?.induct generalizing n with
    | case1 depth => rw [blockTail?] at h; cases h
    | case2 cs =>
      obtain rfl := Option.some.inj h
      simp
    | case3 cs =>
      obtain rfl := Option.some.inj h
      simp
    | case4 cs d ih => exact le_of_map_add (m := cs.length) ih (by rwa [blockTail?] at h)
    | case5 depth cs ih => exact le_of_map_add (m := cs.length) ih (by rwa [blockTail?] at h)
    | case6 depth c cs hclose hopen ih =>
      exact le_of_map_add ih (by rwa [blockTail?_cons hclose hopen] at h)

/-- What makes a comment documentation is solid. -/
theorem remark_blanks (h : Plain blanks) {mark : Char} {undoing : List Char} (n : Nat)
    (hmark : isPlain mark = false) (hundoing : Solid undoing.contains) (cs : List Char) :
    remark mark undoing n (cs ++ blanks) = remark mark undoing n cs := by
  rcases cs with _ | ⟨c, cs⟩
  · rcases blanks with _ | ⟨b, blanks⟩
    · rfl
    · have hb := h.of_cons.1
      have hne : (b == mark) = false := beq_false_of_ne (ne_of_isPlain hb hmark)
      rw [List.nil_append, remark, hne, Bool.false_and, if_neg Bool.false_ne_true, remark]
      exact ne_of_isPlain hb (by decide)
  · by_cases hc : c = '!'
    · rw [hc, List.cons_append, remark, remark]
    · rw [List.cons_append, remark, remark, h.any_head? hundoing]
      · exact hc
      · exact hc

theorem length_remark {mark : Char} {undoing : List Char} (n : Nat) :
    (remark mark undoing n cs).length = n := by
  unfold remark
  split
  · rfl
  · split <;> rfl
  · rfl

/-- A line that does not open as documentation is none. -/
theorem remark_of_head? (h : ∀ c ∈ rest.head?, ¬(c = '/' ∨ c = '!')) (n : Nat) :
    remark '/' ['/'] n rest = .blank n := by
  rcases rest with _ | ⟨c, rest⟩
  · rfl
  · obtain ⟨hslash, hmark⟩ := not_or.mp (h c rfl)
    rw [remark, beq_false_of_ne hslash, Bool.false_and, if_neg Bool.false_ne_true]
    exact hmark

/-- A line that may be documentation does not go on in the blanks. -/
theorem restOfLine_documentation (h : Closed .rust ('/' :: '/' :: c :: rest) blanks)
    (hc : c = '/' ∨ c = '!') : restOfLine (c :: rest ++ blanks) = restOfLine (c :: rest) := by
  have hopening : ['/', '/', c] ∈ Language.rust.remarks := by rcases hc with rfl | rfl <;> decide
  have hnext : ∀ cs, restOfLine (c :: cs) = restOfLine cs + 1 := by
    rcases hc with rfl | rfl <;> exact fun _ => rfl
  rw [List.cons_append, hnext, hnext,
    (show Closed .rust (['/', '/', c] ++ rest) blanks from h).restOfLine hopening]

/-- A comment ends with the text it stands in, or it is no documentation and goes on in the
blanks. -/
theorem comment?_append (h : Closed .rust cs blanks) :
    comment? (cs ++ blanks) = comment? cs ∨
      ∃ k, comment? cs = some (.blank cs.length) ∧
        comment? (cs ++ blanks) = some (.blank (cs.length + k)) := by
  unfold comment?
  split
  · next rest heq =>
    obtain ⟨rest, rfl, rfl⟩ := h.plain.eq_append (p := ['/', '/']) (by decide) heq
    have hremark := fun n => remark_blanks h.plain n (by decide : isPlain '/' = false)
      (by decide : Solid ['/'].contains) rest
    simp only [List.cons_append, List.nil_append, hremark, List.length_cons]
    by_cases hmark : ∀ c ∈ rest.head?, ¬(c = '/' ∨ c = '!')
    · simp only [remark_of_head? hmark]
      rcases restOfLine_append rest blanks with hsame | ⟨k, hall, hon⟩
      · exact .inl (by rw [hsame])
      · exact .inr ⟨k, by rw [hall, Nat.add_comm], by rw [hon, ← Nat.add_assoc, Nat.add_comm 2]⟩
    · left
      simp only [not_forall, not_not] at hmark
      obtain ⟨c, hhead, hc⟩ := hmark
      obtain ⟨rest, rfl⟩ := List.head?_eq_some_iff.mp hhead
      rw [restOfLine_documentation h hc]
  · next rest heq =>
    obtain ⟨rest, rfl, rfl⟩ := h.plain.eq_append (p := ['/', '*']) (by decide) heq
    simp only [List.cons_append, List.nil_append, (confined_blockTail? 1).same h.plain,
      remark_blanks h.plain _ (by decide : isPlain '*' = false)
        (by decide : Solid ['*', '/'].contains) rest, true_or]
  · next hline hblock =>
    left
    split
    · exact absurd rfl (hline _)
    · exact absurd rfl (hblock _)
    · rfl

theorem length_comment? {piece : Piece} (h : comment? cs = some piece) :
    piece.length ≤ cs.length := by
  unfold comment? at h
  split at h
  · next rest =>
    obtain rfl := Option.some.inj h
    have hline := restOfLine_le rest
    simp only [length_remark, List.length_cons]
    omega
  · next rest =>
    obtain ⟨n, hn, rfl⟩ := Option.map_eq_some_iff.mp h
    have hfits : n ≤ rest.length := (confined_blockTail? 1).fits hn
    simp only [length_remark, List.length_cons]
    omega
  · cases h

/-! ### Strings -/

/-- What is read in a string where it does not end and nothing is written with a backslash. -/
theorem textTail?_cons (hquote : c ≠ '"') (hslash : c ≠ '\\') :
    textTail? (c :: cs) = (textTail? cs).map (· + 1) := by
  rw [textTail?]
  · exact hquote
  · exact fun _ _ heq => absurd heq hslash

theorem textTail?_blanks (h : Plain blanks) : textTail? blanks = none := by
  induction blanks with
  | nil => rfl
  | cons b blanks ih =>
    obtain ⟨hb, hrest⟩ := h.of_cons
    rw [textTail?_cons (ne_of_isPlain hb (by decide)) (ne_of_isPlain hb (by decide)), ih hrest]
    rfl

theorem confined_textTail? : ConfinedIf id textTail? where
  same {blanks} h cs := by
    induction cs using textTail?.induct with
    | case1 => exact textTail?_blanks h
    | case2 cs => rfl
    | case3 c cs hescape ih =>
      rw [List.cons_append, List.cons_append, textTail?, textTail?, if_pos hescape, if_pos hescape,
        ih]
    | case4 c cs hescape =>
      rw [List.cons_append, List.cons_append, textTail?, textTail?, if_neg hescape,
        if_neg hescape]
    | case5 c cs hquote hpair ih =>
      by_cases hc : c = '\\'
      · -- The text ends with the backslash, and what follows it is no quote in any case.
        rcases cs with _ | ⟨d, rest⟩
        · rcases blanks with _ | ⟨b, blanks⟩
          · rfl
          · have htail := textTail?_blanks h.of_cons.2
            rw [hc, List.singleton_append, textTail?, htail, Option.map_none, ite_self]
            rfl
        · exact (hpair d rest hc rfl).elim
      · rw [List.cons_append, textTail?_cons hquote hc, textTail?_cons hquote hc, ih]
  fits {cs n} h := by
    induction cs using textTail?.induct generalizing n with
    | case1 => cases h
    | case2 cs =>
      obtain rfl := Option.some.inj h
      simp
    | case3 c cs hescape ih =>
      exact le_of_map_add (m := cs.length) ih (by rwa [textTail?, if_pos hescape] at h)
    | case4 c cs hescape =>
      rw [textTail?, if_neg hescape] at h
      cases h
    | case5 c cs hquote hpair ih =>
      rw [textTail?] at h
      · exact le_of_map_add ih h
      · exact hquote
      · exact hpair

theorem confined_hashes : Confined (Text.runLength (· == '#')) :=
  confined_runLength (by decide)

theorem confined_rawClose (n : Nat) :
    ConfinedIf id (through? ('"' :: List.replicate n '#')) := by
  refine confined_through? ?_ (List.cons_ne_nil _ _)
  intro c hc
  rcases List.mem_cons.mp hc with rfl | hc
  · decide
  · rw [List.eq_of_mem_replicate hc]
    decide

theorem confined_rawTail? : ConfinedIf id rawTail? where
  same {blanks} h cs := by
    unfold rawTail?
    dsimp only
    rw [confined_hashes.same h, List.drop_append_of_le_length (confined_hashes.fits cs)]
    split
    · next rest heq =>
      obtain ⟨rest, hrest, rfl⟩ := h.eq_append (p := ['"']) (by decide) heq
      rw [hrest]
      simp only [List.cons_append, List.nil_append, (confined_rawClose _).same h]
    · next hno =>
      split
      · next heq => exact absurd (by rw [heq]; rfl) (hno _)
      · rfl
  fits {cs n} h := by
    unfold rawTail? at h
    dsimp only at h
    split at h
    · next rest heq =>
      obtain ⟨m, hm, rfl⟩ := Option.map_eq_some_iff.mp h
      have hclose : m ≤ rest.length := (confined_rawClose _).fits hm
      have hlength := congrArg List.length heq
      rw [List.length_drop, List.length_cons] at hlength
      rw [id]
      omega
    · cases h

/-! ### Characters and lifetimes -/

theorem closedAt_blanks (h : Plain blanks) (n : Nat) (cs : List Char) :
    closedAt n (cs ++ blanks) = closedAt n cs := by
  rw [closedAt, closedAt, List.drop_append, (h.drop _).any_head? (solid_beq (by decide))]

theorem lt_of_closedAt {n : Nat} (h : closedAt n cs = true) : n < cs.length := by
  by_contra hn
  rw [closedAt, List.drop_eq_nil_of_le (by omega)] at h
  cases h

theorem confined_numberedTail? : ConfinedIf id numberedTail? where
  same {blanks} h cs := by
    have hrun : Confined (Text.runLength fun c => isHexDigit c || c == '_') :=
      confined_runLength (by decide)
    unfold numberedTail?
    dsimp only
    rw [hrun.same h, List.drop_append_of_le_length (hrun.fits cs)]
    split
    · next rest heq =>
      obtain ⟨rest, hrest, rfl⟩ := h.eq_append (p := ['\x7d', '\'']) (by decide) heq
      rw [hrest]
      rfl
    · next hno =>
      split
      · next heq => exact absurd (by rw [heq]; rfl) (hno _)
      · rfl
  fits {cs n} h := by
    unfold numberedTail? at h
    dsimp only at h
    split at h
    · next rest heq =>
      obtain rfl := Option.some.inj h
      have hlength := congrArg List.length heq
      rw [List.length_drop, List.length_cons, List.length_cons] at hlength
      rw [id]
      omega
    · cases h

theorem letterTail?_of_ne (hc : cs.head? ≠ some '\\') :
    letterTail? cs = if closedAt 1 cs then some 2 else none := by
  unfold letterTail?
  dsimp only
  split
  · exact absurd rfl hc
  · rfl

theorem confined_letterTail? : ConfinedIf id letterTail? where
  same {blanks} h cs := by
    by_cases hhead : cs.head? = some '\\'
    · -- An escape is looked at up to the quote behind it.
      obtain ⟨cs, rfl⟩ := List.head?_eq_some_iff.mp hhead
      rcases cs with _ | ⟨c, rest⟩
      · rcases blanks with _ | ⟨b, blanks⟩
        · rfl
        · -- Blanks stand where the backslash should take a character with it.
          have hclosed : ∀ n, closedAt n ('\\' :: b :: blanks) = closedAt n ['\\'] :=
            fun n => closedAt_blanks h n ['\\']
          have hx : (b == 'x') = false := (solid_beq (by decide)) b h.of_cons.1
          have hu : (b == 'u') = false := (solid_beq (by decide)) b h.of_cons.1
          simp only [letterTail?, List.singleton_append, hclosed, hx, hu, Bool.false_and,
            Bool.false_eq_true, if_false]
          rfl
      · have hclosed := closedAt_blanks h
        have htail : numberedTail? ((rest ++ blanks).drop 1) = numberedTail? (rest.drop 1) := by
          rw [List.drop_append, confined_numberedTail?.same (h.drop _)]
        have hbrace := h.any_head? (solid_beq (by decide : isPlain '\x7b' = false)) rest
        simp only [letterTail?, List.cons_append, hbrace, htail]
        simp only [← List.cons_append, hclosed]
    · -- Without one, a single character stands before the quote.
      have hhead' : (cs ++ blanks).head? ≠ some '\\' := by
        rcases cs with _ | ⟨c, cs⟩
        · intro heq
          exact absurd rfl (ne_of_isPlain (h _ (List.mem_of_mem_head? heq)) (by decide))
        · exact hhead
      rw [letterTail?_of_ne hhead, letterTail?_of_ne hhead', closedAt_blanks h]
  fits {cs n} h := by
    have hsingle : (if closedAt 1 cs then some 2 else none) = some n → n ≤ cs.length := by
      intro h
      split at h
      · next hclosed =>
        obtain rfl := Option.some.inj h
        exact lt_of_closedAt hclosed
      · cases h
    unfold letterTail? at h
    dsimp only at h
    split at h
    · next c rest =>
      split at h
      · next hx =>
        obtain rfl := Option.some.inj h
        exact lt_of_closedAt (Bool.and_eq_true_iff.mp hx).2
      split at h
      · next hu =>
        obtain ⟨m, hm, rfl⟩ := Option.map_eq_some_iff.mp h
        have hfits : m ≤ (rest.drop 1).length := confined_numberedTail?.fits hm
        have hrest : rest ≠ [] := by
          rintro rfl
          exact absurd (Bool.and_eq_true_iff.mp hu).2 Bool.false_ne_true
        have hpos := List.length_pos_iff.mpr hrest
        rw [List.length_drop] at hfits
        rw [id, List.length_cons, List.length_cons]
        omega
      split at h
      · next hclosed =>
        split at h
        · obtain rfl := Option.some.inj h
          exact lt_of_closedAt hclosed
        · cases h
      · exact hsingle h
    · exact hsingle h

theorem confined_suffixLength : Confined suffixLength where
  same {blanks} h cs := by
    rcases cs with _ | ⟨c, cs⟩
    · rcases blanks with _ | ⟨b, blanks⟩
      · rfl
      · have hb : (Text.isIdStart b || b == '_') = false :=
          (by decide : Solid fun c => Text.isIdStart c || c == '_') b h.of_cons.1
        rw [List.nil_append, suffixLength, hb]
        rfl
    · rw [List.cons_append, suffixLength, suffixLength, (confined_runLength (by decide)).same h]
  fits cs := by
    unfold suffixLength
    split
    · next c rest =>
      have hrun := Text.runLength_le Text.isIdContinue rest
      split
      · rw [List.length_cons]
        omega
      · exact Nat.zero_le _
    · exact Nat.le_refl 0

theorem suffixed_blanks (h : Plain blanks) {kind : TokenKind} {opening : Nat} {tail : Option Nat}
    (htail : ∀ {n}, tail = some n → opening + n ≤ cs.length) :
    suffixed kind opening (cs ++ blanks) tail = suffixed kind opening cs tail := by
  rcases tail with _ | n
  · rfl
  · rw [suffixed, suffixed, Option.map_some, Option.map_some, withSuffix, withSuffix, followed,
      followed, List.drop_append_of_le_length (htail rfl), confined_suffixLength.same h]

theorem length_suffixed {kind : TokenKind} {opening : Nat} {tail : Option Nat}
    {a : TokenKind × Nat} (h : suffixed kind opening cs tail = some a)
    (htail : ∀ {n}, tail = some n → opening + n ≤ cs.length) : a.2 ≤ cs.length := by
  obtain ⟨n, hn, rfl⟩ := Option.map_eq_some_iff.mp h
  have hfits := confined_suffixLength.fits (cs.drop (opening + n))
  have hle := htail hn
  rw [List.length_drop] at hfits
  simp only [withSuffix, followed]
  omega

theorem lifetime?_blanks (h : Plain blanks) (cs : List Char) :
    lifetime? (cs ++ blanks) = lifetime? cs := by
  rcases cs with _ | ⟨c, cs⟩
  · rcases blanks with _ | ⟨b, blanks⟩
    · rfl
    · have hb : (Text.isIdStart b || b == '_') = false :=
        (by decide : Solid fun c => Text.isIdStart c || c == '_') b h.of_cons.1
      rw [List.nil_append, lifetime?, hb]
      rfl
  · rw [List.cons_append, lifetime?, lifetime?, (confined_runLength (by decide)).same h]

theorem length_lifetime? {a : TokenKind × Nat} (h : lifetime? cs = some a) :
    a.2 ≤ cs.length + 1 := by
  unfold lifetime? at h
  split at h
  · next c rest =>
    have hrun := Text.runLength_le Text.isIdContinue rest
    split at h
    · obtain rfl := Option.some.inj h
      rw [List.length_cons]
      dsimp only
      omega
    · cases h
  · cases h

/-! ### Literals -/

/-- A literal that opens with solid characters goes on alike. -/
theorem suffixed_through {f : List Char → Option Nat} (hf : ConfinedIf id f) (h : Plain blanks)
    {kind : TokenKind} (opening rest : List Char) :
    suffixed kind opening.length (opening ++ rest ++ blanks) (f (rest ++ blanks)) =
      suffixed kind opening.length (opening ++ rest) (f rest) := by
  rw [hf.same h]
  refine suffixed_blanks h fun hn => ?_
  have hfits := hf.fits hn
  rw [id] at hfits
  rw [List.length_append]
  omega

theorem confined_literal? : ConfinedIf Prod.snd literal? where
  same {blanks} h cs := by
    -- Each opening is solid, so it stands in the text, and its tail is confined.
    have htext := @suffixed_through blanks _ confined_textTail? h .text
    have hraw := @suffixed_through blanks _ confined_rawTail? h .text
    have hletter := @suffixed_through blanks _ confined_letterTail? h .letter
    unfold literal?
    split
    · next rest heq =>
      obtain ⟨rest, rfl, rfl⟩ := h.eq_append (p := ['"']) (by decide) heq
      exact htext ['"'] rest
    · next rest heq =>
      obtain ⟨rest, rfl, rfl⟩ := h.eq_append (p := ['b', '"']) (by decide) heq
      exact htext ['b', '"'] rest
    · next rest heq =>
      obtain ⟨rest, rfl, rfl⟩ := h.eq_append (p := ['c', '"']) (by decide) heq
      exact htext ['c', '"'] rest
    · next rest heq =>
      obtain ⟨rest, rfl, rfl⟩ := h.eq_append (p := ['b', '\'']) (by decide) heq
      exact hletter ['b', '\''] rest
    · next rest heq =>
      obtain ⟨rest, rfl, rfl⟩ := h.eq_append (p := ['r']) (by decide) heq
      exact hraw ['r'] rest
    · next rest heq =>
      obtain ⟨rest, rfl, rfl⟩ := h.eq_append (p := ['b', 'r']) (by decide) heq
      exact hraw ['b', 'r'] rest
    · next rest heq =>
      obtain ⟨rest, rfl, rfl⟩ := h.eq_append (p := ['c', 'r']) (by decide) heq
      exact hraw ['c', 'r'] rest
    · next rest heq =>
      obtain ⟨rest, rfl, rfl⟩ := h.eq_append (p := ['\'']) (by decide) heq
      rw [lifetime?_blanks h]
      exact congrArg (·.or (lifetime? rest)) (hletter ['\''] rest)
    · next h₁ h₂ h₃ h₄ h₅ h₆ h₇ h₈ =>
      -- What opens no literal with the blanks opens none without them.
      split
      · exact absurd rfl (h₁ _)
      · exact absurd rfl (h₂ _)
      · exact absurd rfl (h₃ _)
      · exact absurd rfl (h₄ _)
      · exact absurd rfl (h₅ _)
      · exact absurd rfl (h₆ _)
      · exact absurd rfl (h₇ _)
      · exact absurd rfl (h₈ _)
      · rfl
  fits {cs a} h := by
    have hfits : ∀ (opening : List Char) {f : List Char → Option Nat} {kind : TokenKind}
        {rest : List Char}, ConfinedIf id f → cs = opening ++ rest →
        suffixed kind opening.length cs (f rest) = some a → a.2 ≤ cs.length := by
      intro opening f kind rest hf hcs h
      refine length_suffixed h fun hn => ?_
      have hfits := hf.fits hn
      rw [id] at hfits
      rw [hcs, List.length_append]
      omega
    unfold literal? at h
    split at h
    · exact hfits ['"'] confined_textTail? rfl h
    · exact hfits ['b', '"'] confined_textTail? rfl h
    · exact hfits ['c', '"'] confined_textTail? rfl h
    · exact hfits ['b', '\''] confined_letterTail? rfl h
    · exact hfits ['r'] confined_rawTail? rfl h
    · exact hfits ['b', 'r'] confined_rawTail? rfl h
    · exact hfits ['c', 'r'] confined_rawTail? rfl h
    · next rest =>
      rcases Option.or_eq_some_iff.mp h with h | ⟨-, h⟩
      · exact hfits ['\''] confined_letterTail? rfl h
      · exact length_lifetime? h
    · cases h

/-! ### Numbers and words -/

theorem confined_fractionLength : Confined fractionLength where
  same {blanks} h cs := by
    have hdigits : Confined (digitRun Text.isAsciiDigit) := confined_digitRun (by decide)
    have hnext : Solid fun c => c == '.' || c == '_' || Text.isIdStart c := by decide
    rcases cs with _ | ⟨c, cs⟩
    · rcases blanks with _ | ⟨b, blanks⟩
      · rfl
      · rw [List.nil_append, fractionLength, fractionLength]
        · exact fun _ heq => by cases heq
        · exact fun _ heq => absurd (List.cons.inj heq).1 (ne_of_isPlain h.of_cons.1 (by decide))
    · by_cases hc : c = '.'
      · rw [hc, List.cons_append, fractionLength, fractionLength, h.any_head? hnext, hdigits.same h]
      · rw [List.cons_append, fractionLength, fractionLength]
        · exact fun _ heq => hc (List.cons.inj heq).1
        · exact fun _ heq => hc (List.cons.inj heq).1
  fits cs := by
    have hrun := (confined_digitRun (by decide : Solid Text.isAsciiDigit)).fits
    unfold fractionLength
    split
    · next rest =>
      have hrest := hrun rest
      rw [List.length_cons]
      split <;> omega
    · exact Nat.zero_le _

theorem confined_openNumber : Confined openNumber := by
  have hhex : Confined (digitRun isHexDigit) := confined_digitRun (by decide)
  have hdigits : Confined (digitRun Text.isAsciiDigit) := confined_digitRun (by decide)
  have hdecimal : Confined (followed (followed (digitRun Text.isAsciiDigit) fractionLength)
      (exponentLength ['e', 'E'])) :=
    (hdigits.followed confined_fractionLength).followed (confined_exponentLength (by decide))
  constructor
  · intro blanks h cs
    unfold openNumber
    split
    · next rest heq =>
      obtain ⟨rest, rfl, rfl⟩ := h.eq_append (p := ['0', 'x']) (by decide) heq
      simp only [List.cons_append, List.nil_append, hhex.same h]
    · next rest heq =>
      obtain ⟨rest, rfl, rfl⟩ := h.eq_append (p := ['0', 'o']) (by decide) heq
      simp only [List.cons_append, List.nil_append, hdigits.same h]
    · next rest heq =>
      obtain ⟨rest, rfl, rfl⟩ := h.eq_append (p := ['0', 'b']) (by decide) heq
      simp only [List.cons_append, List.nil_append, hdigits.same h]
    · next hx ho hb =>
      split
      · exact absurd rfl (hx _)
      · exact absurd rfl (ho _)
      · exact absurd rfl (hb _)
      · exact hdecimal.same h cs
  · intro cs
    unfold openNumber
    split
    · next rest =>
      have hrest := hhex.fits rest
      rw [List.length_cons, List.length_cons]
      omega
    · next rest =>
      have hrest := hdigits.fits rest
      rw [List.length_cons, List.length_cons]
      omega
    · next rest =>
      have hrest := hdigits.fits rest
      rw [List.length_cons, List.length_cons]
      omega
    · exact hdecimal.fits cs

theorem confined_numberLength : Confined numberLength :=
  confined_openNumber.followed confined_suffixLength

theorem opensRawWord_blanks (h : Plain blanks) (cs : List Char) :
    opensRawWord (cs ++ blanks) = opensRawWord cs := by
  unfold opensRawWord
  split
  · next rest heq =>
    obtain ⟨rest, rfl, rfl⟩ := h.eq_append (p := ['r', '#']) (by decide) heq
    exact h.any_head? (by decide) rest
  · next hno =>
    split
    · exact absurd rfl (hno _)
    · rfl

theorem lt_of_opensRawWord (h : opensRawWord (c :: cs) = true) : 0 < cs.length := by
  unfold opensRawWord at h
  split at h
  · next rest heq =>
    rw [(List.cons.inj heq).2]
    exact Nat.succ_pos _
  · cases h

/-! ### The lexicon -/

theorem solid_marks : ∀ m ∈ marks, ∀ c ∈ m, isPlain c = false := by
  decide

theorem isGap_of_isPlain (h : isPlain c = true) : isGap c = true := by
  rw [isGap, isBlank_of_isPlain h, Bool.true_or, Bool.true_or]

theorem confined_idRest : Confined (Text.runLength Text.isIdContinue) :=
  confined_runLength (by decide)

/-- **The lexicon of Rust** is confined. -/
theorem confines_lexicon : lexicon.Confines .rust where
  goes {c cs blanks} h := by
    have hplain := h.plain
    rcases comment?_append h with hsame | ⟨k, hcomment, hon⟩
    · have hword : 1 + Text.runLength Text.isIdContinue cs ≤ (c :: cs).length := by
        have := confined_idRest.fits cs
        rw [List.length_cons]
        omega
      have hraw : Text.runLength Text.isIdContinue ((cs ++ blanks).drop 1) =
          Text.runLength Text.isIdContinue (cs.drop 1) := by
        rw [List.drop_append, confined_idRest.same (hplain.drop _)]
      have heq : lexicon (c :: cs ++ blanks) = lexicon (c :: cs) := by
        simp only [lexicon, List.cons_append, confined_idRest.same hplain, hraw]
        simp only [← List.cons_append, hsame, confined_literal?.same hplain,
          opensRawWord_blanks hplain, confined_numberLength.same hplain,
          startsWith_blanks hplain (by decide : ∀ c ∈ ['/', '*'], isPlain c = false),
          (confined_markLength? solid_marks).same hplain, wordPiece_blanks hword]
      rw [heq]
      exact .same
    · rw [List.cons_append] at hon ⊢
      simp only [lexicon, hcomment, hon]
      split
      · exact .same
      · exact .on k rfl
  fits c cs := by
    unfold lexicon
    dsimp only
    split
    · simp [Piece.length]
    split
    · next piece hcomment => exact length_comment? hcomment
    split
    · next kind n hliteral => exact confined_literal?.fits hliteral
    split
    · next hraw =>
      have hpos := lt_of_opensRawWord hraw
      have hrun := confined_idRest.fits (cs.drop 1)
      rw [List.length_drop] at hrun
      simp only [Piece.length]
      omega
    split
    · have hrun := confined_idRest.fits cs
      simp only [wordPiece, Piece.length]
      omega
    split
    · exact confined_numberLength.fits (c :: cs)
    split
    · simp [Piece.length]
    split
    · next n hmark => exact (confined_markLength? solid_marks).fits hmark
    · simp [Piece.length]
  plain {c} hc cs := by
    rw [lexicon, if_pos (isGap_of_isPlain hc)]

/-! ### Texts -/

theorem opensWithInterpreter_blanks (h : Plain blanks) (cs : List Char) :
    opensWithInterpreter (cs ++ blanks) = opensWithInterpreter cs := by
  unfold opensWithInterpreter
  split
  · next rest heq =>
    obtain ⟨rest, rfl, rfl⟩ := h.eq_append (p := ['#', '!']) (by decide) heq
    have hblanks : blanks.dropWhile isGap = [] :=
      List.dropWhile_eq_nil_iff.mpr fun c hc => isGap_of_isPlain (h c hc)
    simp only [List.cons_append, List.nil_append, List.dropWhile_append, hblanks]
    split
    · next hempty => rw [List.isEmpty_iff.mp hempty]
    · next hne =>
      rw [List.head?_append_of_ne_nil]
      exact fun hnil => hne (List.isEmpty_iff.mpr hnil)
  · next hno =>
    split
    · exact absurd rfl (hno _)
    · rfl

theorem interpreterLength_le (cs : List Char) : interpreterLength cs ≤ cs.length := by
  unfold interpreterLength
  split
  · exact restOfLine_le cs
  · exact Nat.zero_le _

/-- The line that names the interpreter ends with the text, or it goes on in the blanks. -/
theorem interpreterLength_append (h : Plain blanks) (cs : List Char) :
    interpreterLength (cs ++ blanks) = interpreterLength cs ∨
      ∃ k, interpreterLength cs = cs.length ∧ interpreterLength (cs ++ blanks) = cs.length + k := by
  rw [interpreterLength, interpreterLength, opensWithInterpreter_blanks h]
  split
  · exact restOfLine_append cs blanks
  · exact .inl rfl

/-- Blanks are no byte order mark, and no tokens. -/
theorem tokens_unmarked_blanks (h : Plain (c :: blanks)) (p : Position) :
    (if c.toNat == 0xFEFF then Lexicon.tokens lexicon (p.next c) blanks
      else Lexicon.tokens lexicon p (c :: blanks)) = [] := by
  have hmark : (c.toNat == 0xFEFF) = false :=
    (by decide : Solid fun c => c.toNat == 0xFEFF) c h.of_cons.1
  rw [hmark, if_neg Bool.false_ne_true]
  exact tokensFrom_blanks confines_lexicon h _ true p

/-- **Blanks behind a text** do not change its tokens. -/
theorem tokens_append (p : Position) (h : Closed .rust cs blanks) :
    tokens p (cs ++ blanks) = tokens p cs := by
  have hle := interpreterLength_le cs
  unfold tokens
  dsimp only
  rcases interpreterLength_append h.plain cs with hsame | ⟨k, hall, hon⟩
  · rw [hsame, List.take_append_of_le_length hle, List.drop_append_of_le_length hle]
    have hrest := h.drop (interpreterLength cs)
    generalize p.advance (cs.take (interpreterLength cs)) = p
    generalize cs.drop (interpreterLength cs) = rest at hrest ⊢
    rcases rest with _ | ⟨c, rest⟩
    · rcases blanks with _ | ⟨b, blanks⟩
      · rfl
      · exact tokens_unmarked_blanks h.plain p
    · simp only [List.cons_append, confines_lexicon.tokens_append _ hrest.of_cons]
      simp only [← List.cons_append, confines_lexicon.tokens_append p hrest]
  · -- The text is that line and nothing else.
    have hplain := h.plain.drop k
    rw [hall, hon, List.drop_length, List.drop_append,
      List.drop_of_length_le (Nat.le_add_right _ _), List.nil_append, Nat.add_sub_cancel_left]
    generalize blanks.drop k = blanks at hplain ⊢
    rcases blanks with _ | ⟨b, blanks⟩
    · rfl
    · exact tokens_unmarked_blanks hplain _

/-- Whether a text opens with what has a meaning only at the beginning of a file. -/
def opensFile (cs : List Char) : Bool :=
  cs.head?.any (·.toNat == 0xFEFF) || opensWithInterpreter cs

/-- The tokens of a text that begins like any other. -/
theorem tokens_of_not_opensFile (p : Position) (h : opensFile cs = false) :
    tokens p cs = Lexicon.tokens lexicon p cs := by
  obtain ⟨hmark, hopens⟩ := Bool.or_eq_false_iff.mp h
  have hlength : interpreterLength cs = 0 := by
    rw [interpreterLength, hopens, if_neg Bool.false_ne_true]
  unfold tokens
  dsimp only
  rw [hlength, List.drop_zero, List.take_zero]
  rcases cs with _ | ⟨c, rest⟩
  · rfl
  · rw [List.head?_cons, Option.any_some] at hmark
    simp only [hmark, Bool.false_eq_true, if_false]
    rfl

theorem opensFile_of_isPlain (h : isPlain c = true) (cs : List Char) :
    opensFile (c :: cs) = false := by
  have hmark : (c.toNat == 0xFEFF) = false := (by decide : Solid fun c => c.toNat == 0xFEFF) c h
  have hopens : opensWithInterpreter (c :: cs) = false := by
    rw [opensWithInterpreter]
    exact fun _ heq => absurd (List.cons.inj heq).1 (ne_of_isPlain h (by decide))
  rw [opensFile, List.head?_cons, Option.any_some, hmark, hopens]
  rfl

/-- **Blanks in front of a text** have no tokens in them. -/
theorem tokens_plain_append (p : Position) (h : Plain blanks)
    (hopens : blanks ≠ [] → opensFile cs = false) :
    tokens p (blanks ++ cs) = tokens (p.advance blanks) cs := by
  rcases blanks with _ | ⟨b, blanks⟩
  · rfl
  · rw [tokens_of_not_opensFile _ (hopens (List.cons_ne_nil _ _)),
      ← confines_lexicon.tokens_plain_append p h]
    exact tokens_of_not_opensFile p (opensFile_of_isPlain h.of_cons.1 _)

/-- **A text that stands elsewhere** has the same tokens elsewhere. -/
theorem tokens_behind (q p : Position) (cs : List Char) :
    tokens (q.behind p) cs = (tokens p cs).map (Token.behind q) := by
  unfold tokens
  dsimp only
  rw [← Position.behind_advance]
  split
  · rw [← Position.behind_next, Lexicon.tokens_behind, Lexicon.tokens_behind]
    split <;> rfl
  · rfl

/-- **The tokens of a text** stand in it one after the other. -/
theorem sequence_tokens (p : Position) (cs : List Char) :
    Token.Sequence p cs [] (tokens p cs) := by
  have hsplit := (List.take_append_drop (interpreterLength cs) cs).symm
  unfold tokens
  dsimp only
  split
  · next c rest heq =>
    rw [heq] at hsplit
    split
    · have hcs : cs = [] ++ (cs.take (interpreterLength cs) ++ [c]) ++ rest := by
        rw [List.nil_append, List.append_assoc]
        exact hsplit
      have hnext : (p.advance (cs.take (interpreterLength cs))).next c =
          p.advance (cs.take (interpreterLength cs) ++ [c]) := by
        rw [Position.advance_append]
        rfl
      rw [hnext]
      exact sequence_tokensFrom [] _ _ _ hcs
    · exact sequence_tokensFrom [] _ _ _ hsplit
  · exact .nil

/-- **The tokens of a text** stand at places of the text. -/
theorem within_tokens (p : Position) (cs : List Char) :
    ∀ t ∈ tokens p cs, t.Within (p.Of cs) :=
  (sequence_tokens p cs).within

/-- What one token says about the brackets. -/
theorem mismatch?_cons (opened : List (Position × String)) (t : Token) (ts : List Token) :
    mismatch? opened (t :: ts) =
      if t.kind == .stray then some t.start
      else
        match closing? t with
        | some close => mismatch? ((t.start, close) :: opened) ts
        | none =>
          if isClosing t then
            match opened with
            | (_, close) :: outer => if close == t.text then mismatch? outer ts else some t.start
            | [] => some t.start
          else mismatch? opened ts := by
  rcases opened with _ | ⟨⟨place, close⟩, outer⟩ <;> rfl

/-- **Brackets match** only where all tokens are tokens of the language. -/
theorem noStray_of_mismatch? {opened : List (Position × String)} {ts : List Token}
    (h : mismatch? opened ts = none) : ∀ t ∈ ts, t.kind ≠ .stray := by
  induction ts generalizing opened with
  | nil => exact fun _ ht => absurd ht List.not_mem_nil
  | cons t ts ih =>
    rw [mismatch?_cons] at h
    split at h
    · cases h
    next hkind =>
    refine List.forall_mem_cons.mpr ⟨by simpa using hkind, ?_⟩
    split at h
    · exact ih h
    · split at h
      · split at h
        · split at h
          · exact ih h
          · cases h
        · cases h
      · exact ih h

/-- The brackets of a text that stands elsewhere match alike. -/
theorem mismatch?_behind (q : Position) (opened : List (Position × String)) (ts : List Token) :
    mismatch? (opened.map fun o => (q.behind o.1, o.2)) (ts.map (Token.behind q)) =
      (mismatch? opened ts).map q.behind := by
  induction ts generalizing opened with
  | nil => rcases opened with _ | ⟨⟨place, close⟩, outer⟩ <;> rfl
  | cons t ts ih =>
    have hkind : (t.behind q).kind = t.kind := rfl
    have hclosing : closing? (t.behind q) = closing? t := rfl
    have hisClosing : isClosing (t.behind q) = isClosing t := rfl
    rw [List.map_cons, mismatch?_cons, mismatch?_cons, hkind, hclosing, hisClosing]
    -- A stray token is told before any bracket is looked at.
    by_cases hstray : t.kind == .stray
    · rw [if_pos hstray, if_pos hstray]
      rfl
    rw [if_neg hstray, if_neg hstray]
    rcases closing? t with _ | close
    · dsimp only
      by_cases hclosed : isClosing t
      · rw [if_pos hclosed, if_pos hclosed]
        rcases opened with _ | ⟨⟨place, close⟩, outer⟩
        · rfl
        by_cases hclose : close == t.text
        · simp only [List.map_cons, Token.behind, hclose, if_true, ih]
        · simp only [List.map_cons, Token.behind, hclose, Bool.false_eq_true, if_false,
            Option.map_some]
      · rw [if_neg hclosed, if_neg hclosed, ih]
    · exact ih ((t.start, close) :: opened)

end Dossier.Lexicon.Rust
