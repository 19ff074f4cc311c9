import Dossier.Lexicon.Basic
import Dossier.Proofs.Text.Blank

/-!
# Pieces end with the text they stand in

The pieces that lexicons are made of are counted at the head of a text. What a piece has in it
besides its ends is no matter here, only that the blanks behind the text are not needed to tell how
long it is: the count is the same with them and without them, and it does not go beyond the text
(`Dossier.Lexicon.Confined`). It is kept where pieces are put together
(`Dossier.Lexicon.Confined.followed`).

The blanks that programs have at their ends are *plain*: spaces, tabs, and what lines and pages are
ended with. Pieces that begin to the left of them and are made of such characters, like comments,
are no part of this.
-/

namespace Dossier.Lexicon

/-- What holds of all characters of a list is decided by going through the list. (Going through all
characters there are is another way to decide it.) -/
instance decidableForallMem (cs : List Char) (p : Char → Prop) [DecidablePred p] :
    Decidable (∀ c ∈ cs, p c) :=
  List.decidableBAll p cs

/-- The characters that the blanks at the ends of a program are made of. -/
def isPlain (c : Char) : Bool :=
  [' ', '\t', '\n', '\r', '\x0c'].contains c

/-- Whether a text is made of such blanks. -/
def Plain (cs : List Char) : Prop :=
  ∀ c ∈ cs, isPlain c = true

/-- Whether a class of characters has no such blank. -/
def Solid (p : Char → Bool) : Prop :=
  ∀ c, isPlain c = true → p c = false

theorem solid_iff {p : Char → Bool} :
    Solid p ↔ ∀ c ∈ [' ', '\t', '\n', '\r', '\x0c'], p c = false := by
  simp only [Solid, isPlain, List.contains_iff_mem]

instance (p : Char → Bool) : Decidable (Solid p) :=
  decidable_of_iff _ solid_iff.symm

theorem Solid.or {p p' : Char → Bool} (h : Solid p) (h' : Solid p') :
    Solid fun c => p c || p' c := by
  intro c hc
  simp only [h c hc, h' c hc, Bool.or_self]

theorem solid_beq {c : Char} (h : isPlain c = false) : Solid (· == c) := by
  intro d hd
  refine beq_false_of_ne ?_
  rintro rfl
  rw [h] at hd
  cases hd

variable {cs blanks : List Char}

theorem Plain.of_cons {c : Char} (h : Plain (c :: cs)) : isPlain c = true ∧ Plain cs :=
  List.forall_mem_cons.mp h

theorem Plain.not_mem {c : Char} (h : Plain cs) (hc : isPlain c = false) : c ∉ cs := by
  intro hmem
  rw [h c hmem] at hc
  cases hc

theorem Plain.drop (h : Plain cs) (n : Nat) : Plain (cs.drop n) :=
  fun c hc => h c (List.mem_of_mem_drop hc)

theorem ne_of_isPlain {b c : Char} (hb : isPlain b = true) (hc : isPlain c = false) : b ≠ c := by
  rintro rfl
  rw [hb] at hc
  cases hc

/-- **What is solid at the head of a text with blanks behind it** stands in the text. -/
theorem Plain.eq_append {p rest : List Char} (h : Plain blanks) (hp : ∀ c ∈ p, isPlain c = false)
    (heq : cs ++ blanks = p ++ rest) : ∃ rest', cs = p ++ rest' ∧ rest = rest' ++ blanks := by
  induction p generalizing cs with
  | nil => exact ⟨cs, rfl, heq.symm⟩
  | cons c p ih =>
    obtain ⟨hc, hsolid⟩ := List.forall_mem_cons.mp hp
    rcases cs with _ | ⟨d, cs⟩
    · rw [List.nil_append] at heq
      rw [heq] at h
      exact absurd rfl (ne_of_isPlain h.of_cons.1 hc)
    · obtain ⟨rfl, htail⟩ := List.cons.inj heq
      obtain ⟨rest', rfl, hrest⟩ := ih hsolid htail
      exact ⟨rest', rfl, hrest⟩

/-- What is behind something solid stands in the text as well, or it is the first of the blanks. -/
theorem Plain.eq_cons_append {c d : Char} {rest : List Char} (h : Plain blanks)
    (hc : isPlain c = false) (heq : cs ++ blanks = c :: d :: rest) :
    (cs = [c] ∧ isPlain d = true) ∨ ∃ rest', cs = c :: d :: rest' ∧ rest = rest' ++ blanks := by
  obtain ⟨rest', rfl, hrest⟩ := h.eq_append (p := [c]) (by simpa using hc) heq
  rcases rest' with _ | ⟨e, rest'⟩
  · rw [List.nil_append] at hrest
    exact Or.inl ⟨rfl, h d (hrest ▸ List.mem_cons_self)⟩
  · obtain ⟨rfl, rfl⟩ := List.cons.inj hrest
    exact Or.inr ⟨rest', rfl, rfl⟩

/-- Nothing solid stands behind the end of a text. -/
theorem Plain.any_head? (h : Plain blanks) {p : Char → Bool} (hp : Solid p) (cs : List Char) :
    (cs ++ blanks).head?.any p = cs.head?.any p := by
  rcases cs with _ | ⟨c, cs⟩
  · rcases blanks with _ | ⟨b, blanks⟩
    · rfl
    · exact hp b h.of_cons.1
  · rfl

/-! ### Counts -/

/-- **Whether a count at the head of a text is confined to it**, and is not changed by plain blanks
behind the text. -/
structure Confined (f : List Char → Nat) : Prop where
  same : ∀ {blanks}, Plain blanks → ∀ cs, f (cs ++ blanks) = f cs
  fits : ∀ cs, f cs ≤ cs.length

theorem confined_runLength {p : Char → Bool} (hp : Solid p) : Confined (Text.runLength p) where
  same {blanks} h cs := by
    rw [Text.runLength, Text.runLength, List.takeWhile_append]
    split
    · next hall =>
      have hblanks : blanks.takeWhile p = [] := by
        rcases blanks with _ | ⟨c, blanks⟩
        · rfl
        · exact List.takeWhile_cons_of_neg (by simp [hp c h.of_cons.1])
      rw [hblanks, List.append_nil, hall]
    · rfl
  fits := Text.runLength_le p

theorem restOfLine_le (cs : List Char) : restOfLine cs ≤ cs.length :=
  Text.runLength_le _ cs

theorem confined_digitRun {digit : Char → Bool} (h : Solid digit) : Confined (digitRun digit) :=
  confined_runLength (h.or (solid_beq (by decide)))

/-- A piece after another is confined when both are. -/
theorem Confined.followed {f g : List Char → Nat} (hf : Confined f) (hg : Confined g) :
    Confined (followed f g) where
  same h cs := by
    rw [Lexicon.followed, Lexicon.followed, hf.same h, List.drop_append_of_le_length (hf.fits cs),
      hg.same h]
  fits cs := by
    have hfirst := hf.fits cs
    have hrest := hg.fits (cs.drop (f cs))
    rw [List.length_drop] at hrest
    rw [Lexicon.followed]
    omega

theorem confined_zero : Confined fun _ => 0 where
  same _ _ := rfl
  fits cs := cs.length.zero_le

theorem confined_fractionLength {digit : Char → Bool} (hdigit : Solid digit) :
    Confined (fractionLength digit) where
  same {blanks} h cs := by
    rcases cs with _ | ⟨c, cs⟩
    · rcases blanks with _ | ⟨c, blanks⟩
      · rfl
      · have hc : c ≠ '.' := ne_of_mem_of_not_mem List.mem_cons_self (h.not_mem (by decide))
        rw [List.nil_append, fractionLength, fractionLength]
        · exact fun _ heq => by cases heq
        · exact fun _ heq => hc (List.cons.inj heq).1
    · by_cases hc : c = '.'
      · rw [hc, List.cons_append, fractionLength, fractionLength,
          (confined_digitRun hdigit).same h]
      · rw [List.cons_append, fractionLength, fractionLength]
        · exact fun _ heq => hc (List.cons.inj heq).1
        · exact fun _ heq => hc (List.cons.inj heq).1
  fits cs := by
    have hrun := (confined_digitRun hdigit).fits
    unfold fractionLength
    split
    · next rest =>
      have := hrun rest
      rw [List.length_cons]
      omega
    · exact cs.length.zero_le

theorem confined_letterLength {letters : List Char} (hletters : Solid letters.contains) :
    Confined (letterLength letters) where
  same {blanks} h cs := by
    rcases cs with _ | ⟨c, cs⟩
    · rcases blanks with _ | ⟨c, blanks⟩
      · rfl
      · rw [List.nil_append, letterLength, hletters c h.of_cons.1]
        rfl
    · rfl
  fits cs := by
    unfold letterLength
    split
    · split <;> simp
    · exact Nat.le_refl 0

theorem confined_exponentLength {letters : List Char} (hletters : Solid letters.contains) :
    Confined (exponentLength letters) where
  same {blanks} h cs := by
    have hdigits : Confined (digitRun Text.isAsciiDigit) := confined_digitRun (by decide)
    -- Up to three characters are looked at.
    rcases cs with _ | ⟨e, _ | ⟨s, rest⟩⟩
    · rcases blanks with _ | ⟨b, _ | ⟨c, blanks⟩⟩
      · rfl
      · rfl
      · simp only [List.nil_append, exponentLength, hletters b h.of_cons.1, Bool.false_eq_true,
          if_false]
    · rcases blanks with _ | ⟨b, blanks⟩
      · rfl
      · have hsign : (b == '+' || b == '-') = false :=
          (by decide : Solid fun s => s == '+' || s == '-') b h.of_cons.1
        have hdigit : Text.isAsciiDigit b = false := (by decide : Solid _) b h.of_cons.1
        simp only [List.singleton_append, exponentLength, hsign, hdigit, Bool.false_and,
          Bool.false_eq_true, if_false, ite_self]
    · rw [List.cons_append, List.cons_append, exponentLength, exponentLength,
        h.any_head? (by decide), hdigits.same h, ← List.cons_append, hdigits.same h]
  fits cs := by
    have hdigits : Confined (digitRun Text.isAsciiDigit) := confined_digitRun (by decide)
    have hfits := hdigits.fits
    unfold exponentLength
    split
    · next e s rest =>
      have hrest := hfits rest
      have hs := hfits (s :: rest)
      rw [List.length_cons] at hs
      rw [List.length_cons, List.length_cons]
      split
      · split
        · omega
        · split <;> omega
      · omega
    · exact Nat.zero_le _

theorem confined_decimalLength : Confined decimalLength :=
  ((confined_digitRun (by decide)).followed (confined_fractionLength (by decide))).followed
    (confined_exponentLength (by decide))

theorem wordPiece_blanks {reserved : List String} {n : Nat} (hn : n ≤ cs.length) :
    wordPiece reserved n (cs ++ blanks) = wordPiece reserved n cs := by
  rw [wordPiece, wordPiece, List.take_append_of_le_length hn]

/-! ### Pieces that may not be there -/

/-- **Whether a piece that may stand at the head of a text is confined to it**; `length` is how long
the piece is. -/
structure ConfinedIf {α : Type} (length : α → Nat) (f : List Char → Option α) : Prop where
  same : ∀ {blanks}, Plain blanks → ∀ cs, f (cs ++ blanks) = f cs
  fits : ∀ {cs a}, f cs = some a → length a ≤ cs.length

/-- A count that goes on after some characters. -/
theorem le_of_map_add {f : Option Nat} {k m n : Nat} (hf : ∀ {n}, f = some n → n ≤ m)
    (h : f.map (· + k) = some n) : n ≤ m + k := by
  obtain ⟨n, hn, rfl⟩ := Option.map_eq_some_iff.mp h
  exact Nat.add_le_add_right (hf hn) k

/-- Marks without plain characters have none of the characters of the blanks. -/
theorem notMem_of_isPlain (h : Plain blanks) {p : List Char} (hp : ∀ c ∈ p, isPlain c = false) :
    ∀ c ∈ blanks, c ∉ p :=
  fun c hc hmem => ne_of_isPlain (h c hc) (hp c hmem) rfl

theorem startsWith_blanks (h : Plain blanks) {p : List Char} (hp : ∀ c ∈ p, isPlain c = false)
    (cs : List Char) : Text.startsWith p (cs ++ blanks) = Text.startsWith p cs :=
  Text.startsWith_append_of_head?
    (fun c hc => notMem_of_isPlain h hp c (List.mem_of_mem_head? hc)) cs

/-- What closes a piece is not found in the blanks. -/
theorem cut?_blanks (h : Plain blanks) {p : List Char} (hp : ∀ c ∈ p, isPlain c = false)
    (hne : p ≠ []) (cs : List Char) :
    Text.cut? p (cs ++ blanks) = (Text.cut? p cs).map fun r => (r.1, r.2 ++ blanks) :=
  Text.cut?_append_of_notMem (notMem_of_isPlain h hp) hne cs

theorem confined_through? {close : List Char} (hclose : ∀ c ∈ close, isPlain c = false)
    (hne : close ≠ []) : ConfinedIf id (through? close) where
  same h cs := by
    rw [through?, through?, cut?_blanks h hclose hne, Option.map_map]
    rfl
  fits {cs n} h := by
    obtain ⟨r, hr, rfl⟩ := Option.map_eq_some_iff.mp h
    have hlength := congrArg List.length (Text.eq_append_of_cut? hr)
    rw [List.length_append, List.length_append] at hlength
    rw [id]
    omega

/-- A character that is the last backslash neither nor one with a character after it. -/
theorem ne_slash {c : Char} (hlast : c = '\\' → cs = [] → False)
    (hpair : ∀ (d : Char) (rest : List Char), c = '\\' → cs = d :: rest → False) : c ≠ '\\' := by
  intro h
  rcases cs with _ | ⟨d, rest⟩
  · exact hlast h rfl
  · exact hpair d rest h rfl

/-- What is read where no backslash takes the next character with it. -/
theorem quoted?_cons {quote c : Char} (multiline : Bool) (h : c ≠ '\\') (cs : List Char) :
    quoted? quote multiline (c :: cs) =
      if c = quote then some 1
      else if c = '\n' && !multiline then none
      else (quoted? quote multiline cs).map (· + 1) := by
  rw [quoted?]
  · exact fun heq _ => h heq
  · exact fun _ _ heq _ => h heq

/-- A quote is not found in the blanks. -/
theorem quoted?_blanks {quote : Char} (hquote : isPlain quote = false) (multiline : Bool)
    (h : Plain blanks) : quoted? quote multiline blanks = none := by
  induction blanks with
  | nil => rfl
  | cons b blanks ih =>
    obtain ⟨hb, hrest⟩ := h.of_cons
    have hslash : b ≠ '\\' := ne_of_isPlain hb (by decide)
    rw [quoted?_cons multiline hslash, if_neg (ne_of_isPlain hb hquote), ih hrest]
    split <;> rfl

theorem confined_quoted? {quote : Char} (hquote : isPlain quote = false) (multiline : Bool) :
    ConfinedIf id (quoted? quote multiline) where
  same {blanks} h cs := by
    induction cs using quoted?.induct quote multiline with
    | case1 => exact quoted?_blanks hquote multiline h
    | case2 =>
      rcases blanks with _ | ⟨b, blanks⟩
      · rfl
      · rw [List.singleton_append, quoted?, quoted?, quoted?_blanks hquote multiline h.of_cons.2]
        rfl
    | case3 c cs ih => rw [List.cons_append, List.cons_append, quoted?, quoted?, ih]
    | case4 cs hlast hpair =>
      have hslash : quote ≠ '\\' := ne_slash hlast hpair
      rw [List.cons_append, quoted?_cons multiline hslash, quoted?_cons multiline hslash,
        if_pos rfl, if_pos rfl]
    | case5 c cs hlast hpair hquote hline =>
      have hslash : c ≠ '\\' := ne_slash hlast hpair
      rw [List.cons_append, quoted?_cons multiline hslash, quoted?_cons multiline hslash,
        if_neg hquote, if_neg hquote, if_pos hline, if_pos hline]
    | case6 c cs hlast hpair hquote hline ih =>
      have hslash : c ≠ '\\' := ne_slash hlast hpair
      rw [List.cons_append, quoted?_cons multiline hslash, quoted?_cons multiline hslash, ih]
  fits {cs n} h := by
    induction cs using quoted?.induct quote multiline generalizing n with
    | case1 => cases h
    | case2 => cases h
    | case3 c cs ih => exact le_of_map_add (m := cs.length) ih (by rwa [quoted?] at h)
    | case4 cs hlast hpair =>
      rw [quoted?_cons multiline (ne_slash hlast hpair), if_pos rfl] at h
      obtain rfl := Option.some.inj h
      simp
    | case5 c cs hlast hpair hquote hline =>
      rw [quoted?_cons multiline (ne_slash hlast hpair), if_neg hquote, if_pos hline] at h
      cases h
    | case6 c cs hlast hpair hquote hline ih =>
      rw [quoted?_cons multiline (ne_slash hlast hpair), if_neg hquote, if_neg hline] at h
      exact le_of_map_add ih h

theorem confined_markLength? {marks : List (List Char)}
    (hmarks : ∀ m ∈ marks, ∀ c ∈ m, isPlain c = false) : ConfinedIf id (markLength? marks) where
  same h cs := by
    rw [markLength?, markLength?]
    congr 1
    induction marks with
    | nil => rfl
    | cons m marks ih =>
      obtain ⟨hm, hmarks⟩ := List.forall_mem_cons.mp hmarks
      rw [List.find?_cons, List.find?_cons, startsWith_blanks h hm, ih hmarks]
  fits {cs n} h := by
    obtain ⟨m, hm, rfl⟩ := Option.map_eq_some_iff.mp h
    exact Text.length_le_of_startsWith
      (List.find?_some (p := fun m => Text.startsWith m cs) hm)

end Dossier.Lexicon
