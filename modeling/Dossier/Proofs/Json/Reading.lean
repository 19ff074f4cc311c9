import Dossier.Json.Parser
import Dossier.Json.Printer
import Dossier.Proofs.Json.Numerals
import Mathlib.Data.List.Forall2

/-!
# Values are read back from their texts

A string literal is read character by character: what stands for a character in the literal is
read as this character, whichever of the ways to write it was taken
(`Dossier.Json.stringTail?_escapeChar`). So a literal is read as the string that it was made of,
and what follows it is left over.

Reading does not look at the layout of a text: blanks may stand around every item, every member and
every mark (`Dossier.Json.Layout`). So a value that can be read back at all is read back from both
of the texts that are written of it, the one without blanks (`Dossier.Json.parse?_compact`) and the
one with a line for every item (`Dossier.Json.parse?_pretty`). What cannot be read back is an
integer of more than sixty-four bits, a number that is not finite, and what is nested too deep
(`Dossier.Json.Readable`).
-/

namespace Dossier

/-! ### String literals -/

theorem Text.hexValue?_hexDigit {n : Nat} (h : n < 16) : hexValue? (hexDigit n) = some n := by
  have hall : ∀ n < 16, hexValue? (hexDigit n) = some n := by decide
  exact hall n h

namespace Json

/-- An escape of four hexadecimal digits is read as the character with this number. -/
theorem stringTail?_unicode {a b c d : Char} {n : Nat} (acc rest : List Char)
    (h : hex4? a b c d = some n) (hn : n < 0xD800) :
    stringTail? acc ('\\' :: 'u' :: a :: b :: c :: d :: rest) =
      stringTail? (Char.ofNat n :: acc) rest := by
  rw [stringTail?, h]
  dsimp only
  rw [if_neg (by omega), if_neg (by omega)]

/-- An escape of one letter is read as what the letter is for. -/
theorem stringTail?_plainEscape {e c : Char} (acc rest : List Char) (h : plainEscape? e = some c) :
    stringTail? acc ('\\' :: e :: rest) = stringTail? (c :: acc) rest := by
  rw [stringTail?, h]
  rintro - - - - - rfl
  cases h

/-- A character that needs no escape is read as it stands. -/
theorem stringTail?_self {c : Char} (acc rest : List Char) (hquote : c ≠ '"') (hslash : c ≠ '\\')
    (hcontrol : ¬c.toNat < 32) : stringTail? acc (c :: rest) = stringTail? (c :: acc) rest := by
  rw [stringTail?]
  · simp [hslash, hcontrol]
  · exact hquote
  · exact fun _ _ _ _ _ h => absurd h hslash
  · exact fun _ _ h => absurd h hslash

/-- **What stands for a character is read as this character.** -/
theorem stringTail?_escapeChar (acc : List Char) (c : Char) (rest : List Char) :
    stringTail? acc (escapeChar c ++ rest) = stringTail? (c :: acc) rest := by
  have hnat : Char.ofNat c.toNat = c := Char.ofNat_toNat c
  unfold escapeChar
  simp only [beq_iff_eq]
  split
  · next h => exact stringTail?_plainEscape acc rest (by rw [h]; rfl)
  next hquote =>
  split
  · next h => exact stringTail?_plainEscape acc rest (by rw [h]; rfl)
  next hslash =>
  split
  · next h => exact stringTail?_plainEscape acc rest (by rw [h]; rfl)
  split
  · next h => exact stringTail?_plainEscape acc rest (by rw [h]; rfl)
  split
  · next h => exact stringTail?_plainEscape acc rest (by rw [h]; rfl)
  split
  · next h => exact stringTail?_plainEscape acc rest (by rw [← hnat, h]; rfl)
  split
  · next h => exact stringTail?_plainEscape acc rest (by rw [← hnat, h]; rfl)
  split
  · next h =>
    -- Other control characters are written with two digits behind two zeros.
    have hhex : hex4? '0' '0' (Text.hexDigit (c.toNat / 16)) (Text.hexDigit (c.toNat % 16)) =
        some c.toNat := by
      rw [hex4?, Text.hexValue?_hexDigit (by omega), Text.hexValue?_hexDigit (by omega)]
      simp [Text.hexValue?]
      omega
    have := stringTail?_unicode acc rest hhex (by omega)
    rwa [hnat] at this
  · next hcontrol => exact stringTail?_self acc rest hquote hslash hcontrol

theorem stringTail?_quote (acc cs rest : List Char) :
    stringTail? acc (cs.flatMap escapeChar ++ '"' :: rest) = some (acc.reverse ++ cs, rest) := by
  induction cs generalizing acc with
  | nil => simp [stringTail?]
  | cons c cs ih =>
    rw [List.flatMap_cons, List.append_assoc, stringTail?_escapeChar, ih]
    simp

end Json

end Dossier

namespace Dossier.Json

open Decimal (IsDigit)

/-! ### Blanks -/

/-- Whether a text is blank. -/
def Blank (cs : List Char) : Prop :=
  ∀ c ∈ cs, isSpace c = true

variable {gap cs rest : List Char}

theorem skipSpace_append (h : Blank gap) (cs : List Char) :
    skipSpace (gap ++ cs) = skipSpace cs := by
  rw [skipSpace, skipSpace, List.dropWhile_append_of_pos h]

theorem skipSpace_cons {c : Char} (h : isSpace c = false) (cs : List Char) :
    skipSpace (c :: cs) = c :: cs := by
  rw [skipSpace, List.dropWhile_cons_of_neg (by simp [h])]

/-- A value is read behind blanks as well. -/
theorem value?_skip (fuel depth : Nat) (h : Blank gap) (cs : List Char) :
    value? fuel depth (gap ++ cs) = value? fuel depth cs := by
  cases fuel with
  | zero => rfl
  | succ fuel => rw [value?, value?, skipSpace_append h]

theorem items?_skip (fuel depth : Nat) (h : Blank gap) (cs : List Char) :
    items? fuel depth (gap ++ cs) = items? fuel depth cs := by
  cases fuel with
  | zero => rfl
  | succ fuel => rw [items?, items?, value?_skip fuel depth h]

theorem members?_skip (fuel depth : Nat) (h : Blank gap) (cs : List Char) :
    members? fuel depth (gap ++ cs) = members? fuel depth cs := by
  cases fuel with
  | zero => rfl
  | succ fuel => rw [members?, members?, skipSpace_append h]

/-- What begins with blanks can follow a numeral if what comes after them can. -/
theorem Ends.append (hgap : Blank gap) (h : Ends cs) : Ends (gap ++ cs) := by
  rcases gap with _ | ⟨c, gap⟩
  · exact h
  · intro d hd
    obtain rfl := Option.some.inj hd
    have hc := hgap c List.mem_cons_self
    simp only [isSpace, Bool.or_eq_true, beq_iff_eq] at hc
    obtain ((rfl | rfl) | rfl) | rfl := hc <;> decide

/-! ### Texts that are read as a value -/

/-- **Whether a text is read as a value** at a depth, whatever follows it. -/
structure Reads (depth : Nat) (cs : List Char) (v : Json) : Prop where
  starts : ∃ c ∈ cs.head?, isSpace c = false ∧ c ≠ ']'
  reads : ∀ fuel rest, Ends rest → cs.length < fuel →
    value? fuel depth (cs ++ rest) = some (v, rest)

variable {depth : Nat} {v : Json}

/-- Reading has at least one step. -/
theorem exists_succ {n fuel : Nat} (h : n < fuel) : ∃ k, fuel = k + 1 ∧ n ≤ k :=
  ⟨fuel - 1, by omega, by omega⟩

theorem reads_null : Reads depth "null".toList .null where
  starts := ⟨'n', rfl, by decide⟩
  reads fuel rest _ hfuel := by
    obtain ⟨k, rfl, -⟩ := exists_succ hfuel
    rfl

theorem reads_bool (b : Bool) : Reads depth (if b then "true" else "false").toList (.bool b) where
  starts := by
    cases b
    · exact ⟨'f', rfl, by decide⟩
    · exact ⟨'t', rfl, by decide⟩
  reads fuel rest _ hfuel := by
    obtain ⟨k, rfl, -⟩ := exists_succ hfuel
    cases b <;> rfl

theorem reads_string (s : String) : Reads depth (quote s) (.string s) where
  starts := ⟨'"', rfl, by decide⟩
  reads fuel rest _ hfuel := by
    obtain ⟨k, rfl, -⟩ := exists_succ hfuel
    have hquote : quote s ++ rest = '"' :: (s.toList.flatMap escapeChar ++ '"' :: rest) := by
      simp [quote]
    rw [hquote, value?, skipSpace_cons (by decide)]
    simp [stringTail?_quote]

/-- What a numeral begins with opens no other value and ends none. -/
theorem ne_of_starts {c d : Char} (h : c = '-' ∨ IsDigit c) (hd : d ≠ '-' ∧ ¬IsDigit d) :
    c ≠ d := by
  rintro rfl
  exact h.elim hd.1 hd.2

theorem isSpace_of_starts {c : Char} (h : c = '-' ∨ IsDigit c) : isSpace c = false := by
  simp only [isSpace, Bool.or_eq_false_iff, beq_eq_false_iff_ne]
  exact ⟨⟨⟨ne_of_starts h (by decide), ne_of_starts h (by decide)⟩, ne_of_starts h (by decide)⟩,
    ne_of_starts h (by decide)⟩

/-- A numeral is not taken for anything else. -/
theorem IsNumeral.toReads (h : IsNumeral cs v) : Reads depth cs v where
  starts := by
    obtain ⟨c, hc, hstart⟩ := h.starts
    exact ⟨c, hc, isSpace_of_starts hstart, ne_of_starts hstart (by decide)⟩
  reads fuel rest hrest hfuel := by
    obtain ⟨k, rfl, -⟩ := exists_succ hfuel
    obtain ⟨n, hnumeral, hvalue⟩ := h.reads rest hrest
    obtain ⟨c, hc, hstart⟩ := h.starts
    obtain ⟨cs, rfl⟩ : ∃ tail, cs = c :: tail := List.head?_eq_some_iff.mp hc
    rw [List.cons_append] at hnumeral ⊢
    rw [value?, skipSpace_cons (isSpace_of_starts hstart)]
    split
    case h_7 => simp [hnumeral, hvalue]
    all_goals
      next heq =>
      exact absurd (List.cons.inj heq).1 (ne_of_starts hstart (by decide))

/-! ### Items and members -/

/-- **How items and members are laid out**: what stands on each depth before an item and before the
bracket at the end, and what stands before the value of a member. -/
structure Layout where
  gap : Nat → List Char
  colonGap : List Char
  blank_gap : ∀ level, Blank (gap level)
  blank_colonGap : Blank colonGap

/-- Pieces between two brackets. -/
def Layout.block (w : Layout) (o c : Char) (level : Nat) (pieces : List (List Char)) : List Char :=
  match pieces with
  | [] => [o, c]
  | _ => o :: w.gap (level + 1) ++ separate (',' :: w.gap (level + 1)) pieces ++ w.gap level ++ [c]

/-- A member, given its name and the text of its value. -/
def Layout.member (w : Layout) (name : String) (cs : List Char) : List Char :=
  quote name ++ ':' :: w.colonGap ++ cs

variable {w : Layout} {pieces : List (List Char)} {xs : List Json}

theorem separate_cons_cons (sep p q : List Char) (ps : List (List Char)) :
    separate sep (p :: q :: ps) = p ++ (sep ++ separate sep (q :: ps)) := by
  rw [separate, List.append_assoc]
  exact List.cons_ne_nil q ps

theorem length_separate_cons_le (sep p : List Char) (ps : List (List Char)) :
    p.length ≤ (separate sep (p :: ps)).length := by
  cases ps <;> simp [separate]

theorem ends_cons {c : Char} (h : ¬IsDigit c ∧ c ≠ '.' ∧ c ≠ 'e' ∧ c ≠ 'E') (cs : List Char) :
    Ends (c :: cs) := by
  intro d hd
  obtain rfl := Option.some.inj hd
  exact h

theorem ends_comma (cs : List Char) : Ends (',' :: cs) :=
  ends_cons (by decide) cs

/-- **Items are read one after another**, up to the bracket behind them. -/
theorem items?_separate (h : List.Forall₂ (Reads depth) pieces xs) (hne : pieces ≠ [])
    {sepGap endGap : List Char} (hsep : Blank sepGap) (hend : Blank endGap) (fuel : Nat)
    (rest : List Char) (hfuel : (separate (',' :: sepGap) pieces).length < fuel) :
    items? (fuel + 1) depth (separate (',' :: sepGap) pieces ++ (endGap ++ ']' :: rest)) =
      some (xs, rest) := by
  have hbracket : Ends (endGap ++ ']' :: rest) := .append hend (ends_cons (by decide) _)
  induction h generalizing fuel with
  | nil => exact absurd rfl hne
  | @cons p x ps xs hp hps ih =>
    have hlength := length_separate_cons_le (',' :: sepGap) p ps
    rcases ps with _ | ⟨q, ps⟩
    · cases hps
      rw [separate, items?, hp.reads fuel _ hbracket (by omega)]
      simp only [skipSpace_append hend, skipSpace_cons (show isSpace ']' = false by decide)]
    · obtain ⟨k, rfl, -⟩ := exists_succ hfuel
      rw [separate_cons_cons, List.length_append, List.length_append, List.length_cons] at hfuel
      rw [separate_cons_cons, List.append_assoc, List.append_assoc, List.cons_append, items?,
        hp.reads (k + 1) _ (ends_comma _) (by omega)]
      simp only [skipSpace_cons (show isSpace ',' = false by decide)]
      rw [items?_skip _ _ hsep, ih (by simp) k (by omega)]
      rfl

/-- Whether a text is read as a member. -/
def ReadsMember (w : Layout) (depth : Nat) (cs : List Char) (m : String × Json) : Prop :=
  ∃ value, cs = w.member m.1 value ∧ Reads depth value m.2

variable {ms : List (String × Json)}

/-- **Members are read one after another**, up to the bracket behind them. -/
theorem members?_separate (h : List.Forall₂ (ReadsMember w depth) pieces ms) (hne : pieces ≠ [])
    {sepGap endGap : List Char} (hsep : Blank sepGap) (hend : Blank endGap) (fuel : Nat)
    (rest : List Char) (hfuel : (separate (',' :: sepGap) pieces).length < fuel) :
    members? (fuel + 1) depth (separate (',' :: sepGap) pieces ++ (endGap ++ '\x7d' :: rest)) =
      some (ms, rest) := by
  have hbracket : Ends (endGap ++ '\x7d' :: rest) := .append hend (ends_cons (by decide) _)
  induction h generalizing fuel with
  | nil => exact absurd rfl hne
  | @cons p m ps ms hp hps ih =>
    obtain ⟨value, rfl, hvalue⟩ := hp
    have hlength := length_separate_cons_le (',' :: sepGap) (w.member m.1 value) ps
    have hmember : ∀ cs, w.member m.1 value ++ cs =
        '"' :: (m.1.toList.flatMap escapeChar ++ '"' :: ':' :: (w.colonGap ++ (value ++ cs))) := by
      intro cs
      simp [Layout.member, quote]
    have hshorter : value.length < (w.member m.1 value).length := by
      simp [Layout.member, quote]
      omega
    rcases ps with _ | ⟨q, ps⟩
    · -- The last member has the blanks and the bracket of the object behind it.
      cases hps
      rw [separate, hmember, members?, skipSpace_cons (by decide)]
      simp only [stringTail?_quote, skipSpace_cons (show isSpace ':' = false by decide),
        value?_skip _ _ w.blank_colonGap, hvalue.reads fuel _ hbracket (by omega),
        skipSpace_append hend, skipSpace_cons (show isSpace '\x7d' = false by decide)]
      simp
    · -- Any other one has a comma behind it, and the members after that.
      obtain ⟨k, rfl, -⟩ := exists_succ hfuel
      rw [separate_cons_cons, List.length_append, List.length_append, List.length_cons] at hfuel
      rw [separate_cons_cons, List.append_assoc, List.append_assoc, List.cons_append, hmember,
        members?, skipSpace_cons (by decide)]
      simp only [stringTail?_quote, skipSpace_cons (show isSpace ':' = false by decide),
        value?_skip _ _ w.blank_colonGap,
        hvalue.reads (k + 1) _ (ends_comma _) (by omega),
        skipSpace_cons (show isSpace ',' = false by decide)]
      rw [members?_skip _ _ hsep, ih (by simp) k (by omega)]
      simp

theorem head?_separate {c : Char} {p : List Char} (h : c ∈ p.head?) (sep : List Char)
    (ps : List (List Char)) (cs : List Char) :
    ∃ tail, separate sep (p :: ps) ++ cs = c :: tail := by
  obtain ⟨tail, rfl⟩ : ∃ tail, p = c :: tail := List.head?_eq_some_iff.mp h
  rcases ps with _ | ⟨q, ps⟩
  · exact ⟨tail ++ cs, by rw [separate, List.cons_append]⟩
  · exact ⟨tail ++ (sep ++ separate sep (q :: ps)) ++ cs, by rw [separate_cons_cons]; simp⟩

theorem Layout.block_cons_append (w : Layout) (o c : Char) (level : Nat) (p : List Char)
    (ps : List (List Char)) (rest : List Char) :
    w.block o c level (p :: ps) ++ rest =
      o :: (w.gap (level + 1) ++ (separate (',' :: w.gap (level + 1)) (p :: ps) ++
        (w.gap level ++ c :: rest))) := by
  simp [Layout.block]

theorem Layout.length_separate_lt (w : Layout) (o c : Char) (level : Nat) (p : List Char)
    (ps : List (List Char)) :
    (separate (',' :: w.gap (level + 1)) (p :: ps)).length + 1 <
      (w.block o c level (p :: ps)).length := by
  simp [Layout.block]
  omega

/-- **An array is read item by item.** -/
theorem Reads.array (h : List.Forall₂ (Reads depth) pieces xs) (level : Nat) :
    Reads (depth + 1) (w.block '[' ']' level pieces) (.array xs) where
  starts := by
    refine ⟨'[', ?_, by decide⟩
    rcases pieces with _ | ⟨p, ps⟩ <;> rfl
  reads fuel rest _ hfuel := by
    obtain ⟨k, rfl, hk⟩ := exists_succ hfuel
    rcases pieces with _ | ⟨p, ps⟩
    · cases h
      rw [Layout.block, List.cons_append, value?, skipSpace_cons (by decide)]
      simp only [List.cons_append, List.nil_append,
        skipSpace_cons (show isSpace ']' = false by decide)]
    · have hlength := w.length_separate_lt '[' ']' level p ps
      obtain ⟨j, rfl⟩ := Nat.exists_eq_add_of_lt (hlength.trans_le hk)
      have hitems := items?_separate h (by simp) (w.blank_gap (level + 1)) (w.blank_gap level)
        (_ + j) rest (Nat.lt_add_right j (Nat.lt_succ_self _))
      -- The bracket is not followed by the other one, since the first item begins otherwise.
      cases h with
      | cons hp hps =>
      obtain ⟨c, hc, hspace, hbracket⟩ := hp.starts
      obtain ⟨tail, htail⟩ := head?_separate hc (',' :: w.gap (level + 1)) ps
        (w.gap level ++ ']' :: rest)
      rw [w.block_cons_append, value?, skipSpace_cons (by decide)]
      simp only [skipSpace_append (w.blank_gap (level + 1)), htail, skipSpace_cons hspace]
        at hitems ⊢
      split
      · next heq => exact absurd (List.cons.inj heq).1 hbracket
      · exact congrArg (Option.map _) hitems

/-- **An object is read member by member.** -/
theorem Reads.object (h : List.Forall₂ (ReadsMember w depth) pieces ms) (level : Nat) :
    Reads (depth + 1) (w.block '\x7b' '\x7d' level pieces) (.object ms) where
  starts := by
    refine ⟨'\x7b', ?_, by decide⟩
    rcases pieces with _ | ⟨p, ps⟩ <;> rfl
  reads fuel rest _ hfuel := by
    obtain ⟨k, rfl, hk⟩ := exists_succ hfuel
    rcases pieces with _ | ⟨p, ps⟩
    · cases h
      rw [Layout.block, List.cons_append, value?, skipSpace_cons (by decide)]
      simp only [List.cons_append, List.nil_append,
        skipSpace_cons (show isSpace '\x7d' = false by decide)]
    · have hlength := w.length_separate_lt '\x7b' '\x7d' level p ps
      obtain ⟨j, rfl⟩ := Nat.exists_eq_add_of_lt (hlength.trans_le hk)
      have hmembers := members?_separate h (by simp) (w.blank_gap (level + 1))
        (w.blank_gap level) (_ + j) rest (Nat.lt_add_right j (Nat.lt_succ_self _))
      -- The bracket is not followed by the other one, since the first member begins with a quote.
      cases h with
      | cons hp hps =>
      obtain ⟨value, hmember, -⟩ := hp
      have hquote : '"' ∈ p.head? := by
        rw [hmember]
        rfl
      obtain ⟨tail, htail⟩ := head?_separate hquote (',' :: w.gap (level + 1)) ps
        (w.gap level ++ '\x7d' :: rest)
      rw [w.block_cons_append, value?, skipSpace_cons (by decide)]
      simp only [skipSpace_append (w.blank_gap (level + 1)), htail,
        skipSpace_cons (show isSpace '"' = false by decide)] at hmembers ⊢
      exact congrArg (Option.map _) hmembers

/-! ### The two layouts -/

/-- The layout without blanks. -/
def Layout.compact : Layout where
  gap _ := []
  colonGap := []
  blank_gap _ := nofun
  blank_colonGap := nofun

/-- The layout with a line for every item and every member. -/
def Layout.pretty : Layout where
  gap := newLine
  colonGap := [' ']
  blank_gap level c hc := by
    rcases List.mem_cons.mp hc with rfl | hc
    · decide
    · rw [List.eq_of_mem_replicate hc]
      decide
  blank_colonGap c hc := by
    rw [List.mem_singleton.mp hc]
    decide

theorem compactItems_eq (xs : List Json) : compactItems xs = xs.map compactChars := by
  induction xs with
  | nil => rfl
  | cons x xs ih => rw [compactItems, ih, List.map_cons]

theorem compactMembers_eq (ms : List (String × Json)) :
    compactMembers ms = ms.map fun m => Layout.compact.member m.1 (compactChars m.2) := by
  induction ms with
  | nil => rfl
  | cons m ms ih =>
    rw [compactMembers, ih, List.map_cons]
    simp [Layout.member, Layout.compact]

theorem prettyItems_eq (level : Nat) (xs : List Json) :
    prettyItems level xs = xs.map (prettyChars level) := by
  induction xs with
  | nil => rfl
  | cons x xs ih => rw [prettyItems, ih, List.map_cons]

theorem prettyMembers_eq (level : Nat) (ms : List (String × Json)) :
    prettyMembers level ms = ms.map fun m => Layout.pretty.member m.1 (prettyChars level m.2) := by
  induction ms with
  | nil => rfl
  | cons m ms ih =>
    rw [prettyMembers, ih, List.map_cons]
    simp [Layout.member, Layout.pretty]

/-- **Whether a value can be read back** at a depth: its integers have sixty-four bits, what is
written of its doubles is read as the double, and it is not nested deeper. -/
inductive Readable : Nat → Json → Prop
  | null {d : Nat} : Readable d .null
  | bool {d : Nat} (b : Bool) : Readable d (.bool b)
  | int {d : Nat} {i : Int} (h : IsInt64 i) : Readable d (.int i)
  | float {d : Nat} {x : Float} (h : IsNumeral (Decimal.dataFormat.write x).toList (.float x)) :
    Readable d (.float x)
  | string {d : Nat} (s : String) : Readable d (.string s)
  | array {d : Nat} {xs : List Json} (h : ∀ x ∈ xs, Readable d x) : Readable (d + 1) (.array xs)
  | object {d : Nat} {ms : List (String × Json)} (h : ∀ m ∈ ms, Readable d m.2) :
    Readable (d + 1) (.object ms)

theorem readable_ofStrings (ss : List String) : Readable (depth + 1) (.ofStrings ss) :=
  .array (List.forall_mem_map.mpr fun s _ => .string s)

theorem readable_ofNat {n : Nat} (h : n < UInt64.size) : Readable depth (.ofNat n) :=
  .int ⟨by rw [Decimal.signedLimit]; omega, by exact_mod_cast h⟩

theorem readable_ofNat_of_lt {n : Nat} (h : n < UInt32.size) : Readable depth (.ofNat n) :=
  readable_ofNat (h.trans (by decide))

/-- Texts of all items are read as the items. -/
theorem forall₂_map_left {α : Type} {r : List Char → α → Prop} {f : α → List Char} {as : List α}
    (h : ∀ a ∈ as, r (f a) a) : List.Forall₂ r (as.map f) as := by
  rw [List.forall₂_map_left_iff, List.forall₂_same]
  exact h

theorem Readable.reads_compact (h : Readable depth v) : Reads depth (compactChars v) v := by
  induction h with
  | null => rw [compactChars]; exact reads_null
  | bool b => rw [compactChars]; exact reads_bool b
  | int h => rw [compactChars]; exact (isNumeral_ofInt h).toReads
  | float h => rw [compactChars]; exact h.toReads
  | string s => rw [compactChars]; exact reads_string s
  | @array depth xs _ ih =>
    have hblock :
        compactChars (.array xs) = Layout.compact.block '[' ']' 0 (xs.map compactChars) := by
      rw [compactChars, compactItems_eq]
      cases xs <;> simp [Layout.block, Layout.compact, separate]
    rw [hblock]
    exact .array (forall₂_map_left ih) 0
  | @object depth ms _ ih =>
    have hblock : compactChars (.object ms) = Layout.compact.block '\x7b' '\x7d' 0
        (ms.map fun m => Layout.compact.member m.1 (compactChars m.2)) := by
      rw [compactChars, compactMembers_eq]
      cases ms <;> simp [Layout.block, Layout.compact, separate]
    rw [hblock]
    exact .object (forall₂_map_left fun m hm => ⟨_, rfl, ih m hm⟩) 0

theorem Readable.reads_pretty (h : Readable depth v) (level : Nat) :
    Reads depth (prettyChars level v) v := by
  induction h generalizing level with
  | null => rw [prettyChars]; exact reads_null
  | bool b => rw [prettyChars]; exact reads_bool b
  | int h => rw [prettyChars]; exact (isNumeral_ofInt h).toReads
  | float h => rw [prettyChars]; exact h.toReads
  | string s => rw [prettyChars]; exact reads_string s
  | @array depth xs _ ih =>
    have hblock : prettyChars level (.array xs) =
        Layout.pretty.block '[' ']' level (xs.map (prettyChars (level + 1))) := by
      rw [prettyChars, prettyItems_eq]
      rfl
    rw [hblock]
    exact .array (forall₂_map_left fun x hx => ih x hx (level + 1)) level
  | @object depth ms _ ih =>
    have hblock : prettyChars level (.object ms) = Layout.pretty.block '\x7b' '\x7d' level
        (ms.map fun m => Layout.pretty.member m.1 (prettyChars (level + 1) m.2)) := by
      rw [prettyChars, prettyMembers_eq]
      rfl
    rw [hblock]
    exact .object (forall₂_map_left fun m hm => ⟨_, rfl, ih m hm (level + 1)⟩) level

/-! ### Whole texts -/

theorem parseChars?_of_reads (h : Reads maxDepth cs v) : parseChars? cs = some v := by
  have hread := h.reads (cs.length + 1) [] nofun (Nat.lt_succ_self _)
  rw [List.append_nil] at hread
  rw [parseChars?, hread]
  rfl

/-- **A value is read back from its text without blanks.** -/
theorem parse?_compact (h : Readable maxDepth v) : parse? v.compact = some v := by
  rw [parse?, compact, String.toList_ofList]
  exact parseChars?_of_reads h.reads_compact

/-- **A value is read back from its text on lines.** -/
theorem parse?_pretty (h : Readable maxDepth v) : parse? v.pretty = some v := by
  rw [parse?, pretty, String.toList_ofList]
  exact parseChars?_of_reads (h.reads_pretty 0)

end Dossier.Json
